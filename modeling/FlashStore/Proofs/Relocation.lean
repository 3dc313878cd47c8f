import FlashStore.Proofs.Consistent

/-!
# Relocated records

`stamped m block g ws` is the memory with a block wiped and filled anew: the magic word, a
generation, and the words of the records. A compaction stamps the spare block with the survivors
of the current one and wipes that afterwards; `Compacting` lists the memories it may be cut at.
None of them shows other contents than before, since the spare block has no header until it is
complete, and both blocks hold the same from then on.
-/

namespace FlashStore

variable {m m' m₀ : Memory} {p : Placement} {block other : Block} {side : Side} {g : Word}
  {rs : List Record} {ws : List Word} {cursor : Nat}

/-! ### Stamped blocks -/

/-- The memory with a block wiped and filled with a header and words. -/
def stamped (m : Memory) (block : Block) (g : Word) (ws : List Word) : Memory :=
  writeWords (wiped m block.base block.stop) block.base (magic :: g :: ws)

lemma spells_stamped (m : Memory) (block : Block) (g : Word) (ws : List Word) :
    Spells (stamped m block g ws) block.base (magic :: g :: ws) := spells_writeWords _ _ _

lemma header_stamped (m : Memory) (block : Block) (g : Word) (ws : List Word) :
    header (stamped m block g ws) block = some g :=
  have h := spells_stamped m block g ws
  header_eq_some (h 0 (by simp)) (h 1 (by simp))

/-- The words behind the records stay erased. -/
lemma stamped_of_le (m : Memory) (block : Block) (g : Word) {ws : List Word} {i : Nat}
    (h : block.first + 4 * ws.length ≤ i) (hi : i < block.stop) :
    stamped m block g ws i = Word.erased := by
  have hbase := block.first_eq
  rw [stamped, writeWords_of_le _ (by simp only [List.length_cons]; omega),
    wiped_of_mem _ (by omega)]

lemma agreeOutside_stamped (m : Memory) (g : Word)
    (h : block.first + 4 * ws.length ≤ block.stop) :
    AgreeOutside block.base block.stop m (stamped m block g ws) := by
  have hbase := block.first_eq
  refine (agreeOutside_wiped m _ _).trans ?_
  refine (agreeOutside_writeWords _ _ _).mono (Nat.le_refl _) ?_
  simp only [List.length_cons]
  omega

lemma four_mul_length_images (m : Memory) (rs : List Record) :
    4 * (rs.flatMap fun r => r.image m).length = Record.totalSpan rs := by
  induction rs with
  | nil => rfl
  | cons r rs ih =>
    rw [List.flatMap_cons, List.length_append, Nat.mul_add, r.four_mul_length_image, ih,
      Record.totalSpan_cons]

section Records

variable (hs : AgreeOn block.base block.stop
    (stamped m block g (rs.flatMap fun r => r.image m₀)) m')
  (hfit : block.first + Record.totalSpan rs ≤ block.stop)
include hs hfit

lemma spells_block_of_agreeOn_stamped :
    Spells m' block.base (magic :: g :: rs.flatMap fun r => r.image m₀) := by
  have hbase := block.first_eq
  have hlen := four_mul_length_images m₀ rs
  refine (spells_stamped m block g _).congr fun i h₁ h₂ => hs i h₁ ?_
  simp only [List.length_cons] at h₂
  omega

lemma spells_of_agreeOn_stamped : Spells m' block.first (rs.flatMap fun r => r.image m₀) := by
  have h : Spells m' block.base ([magic, g] ++ rs.flatMap fun r => r.image m₀) :=
    spells_block_of_agreeOn_stamped hs hfit
  exact h.right

lemma header_of_agreeOn_stamped : header m' block = some g := by
  have hbase := block.first_eq
  rw [← header_stamped m block g (rs.flatMap fun r => r.image m₀)]
  exact header_congr (hs _ (by omega) (by omega)) (hs _ (by omega) (by omega))

lemma linked_of_agreeOn_stamped (hr : ∀ r ∈ rs, r.WellFormed) :
    Linked m' block.stop block.first (relocated block.first rs)
      (block.first + Record.totalSpan rs) :=
  linked_relocated (spells_of_agreeOn_stamped hs hfit) hr hfit

lemma entries_of_agreeOn_stamped : entries m' (relocated block.first rs) = entries m₀ rs :=
  entries_relocated (spells_of_agreeOn_stamped hs hfit)

omit hfit in
lemma erased_of_agreeOn_stamped {i : Nat} (h : block.first + Record.totalSpan rs ≤ i)
    (hi : i < block.stop) : m' i = Word.erased := by
  have hbase := block.first_eq
  rw [hs i (by omega) hi, stamped_of_le _ _ _ (by rw [four_mul_length_images]; exact h) hi]

lemma recordsOf_of_agreeOn_stamped (hmod : block.first % 4 = 0) (hr : ∀ r ∈ rs, r.WellFormed) :
    recordsOf m' block = relocated block.first rs := by
  have hl := linked_of_agreeOn_stamped hs hfit hr
  rw [recordsOf, Chain.ofBlock, hl.scan_eq (recordAt_endAt (hl.end_mod hmod)
    fun i h₁ h₂ _ => erased_of_agreeOn_stamped hs h₁ h₂)]

end Records

/-- A store on a block that has just been stamped with distinct records is consistent. -/
lemma Consistent.of_stamped (hp : p.Regular) (hn : p.newest m' = some (side, g))
    (hs : AgreeOn (p.block side).base (p.block side).stop
      (stamped m (p.block side) g (rs.flatMap fun r => r.image m₀)) m')
    (hfit : (p.block side).first + Record.totalSpan rs ≤ (p.block side).stop)
    (hr : ∀ r ∈ rs, r.WellFormed) (hd : Distinct rs) (hl : ∀ r ∈ rs, r.isLive = true) :
    Consistent p m' side g ((p.block side).first + Record.totalSpan rs) ∧
      p.persisted m' = entries m₀ rs := by
  have hd' := distinct_relocated (a := (p.block side).first) hd hl
  obtain ⟨hc, hrec⟩ := Consistent.intro hp hn (linked_of_agreeOn_stamped hs hfit hr)
    (fun i h₁ h₂ _ => erased_of_agreeOn_stamped hs h₁ h₂) hd'
  refine ⟨hc, ?_⟩
  rw [hc.persisted_eq, hrec, survivors_relocated hd hl, entries_of_agreeOn_stamped hs hfit]

/-! ### Compactions -/

/-- The memory once the spare block of a compaction is complete. -/
def committed (p : Placement) (m : Memory) (side : Side) (g : Word) : Memory :=
  stamped m (p.block side.other) (g + 1)
    ((survivors (recordsOf m (p.block side))).flatMap fun r => r.image m)

/-- The memories a compaction goes through. -/
inductive Compacting (p : Placement) (m : Memory) (side : Side) (g : Word) : Memory → Prop
  /-- Until it is complete the spare block is as before or has no header. -/
  | filling {m' : Memory}
      (outside : AgreeOutside (p.block side.other).base (p.block side.other).stop m m')
      (header : m' = m ∨ header m' (p.block side.other) = none) : Compacting p m side g m'
  /-- Then the old block is wiped. -/
  | wiping {hi : Nat} (le : (p.block side).base ≤ hi) (le_stop : hi ≤ (p.block side).stop) :
      Compacting p m side g (wiped (committed p m side g) (p.block side).base hi)

section Compaction

variable (hp : p.Regular)
include hp

/-- The survivors of one block fit the other. -/
lemma survivors_fit (m : Memory) (side : Side) :
    (p.block side.other).first + Record.totalSpan (survivors (recordsOf m (p.block side))) ≤
      (p.block side.other).stop := by
  obtain ⟨z, hl, -⟩ := linked_recordsOf m (p.block side)
  have hz := hl.end_eq
  have hroom := hp.first_add_le side
  have hle := hl.end_le (by omega)
  have hspan := totalSpan_survivors_le (recordsOf m (p.block side))
  simp only [Block.first_eq, Block.stop_eq, Placement.size_block] at hz hle ⊢
  omega

lemma agreeOutside_committed (m : Memory) (side : Side) (g : Word) :
    AgreeOutside (p.block side.other).base (p.block side.other).stop m (committed p m side g) := by
  refine agreeOutside_stamped m _ ?_
  rw [four_mul_length_images]
  exact survivors_fit hp m side

omit hp in
lemma wellFormed_of_mem_survivors {r : Record}
    (hr : r ∈ survivors (recordsOf m block)) : r.WellFormed := by
  obtain ⟨z, hl, -⟩ := linked_recordsOf m block
  exact .of_recordAt (hl.of_mem ((survivors_sublist _).subset hr)).1

/-- The survivors do not reach into the spare block. -/
lemma survivors_apart (m : Memory) (side : Side) :
    ∀ r ∈ survivors (recordsOf m (p.block side)),
      r.stop ≤ (p.block side.other).base ∨ (p.block side.other).stop ≤ r.address := by
  intro r hr
  have hapart := hp.apart side
  have := address_of_mem_recordsOf ((survivors_sublist _).subset hr)
  omega

omit hp in
/-- The survivors are copied as they read in their block. -/
lemma images_survivors_congr (h : AgreeOn (p.block side).base (p.block side).stop m m') :
    ((survivors (recordsOf m (p.block side))).flatMap fun r => r.image m') =
      (survivors (recordsOf m (p.block side))).flatMap fun r => r.image m := by
  refine images_congr fun r hr => ?_
  have := address_of_mem_recordsOf ((survivors_sublist _).subset hr)
  have hpay := r.address_add_eight
  exact fun i h₁ h₂ => h i (by omega) (by omega)

/-- Once the spare block is in use, the store on it is consistent and holds what the old one did. -/
lemma consistent_of_committed (hn : p.newest m' = some (side.other, g + 1))
    (hs : AgreeOn (p.block side.other).base (p.block side.other).stop (committed p m side g) m') :
    Consistent p m' side.other (g + 1) ((p.block side.other).first +
        Record.totalSpan (survivors (recordsOf m (p.block side)))) ∧
      p.persisted m' = retained m (p.block side) :=
  Consistent.of_stamped hp hn hs (survivors_fit hp m side)
    (fun _ hr => wellFormed_of_mem_survivors hr) (distinct_survivors _)
    (fun _ hr => isLive_of_mem_survivors hr)

/-- A wipe of the old block leaves the complete spare block alone. -/
lemma agreeOn_wiping {hi : Nat} (h : hi ≤ (p.block side).stop) :
    AgreeOn (p.block side.other).base (p.block side.other).stop (committed p m side g)
      (wiped (committed p m side g) (p.block side).base hi) := by
  have hapart := hp.apart side
  exact (agreeOutside_wiped _ _ _).agreeOn (by omega)

/-- Until the spare block is complete the old one stays in use. -/
lemma newest_of_filling (hn : p.newest m = some (side, g))
    (hout : AgreeOutside (p.block side.other).base (p.block side.other).stop m m')
    (hheader : m' = m ∨ header m' (p.block side.other) = none) :
    p.newest m' = some (side, g) ∧ p.persisted m' = p.persisted m := by
  have hapart := hp.apart side
  have hroom := hp.first_add_le side
  have hbase := (p.block side).first_eq
  rcases hheader with rfl | hnone
  · exact ⟨hn, rfl⟩
  · have hold : AgreeOn (p.block side).base (p.block side).stop m m' := hout.agreeOn (by omega)
    have hside : header m' (p.block side) = some g := by
      rw [← Placement.header_of_newest hn]
      exact header_congr (hold _ (by omega) (by omega)) (hold _ (by omega) (by omega))
    have hn' := Placement.newest_of_header hside hnone
    refine ⟨hn', ?_⟩
    rw [Placement.persisted_of_newest hn', Placement.persisted_of_newest hn]
    exact retained_congr hold

/-- Once the old block has lost its header, the complete one is in use. -/
lemma newest_of_wiped {hi : Nat} (hlt : (p.block side).base < hi) (hstop : hi ≤ (p.block side).stop)
    (hm' : m' = wiped (committed p m side g) (p.block side).base hi) :
    p.newest m' = some (side.other, g + 1) := by
  have hother : header m' (p.block side.other) = some (g + 1) := by
    rw [hm']
    exact header_of_agreeOn_stamped (agreeOn_wiping hp hstop) (survivors_fit hp m side)
  refine Placement.newest_of_header hother ?_
  rw [Side.other_other]
  refine header_eq_none ?_
  rw [hm', wiped_of_mem _ (by omega)]

/-- While the old block is wiped, the complete one is in use, or the old one untouched. -/
lemma newest_of_wiping (hn : p.newest m = some (side, g)) {hi : Nat}
    (hle : (p.block side).base ≤ hi) (hstop : hi ≤ (p.block side).stop)
    (hm' : m' = wiped (committed p m side g) (p.block side).base hi) :
    p.newest m' = some (side.other, g + 1) ∨
      p.newest m' = some (side, g) ∧ AgreeOn (p.block side).base (p.block side).stop m m' := by
  have hapart := hp.apart side
  have hroom := hp.first_add_le side
  have hbase := (p.block side).first_eq
  rcases Nat.eq_or_lt_of_le hle with rfl | hlt
  · have hother : header m' (p.block side.other) = some (g + 1) := by
      rw [hm']
      exact header_of_agreeOn_stamped (agreeOn_wiping hp hstop) (survivors_fit hp m side)
    rw [wiped_self] at hm'
    have hold : AgreeOn (p.block side).base (p.block side).stop m m' :=
      hm' ▸ (agreeOutside_committed hp m side g).agreeOn (by omega)
    have hside : header m' (p.block side) = some g := by
      rw [← Placement.header_of_newest hn]
      exact header_congr (hold _ (by omega) (by omega)) (hold _ (by omega) (by omega))
    rcases Placement.newest_of_headers hside hother with hn' | hn'
    · exact Or.inr ⟨hn', hold⟩
    · exact Or.inl hn'
  · exact Or.inl (newest_of_wiped hp hlt hstop hm')

/-- Wherever a compaction is cut, the contents stay, and one of the two blocks is in use. -/
theorem persisted_of_compacting (hn : p.newest m = some (side, g))
    (h : Compacting p m side g m') :
    p.persisted m' = p.persisted m ∧
      (p.newest m' = some (side, g) ∨ p.newest m' = some (side.other, g + 1)) := by
  cases h with
  | filling hout hheader =>
    obtain ⟨hn', hpers⟩ := newest_of_filling hp hn hout hheader
    exact ⟨hpers, Or.inl hn'⟩
  | @wiping hi hle hstop =>
    rcases newest_of_wiping hp hn hle hstop rfl with hn' | ⟨hn', hold⟩
    · refine ⟨?_, Or.inr hn'⟩
      rw [(consistent_of_committed hp hn' (agreeOn_wiping hp hstop)).2,
        Placement.persisted_of_newest hn]
    · refine ⟨?_, Or.inl hn'⟩
      rw [Placement.persisted_of_newest hn', Placement.persisted_of_newest hn]
      exact retained_congr hold

/-- A finished compaction leaves a consistent store on the other block. -/
theorem consistent_of_compacted (hn : p.newest m = some (side, g))
    (hm' : m' = wiped (committed p m side g) (p.block side).base (p.block side).stop) :
    Consistent p m' side.other (g + 1) ((p.block side.other).first +
        Record.totalSpan (survivors (recordsOf m (p.block side)))) ∧
      p.persisted m' = p.persisted m := by
  have hroom := hp.first_add_le side
  have hbase := (p.block side).first_eq
  have hn' := newest_of_wiped hp (by omega) (Nat.le_refl _) hm'
  obtain ⟨hc, hpers⟩ := consistent_of_committed hp hn' (hm' ▸ agreeOn_wiping hp (Nat.le_refl _))
  exact ⟨hc, hpers.trans (Placement.persisted_of_newest hn).symm⟩

end Compaction

end FlashStore
