import FlashStore.Proofs.Formatting

/-!
# Recovery

On any flash a recovery brings up the persisted contents, and one that is cut leaves them for the
next. Repairs are compactions; what is left are values stored twice, whose older records are removed
one after another, each removal keeping the survivors and their entries.
-/

namespace FlashStore

open LawfulFlash Store

variable {δ : Type} [FlashDevice δ] [LawfulFlash δ] {s : Store δ} {m m' : Memory} {p : Placement}
  {pre rs : List Record} {stop a z : Nat}

/-! ### Removing superseded records -/

/-- Removing the superseded records one after another settles them. Cut anywhere, the records are
still linked, and the entries of the survivors are the same. -/
lemma acts_removeSuperseded_forM (pre rs : List Record) (hs : s.Operable) (ha : a % 4 = 0)
    (hz : z ≤ (FlashDevice.capacity s.device).toNat)
    (hl : Linked s.word stop a (pre ++ rs) z) :
    Acts ((superseded rs).forM fun r => withUnlocked (onDevice (removeRecord r))) s
      (fun _ _ v => v = s.view.reading v.word ∧ AgreeOutside a z s.word v.word ∧
        Linked v.word stop a (pre ++ settled rs) z ∧
        entries v.word (survivors (pre ++ settled rs)) = entries s.word (survivors (pre ++ rs)))
      (fun e _ v => e.FromDevice ∧ v = s.view.reading v.word ∧ AgreeOutside a z s.word v.word ∧
        ∃ rs', Linked v.word stop a rs' z ∧
          entries v.word (survivors rs') = entries s.word (survivors (pre ++ rs))) := by
  -- The induction is on the records still to be looked at; those before them are settled.
  induction rs generalizing s pre with
  | nil => exact Acts.pure hs ⟨rfl, .refl _ _ _, hl, rfl⟩
  | cons r rs ih =>
    rw [superseded, settled]
    split
    · rename_i hr
      obtain ⟨hlive, hsup⟩ := Bool.and_eq_true_iff.1 hr
      obtain ⟨hat, hge, hle⟩ := hl.of_mem (List.mem_append_right pre List.mem_cons_self)
      have hwf := Record.WellFormed.of_recordAt hat
      have hpay := r.address_add_eight
      have hend := r.payload_stop
      have hremove := runs_removeRecord hs.unlocked_beginUnlocked
        (hl.address_mod ha (List.mem_append_right pre List.mem_cons_self))
        (by rw [capacity_beginUnlocked]; omega)
      rw [readWord_beginUnlocked] at hremove
      refine Acts.bind ((Acts.withUnlocked_onDevice hs hremove).mono (fun _ _ _ h => h) ?_) ?_
      -- Cut within this removal: the payload is cleared in part, which a superseded record may be.
      · rintro e k v ⟨he, hv, hk, hm⟩
        have hout : AgreeOutside r.payloadAddress r.stop s.word v.word :=
          hm ▸ agreeOutside_clearing s.word hk
        refine ⟨he, hv, hout.mono (by omega) (by omega), pre ++ r :: rs, hl.congr_payload hout, ?_⟩
        exact hl.entries_superseded_congr hsup hout
      · rintro _ s₁ k hs₁ hk ⟨hv₁, -, hm₁⟩
        have hword₁ : s₁.word = cleared s.word r := hm₁
        have hcap₁ := capacity_of_reaches hk.reaches
        have hout₁ : AgreeOutside a z s.word s₁.word :=
          hword₁ ▸ (agreeOutside_cleared s.word r).mono hge hle
        have hl₁ : Linked s₁.word stop a (pre ++ r.removed :: rs) z := hword₁ ▸ hl.cleared hwf
        have hentries₁ := hl.entries_cleared_superseded hsup
        rw [← hword₁] at hentries₁
        -- The removed record joins the settled ones.
        have hassoc : ∀ l, pre ++ r.removed :: l = (pre ++ [r.removed]) ++ l := fun l => by simp
        rw [hassoc] at hl₁ hentries₁
        refine (ih _ hs₁ (by rw [hcap₁]; exact hz) hl₁).mono ?_ ?_
        · rintro _ j v ⟨hv, hout, hlinked, hentries⟩
          refine ⟨?_, hout₁.trans hout, ?_, ?_⟩
          · rw [hv, hv₁]
            rfl
          · rwa [hassoc]
          · rw [hassoc, hentries, hentries₁]
        · rintro e j v ⟨he, hv, hout, rs', hlinked, hentries⟩
          refine ⟨he, ?_, hout₁.trans hout, rs', hlinked, hentries.trans hentries₁⟩
          rw [hv, hv₁]
          rfl
    · have hassoc : ∀ l, pre ++ r :: l = (pre ++ [r]) ++ l := fun l => by simp
      rw [hassoc rs] at hl ⊢
      rw [hassoc (settled rs)]
      exact ih _ hs hz hl

lemma acts_removeSuperseded (hs : s.Operable)
    (ht : Tracked s.placement s.word s.current s.generation s.cursor) :
    Acts removeSuperseded s
      (fun _ _ v => v = s.view.reading v.word ∧
        Consistent s.placement v.word s.current s.generation s.cursor ∧
        s.placement.persisted v.word = s.placement.persisted s.word)
      (fun e _ v => e.FromDevice ∧ v = s.view.reading v.word ∧
        s.placement.persisted v.word = s.placement.persisted s.word) := by
  have hp := hs.regular
  have hchain : s.chain = ⟨recordsOf s.word s.block, endAt s.block.stop s.cursor⟩ :=
    ht.chain_eq hp
  have hz : s.cursor ≤ (FlashDevice.capacity s.device).toNat :=
    Nat.le_trans (ht.cursor_le hp) (hs.fits.stop_le s.current)
  unfold removeSuperseded
  refine Acts.get_bind (Acts.query_bind (a := ()) ?_ ?_)
  · rw [hchain, requireIntact_endAt]
  · rw [hchain]
    refine (acts_removeSuperseded_forM [] _ hs (hp.first_mod _) hz ht.linked).mono ?_ ?_
    · rintro _ k v ⟨hv, hout, hl, hentries⟩
      obtain ⟨ht', hrec⟩ := ht.of_agreeOutside hp hout hl
      refine ⟨hv, ⟨ht', ?_⟩, ?_⟩
      · rw [hrec]
        exact distinct_settled _
      · rw [ht'.persisted_eq, hrec, ht.persisted_eq]
        exact hentries
    · rintro e k v ⟨he, hv, hout, rs', hl, hentries⟩
      obtain ⟨ht', hrec⟩ := ht.of_agreeOutside hp hout hl
      refine ⟨he, hv, ?_⟩
      rw [ht'.persisted_eq, hrec, ht.persisted_eq]
      exact hentries

/-! ### Recovery -/

lemma first_le_freeAddress (m : Memory) {block : Block} (h : block.first ≤ block.stop) :
    block.first ≤ (Chain.ofBlock m block).freeAddress block ∧
      (Chain.ofBlock m block).freeAddress block ≤ block.stop := by
  obtain ⟨z, hl, he⟩ := linked_recordsOf m block
  have hle := hl.le
  have hend := hl.end_le h
  cases hstop : (Chain.ofBlock m block).stop with
  | vacant a =>
    obtain ⟨rfl, -⟩ := eq_of_recordAt_vacant (hstop ▸ he)
    simp only [Chain.freeAddress, hstop]
    exact ⟨hle, hend⟩
  | full =>
    simp only [Chain.freeAddress, hstop]
    exact ⟨h, Nat.le_refl _⟩
  | broken a =>
    simp only [Chain.freeAddress, hstop]
    exact ⟨h, Nat.le_refl _⟩

omit [LawfulFlash δ] in
/-- A chain that ends at a vacant place with nothing behind it needs no repair, and the place is
where the next record goes. -/
lemma tracked_of_needsRepair (hp : s.placement.Regular)
    (hn : s.placement.newest s.word = some (s.current, s.generation))
    (hcursor : s.cursor = s.chain.freeAddress s.block) (h : s.needsRepair = false) :
    Tracked s.placement s.word s.current s.generation s.cursor := by
  obtain ⟨z, hl, he⟩ := linked_recordsOf s.word s.block
  unfold needsRepair at h
  cases hstop : s.chain.stop with
  | vacant a =>
    rw [hstop] at h
    obtain ⟨rfl, -⟩ := eq_of_recordAt_vacant (hstop ▸ he : recordAt _ _ _ = .error (.vacant a))
    have hz : s.cursor = z := by rw [hcursor, Chain.freeAddress, hstop]
    rw [hz]
    refine ⟨hn, hl, fun i h₁ h₂ h₃ => ?_⟩
    have hmod := hl.end_mod (hp.first_mod _)
    have hclean := List.any_eq_false.1 h i (Block.mem_wordsFrom.2 ⟨h₁, h₂, by omega⟩)
    simpa using hclean
  | full =>
    rw [hstop] at h
    simp at h
  | broken a =>
    rw [hstop] at h
    simp at h

lemma Store.Operable.resume (hs : s.Operable) (side : Side) (g : Word) :
    (resume side g s).Operable := by
  have hroom := hs.regular.first_add_le side
  have hfree : _ ∧ _ ≤ (s.placement.block side).stop := first_le_freeAddress s.word (by omega)
  exact ⟨hs.fits, hs.unlocked, hfree.1, hfree.2⟩

/-- The end of a recovery, once the chain needs no repair. -/
def Store.settle : StoreM δ Unit := do
  removeSuperseded
  modify fun s => { s with inService := true }

/-- The rest of a recovery, once the block in use is found. -/
def Store.repair : StoreM δ Unit := do
  if (← get).needsRepair then compactNow
  settle

/-- Once the chain needs no repair, it is settled and the store put in service. -/
lemma acts_settle (hs : s.Operable)
    (ht : Tracked s.placement s.word s.current s.generation s.cursor) :
    Acts settle s
      (fun _ _ v => v.Serves s.placement (s.placement.persisted s.word))
      (fun e _ v => e.FromDevice ∧ v.inService = s.inService ∧
        s.placement.persisted v.word = s.placement.persisted s.word) := by
  refine Acts.bind ((acts_removeSuperseded hs ht).mono (fun _ _ _ h => h) ?_) ?_
  · rintro e k v ⟨he, hv, hpers⟩
    exact ⟨he, by rw [hv]; rfl, hpers⟩
  · rintro _ s₁ k hs₁ hk ⟨hv, hc, hpers⟩
    refine Acts.modify ⟨hs₁.fits, hs₁.unlocked, hs₁.first_le, hs₁.le_stop⟩
      ⟨rfl, rfl, reaches_refl _⟩ ⟨rfl, ?_, hpers⟩
    have hview : s₁.view = s.view.reading s₁.word := hv
    show Consistent s.placement s₁.view.word s₁.view.current s₁.view.generation s₁.view.cursor
    rw [hview]
    exact hc

/-- From the block in use the chain is repaired if it needs to be, and settled. -/
lemma acts_repair (hs : s.Operable) (hin : s.inService = false)
    (hn : s.placement.newest s.word = some (s.current, s.generation))
    (hcursor : s.cursor = s.chain.freeAddress s.block) :
    Acts repair s
      (fun _ _ v => v.Serves s.placement (s.placement.persisted s.word))
      (fun e _ v => e.FromDevice ∧ v.Suspended s.placement (s.placement.persisted s.word)) := by
  refine Acts.get_bind ?_
  by_cases hrep : s.needsRepair = true
  · rw [if_pos hrep]
    refine Acts.bind ((acts_compactNow hs hn).mono (fun _ _ _ h => h) ?_) ?_
    · rintro e k v ⟨he, hin', hpers⟩
      exact ⟨he, hin'.trans hin, hpers⟩
    · rintro _ s₁ k hs₁ hk ⟨hin₁, hc, hpers, -⟩
      rw [← hk.placement_eq] at hc hpers ⊢
      have hpers₁ : s₁.placement.persisted s₁.word = s₁.placement.persisted s.word := hpers
      rw [← hpers₁]
      refine (acts_settle hs₁ hc.toTracked).mono (fun _ _ _ h => h) ?_
      rintro e j v ⟨he, hin', hpers'⟩
      exact ⟨he, (hin'.trans hin₁).trans hin, hpers'⟩
  · rw [if_neg hrep]
    have ht := tracked_of_needsRepair hs.regular hn hcursor (Bool.not_eq_true _ ▸ hrep)
    refine (acts_settle hs ht).mono (fun _ _ _ h => h) ?_
    rintro e j v ⟨he, hin', hpers⟩
    exact ⟨he, hin'.trans hin, hpers⟩

/-- A recovery takes the store out of service and starts from the block in use. -/
lemma acts_recover_of_newest {Q : Unit → Nat → View → Prop} {E : StoreError → Nat → View → Prop}
    (h : Acts (match s.placement.newest s.word with
      | none => format
      | some (side, generation) => do
        modify (resume side generation)
        repair) { s with inService := false } Q E) :
    Acts recover s Q E :=
  Acts.modify_bind ⟨rfl, rfl, reaches_refl _⟩ (Acts.get_bind h)

lemma Store.Operable.suspended (hs : s.Operable) : Operable { s with inService := false } :=
  ⟨hs.fits, hs.unlocked, hs.first_le, hs.le_stop⟩

/-- Where no block is in use a recovery starts over. -/
lemma acts_recover_of_none (hs : s.Operable) (hn : s.placement.newest s.word = none) :
    Acts recover s
      (fun _ _ v => v.Serves s.placement [] ∧ v.current = .a ∧ v.generation = 0)
      (fun e _ v => e.FromDevice ∧ v.Suspended s.placement []) := by
  have hp := hs.regular
  refine acts_recover_of_newest ?_
  rw [hn]
  refine (acts_format hs.suspended).mono ?_ ?_
  · rintro _ k v ⟨-, rfl⟩
    obtain ⟨hc, hpers⟩ := consistent_formatted hp s.word
    exact ⟨⟨rfl, hc, hpers⟩, rfl, rfl⟩
  · rintro e k v ⟨he, hin, -, hcut⟩
    refine ⟨he, hin, (persisted_of_formatting hp hs.fits.pageSize_pos hs.fits.pageSize_dvd
      hcut).trans ?_⟩
    have hleft : s.placement.leftover s.word = [] := by
      rw [Placement.leftover, Placement.newest_eq_none_iff.1 hn .b]
    show (if k = 0 then s.placement.persisted s.word
      else if _ then s.placement.leftover s.word else []) = []
    rw [hleft, Placement.persisted_of_none hn]
    simp

/-- A recovery brings up the persisted contents, and keeps them if it is cut. -/
theorem acts_recover (hs : s.Operable) :
    Acts recover s (fun _ _ v => v.Serves s.placement (s.placement.persisted s.word))
      (fun e _ v => e.FromDevice ∧ v.Suspended s.placement (s.placement.persisted s.word)) := by
  cases hn : s.placement.newest s.word with
  | none =>
    rw [Placement.persisted_of_none hn]
    exact (acts_recover_of_none hs hn).mono (fun _ _ _ h => h.1) fun _ _ _ h => h
  | some found =>
    obtain ⟨side, g⟩ := found
    refine acts_recover_of_newest ?_
    rw [hn]
    exact Acts.modify_bind ⟨rfl, rfl, reaches_refl _⟩
      (acts_repair (hs.suspended.resume side g) rfl hn rfl)

end FlashStore
