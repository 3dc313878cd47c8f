import FlashStore.Proofs.Simulation

/-!
# Interrupted removals

What a restart finds when power is cut within an erase or a format. An erase clears the value
before its record, so a cut in between leaves the value in place with its first bytes zeroed. A
format wipes the first block before the second, so a cut in between brings up what the second
block still carries, which is not the contents there were if an interrupted compaction has left an
older header there.
-/

namespace FlashStore

open LawfulFlash Store

variable {size page n : Nat} {id : Word} {data : List UInt8} {c : Contents} {p : Placement}

/-- Power that is to last for some programs and erases has lasted for those done. -/
lemma NorFlash.SpentBy.eq_add {k : Nat} {d d' : NorFlash size page} (h : SpentBy k d d')
    (hd : d.budget = some n) : ∃ n', d'.budget = some n' ∧ n = n' + k := by
  rcases h with ⟨h, -⟩ | ⟨n', h, h'⟩
  · cases hd.symm.trans h
  · exact ⟨n', h', Option.some.inj (hd.symm.trans h)⟩

variable [NorFlash.WordPages page] {s : Store (NorFlash size page)}
  {x : Session (NorFlash size page)}

/-! ### Commands under a cut -/

/-- Power that is cut within an operation has lasted for what was done, and it is cut if the
device fails. -/
lemma answer_of_cut {α : Type} {x : StoreM (NorFlash size page) α} {Q : α → Nat → View → Prop}
    {E : StoreError → Nat → View → Prop} (h : Acts x s Q E)
    (hE : ∀ e k v, E e k v → e.FromDevice) (hb : s.device.budget = some n) (f : α → Answer) :
    (∃ a k, k ≤ n ∧ Q a k (x.answer f s).2.view) ∨ ∃ e, E e n (x.answer f s).2.view := by
  rcases answer_of_ensures h f with
    ⟨a, s', ha, -, k, hk, hq⟩ | ⟨e, s', ha, -, k, hk, hblame, he⟩
  · obtain ⟨n', -, rfl⟩ := NorFlash.SpentBy.eq_add hk.reaches hb
    rw [ha]
    exact Or.inl ⟨a, k, Nat.le_add_left k n', hq⟩
  · obtain ⟨n', hn', rfl⟩ := NorFlash.SpentBy.eq_add hk.reaches hb
    obtain ⟨e', rfl⟩ := hE e k _ he
    obtain ⟨rfl, hzero⟩ := hblame e' rfl
    obtain rfl := Option.some.inj (hn'.symm.trans hzero)
    rw [ha, Nat.zero_add]
    exact Or.inr ⟨_, he⟩

/-- What is on flash after an erase under a cut. -/
lemma persisted_of_cut_erase (hs : s.Operable) (h : s.view.Serves s.placement c)
    (hl : c.lookup id = .ok data) (hb : s.device.budget = some n) :
    s.placement.persisted ((StoreCommand.erase id).run s).2.word =
      if n ≤ (data.length + 3) / 4 then c.blank id (4 * n) else c.remove id := by
  rcases answer_of_cut (acts_erase hs h hl) (fun _ _ _ he => he.1) hb fun _ => .done with
    ⟨_, k, hle, rfl, hv⟩ | ⟨e, -, hle, hv⟩
  · rw [if_neg (by omega)]
    exact hv.persisted
  · rw [if_pos hle]
    exact hv.persisted

/-- What is on flash after a format under a cut. -/
lemma persisted_of_cut_format (hs : s.Operable) (hb : s.device.budget = some n) :
    s.placement.persisted (StoreCommand.format.run s).2.word =
      if n = 0 then s.placement.persisted s.word
      else if n ≤ s.placement.blockSize.toNat / page then s.placement.leftover s.word
      else [] := by
  have hpage : (FlashDevice.pageSize (NorFlash size page)).toNat = page :=
    NorFlash.toNat_pageSize NorFlash.WordPages.lt
  have hf := hs.fits
  have h := acts_format hs
  rw [hpage] at hf h
  rcases answer_of_cut h (fun _ _ _ he => he.1) hb fun _ => .done with
    ⟨_, k, hle, rfl, hv⟩ | ⟨e, -, -, -, hcut⟩
  · simp only [formatCost] at hle
    have hword : (StoreCommand.format.run s).2.word = formatted s.placement s.word :=
      congrArg View.word hv
    rw [if_neg (by omega), if_neg (by omega), hword]
    exact (consistent_formatted hs.regular s.word).2
  · exact persisted_of_formatting hs.regular hf.pageSize_pos hf.pageSize_dvd hcut

/-! ### Restarts after a cut -/

namespace Session

/-- A restart of a store succeeds and holds what is on flash. -/
lemma Sound.holds_after_reboot (hx : x.Sound) (h : x.store? = some s) :
    (x.step (.opening .reboot none)).1 = .done ∧
      (x.step (.opening .reboot none)).2.Holds x.persisted := by
  have hhow : Opening.reboot ≠ .attach := nofun
  obtain ⟨hdone, hsimulated⟩ := simulated_opening hhow rfl (hx s h).accepts
  exact ⟨hdone, hsimulated.holds⟩

/-- A restart after a command under a cut holds what the command has left on flash. -/
lemma Sound.holds_after_cut (hx : x.Sound) (hc : x.Holds c) (n : Nat) (command : StoreCommand) :
    let r := (x.play [.cutPowerAfter n, .call command]).step (.opening .reboot none)
    ∃ s : Store (NorFlash size page), s.Operable ∧ s.view.Serves s.placement c ∧
      s.device.budget = some n ∧ s.placement = x.placement ∧ s.word = x.device.readWord ∧
      r.1 = .done ∧ r.2.Holds (x.placement.persisted (command.run s).2.word) := by
  intro r
  obtain ⟨hx', hpers⟩ := hx.cutPowerAfter n
  rw [hx.persisted_of_holds hc] at hpers
  obtain ⟨s, h, hin, -⟩ := hc
  have hcut : (x.step (.cutPowerAfter n)).2 =
      ⟨x.placement, .store { s with device := s.device.cutPowerAfter n }⟩ := by
    rw [eq_of_store? h]
    rfl
  have hr : r = ((x.step (.cutPowerAfter n)).2.step (.store command)).2.step
    (.opening .reboot none) := rfl
  rw [hcut] at hx' hpers hr
  have hserves := hx'.serves rfl hin
  obtain ⟨hp, -, hs, -⟩ := hx' _ rfl
  have hcall := (hx'.call rfl command).1
  rw [step_call rfl] at hcall hr
  obtain ⟨hdone, hholds⟩ := hcall.holds_after_reboot rfl
  refine ⟨_, hs, hpers ▸ hserves, rfl, hp, ?_, hr ▸ hdone, ?_⟩
  · rw [eq_of_store? h]
    rfl
  · rw [hr]
    exact hholds

end Session

/-! ### Erases -/

/-- The value of an id is kept or gone, and no other one is touched. -/
def Contents.KeptOrRemoved (id : Word) (c c' : Contents) : Prop :=
  (c'.get? id = none ∨ c'.get? id = c.get? id) ∧ ∀ id' ≠ id, c'.get? id' = c.get? id'

lemma Contents.keptOrRemoved_remove (id : Word) (c : Contents) :
    KeptOrRemoved id c (c.remove id) :=
  ⟨Or.inl (get?_remove_self id c), fun _ h => get?_remove_of_ne h c⟩

/-- Zeroing the first bytes of a value keeps it only if they are zero already. -/
lemma Contents.keptOrRemoved_blank_iff (h : c.get? id = some data) (m : Nat) :
    KeptOrRemoved id c (c.blank id m) ↔ ∀ b ∈ data.take m, b = 0 := by
  rw [← zeroed_eq_iff, KeptOrRemoved, get?_blank_self h, h]
  constructor
  · rintro ⟨hsame | hsame, -⟩
    · cases hsame
    · exact Option.some.inj hsame
  · intro hzero
    exact ⟨Or.inr (congrArg some hzero), fun _ hne => get?_blank_of_ne hne m c⟩

namespace Session

/-- On flash whose pages hold whole words, a restart succeeds when power is cut after some programs
of an erase. Unless the erase was done by then it finds the value with as many words zeroed, so it
is kept or removed exactly if the erase was done or the bytes zeroed were zero before. -/
theorem kept_or_removed_iff (d : NorFlash size page) (p : Placement) (events : List Event)
    (hc : ((start d p).play events).Holds c) (hget : c.get? id = some data) (n : Nat) :
    let r := (((start d p).play events).play [.cutPowerAfter n, .call (.erase id)]).step
      (.opening .reboot none)
    r.1 = .done ∧ ∃ c', r.2.Holds c' ∧
      c' = (if n ≤ (data.length + 3) / 4 then c.blank id (4 * n) else c.remove id) ∧
      (Contents.KeptOrRemoved id c c' ↔
        (data.length + 3) / 4 < n ∨ ∀ b ∈ data.take (4 * n), b = 0) := by
  intro r
  have hx := ((sound_start d p).play events).1
  obtain ⟨s, hs, hserves, hb, hp, -, hdone, hholds⟩ := hx.holds_after_cut hc n (.erase id)
  have hid : isUsableId id = true :=
    hserves.consistent.isUsableId_of_get? (hserves.persisted.symm ▸ hget)
  have hl : c.lookup id = .ok data := Contents.lookup_eq_ok_iff.2 ⟨hid, hget⟩
  rw [← hp, persisted_of_cut_erase hs hserves hl hb] at hholds
  refine ⟨hdone, _, hholds, rfl, ?_⟩
  split
  · rename_i hle
    rw [Contents.keptOrRemoved_blank_iff hget]
    constructor
    · intro hzero
      exact Or.inr hzero
    · intro h
      exact h.resolve_left (by omega)
  · rename_i hlt
    constructor
    · intro _
      exact Or.inl (by omega)
    · intro _
      exact Contents.keptOrRemoved_remove id c

/-- A value of one word is removed by two programs. -/
theorem kept_or_removed_iff_of_one_word :
    let x := (start NorFlash.blank ⟨0, 20, 20, 0⟩ : Session (NorFlash 40 20)).play
      [.opening .mount, .call (.write 1 [1, 2, 3, 4])]
    x.Holds [⟨1, [1, 2, 3, 4]⟩] ∧
      ((x.play [.cutPowerAfter 2, .call (.erase 1)]).step (.opening .reboot none)).2.Holds [] := by
  intro x
  have hx : x.Holds [⟨1, [1, 2, 3, 4]⟩] := (@simulated_from_blank 40 20 ⟨0, 20, 20, 0⟩ _
    (by decide) [.call (.write 1 [1, 2, 3, 4])] (by simp [Event.isUncut])).2.2.holds
  have hget : Contents.get? [⟨1, [1, 2, 3, 4]⟩] 1 = some [1, 2, 3, 4] := rfl
  obtain ⟨-, c', hholds, rfl, -⟩ := kept_or_removed_iff NorFlash.blank ⟨0, 20, 20, 0⟩
    [.opening .mount, .call (.write 1 [1, 2, 3, 4])] hx hget 2
  exact ⟨hx, hholds⟩

/-- After one program the value is neither kept nor removed. -/
theorem zeroed_by_cut_erase :
    let x := (start NorFlash.blank ⟨0, 20, 20, 0⟩ : Session (NorFlash 40 20)).play
      [.opening .mount, .call (.write 1 [1, 2, 3, 4])]
    x.Holds [⟨1, [1, 2, 3, 4]⟩] ∧
      (x.play [.cutPowerAfter 1, .call (.erase 1), .opening .reboot]).Holds [⟨1, [0, 0, 0, 0]⟩] ∧
      ¬ Contents.KeptOrRemoved 1 [⟨1, [1, 2, 3, 4]⟩] [⟨1, [0, 0, 0, 0]⟩] := by
  refine ⟨by decide +kernel, by decide +kernel, ?_⟩
  rintro ⟨h | h, -⟩
  · exact absurd h (by decide)
  · exact absurd h (by decide)

/-! ### Formats -/

/-- The second block carries the contents while it is the current one. -/
lemma Sound.leftover_eq (hx : x.Sound) (hc : x.Holds c)
    (hb : x.store?.map Store.current = some .b) :
    x.placement.leftover x.device.readWord = c := by
  have hpers := hx.persisted_of_holds hc
  obtain ⟨s, h, hin, -⟩ := hc
  rw [h] at hb
  obtain hcurrent : s.current = .b := Option.some.inj hb
  have hn := ((hx s h).valid hin).newest
  change x.placement.newest s.word = some (s.current, s.generation) at hn
  have hword : x.device.readWord = s.word := by
    rw [device_of_store? h]
    rfl
  rw [hcurrent] at hn
  rw [hword, Placement.leftover_of_newest hn, ← persisted_of_store? h, hpers]

/-- On flash whose pages hold whole words, a restart succeeds when power is cut after some programs
and erases of a format. Before the first it finds the contents there were, within the first block
what the second one carries, and from then on nothing. So the contents are kept or emptied exactly
if what the second block carries is no different, as it is not while the second block is the current
one. -/
theorem kept_or_emptied_iff (d : NorFlash size page) (p : Placement) (events : List Event)
    (hc : ((start d p).play events).Holds c) (n : Nat) :
    let x := (start d p).play events
    let r := (x.play [.cutPowerAfter n, .call .format]).step (.opening .reboot none)
    let pages := p.blockSize.toNat / page
    let leftover := p.leftover x.device.readWord
    r.1 = .done ∧ (x.store?.map Store.current = some .b → leftover = c) ∧ ∃ c', r.2.Holds c' ∧
      c' = (if n = 0 then c else if n ≤ pages then leftover else []) ∧
      (c' = c ∨ c' = [] ↔ n = 0 ∨ pages < n ∨ leftover = c ∨ leftover = []) := by
  intro x r pages leftover
  obtain ⟨hx, hp'⟩ : x.Sound ∧ x.placement = p := (sound_start d p).play events
  obtain ⟨s, hs, hserves, hb, hp, hword, hdone, hholds⟩ := hx.holds_after_cut hc n .format
  have hpers : s.placement.persisted s.word = c := hserves.persisted
  rw [← hp, persisted_of_cut_format hs hb, hpers, hp, hp', hword] at hholds
  refine ⟨hdone, ?_, _, hholds, rfl, ?_⟩
  · intro hcurrent
    have hleftover := hx.leftover_eq hc hcurrent
    rwa [hp'] at hleftover
  -- Before the first erase, within the first block, and from then on.
  split
  · rename_i hn
    constructor
    · intro _
      exact Or.inl hn
    · intro _
      exact Or.inl rfl
  · rename_i hn
    split
    · rename_i hle
      constructor
      · intro h
        exact Or.inr (Or.inr h)
      · intro h
        exact (h.resolve_left hn).resolve_left (by omega)
    · rename_i hlt
      constructor
      · intro _
        exact Or.inr (Or.inl (by omega))
      · intro _
        exact Or.inr rfl

/-- A format that loses power after two page erases and a program has emptied the store. -/
theorem kept_or_emptied_iff_of_two_pages :
    let x := (start NorFlash.blank ⟨0, 20, 20, 0⟩ : Session (NorFlash 40 20)).play
      [.opening .mount, .call (.write 1 [1, 2, 3, 4])]
    x.Holds [⟨1, [1, 2, 3, 4]⟩] ∧
      ((x.play [.cutPowerAfter 3, .call .format]).step (.opening .reboot none)).2.Holds [] := by
  intro x
  have hx : x.Holds [⟨1, [1, 2, 3, 4]⟩] := (@simulated_from_blank 40 20 ⟨0, 20, 20, 0⟩ _
    (by decide) [.call (.write 1 [1, 2, 3, 4])] (by simp [Event.isUncut])).2.2.holds
  obtain ⟨-, -, c', hholds, rfl, -⟩ := kept_or_emptied_iff NorFlash.blank ⟨0, 20, 20, 0⟩
    [.opening .mount, .call (.write 1 [1, 2, 3, 4])] hx 3
  exact ⟨hx, hholds⟩

/-- A compaction cut before it wipes the old block leaves its header there, and a format cut
within the first block brings the old value back. -/
theorem revived_by_cut_format :
    let x := (start NorFlash.blank ⟨0, 48, 48, 0⟩ : Session (NorFlash 96 24)).play
      [.opening .mount, .call .compact, .call (.write 1 [1, 1, 1, 1]), .cutPowerAfter 7,
        .call .compact, .opening .reboot, .call (.write 1 [2, 2, 2, 2])]
    x.Holds [⟨1, [2, 2, 2, 2]⟩] ∧
      (x.play [.cutPowerAfter 1, .call .format, .opening .reboot]).Holds [⟨1, [1, 1, 1, 1]⟩] := by
  decide +kernel

end Session

end FlashStore
