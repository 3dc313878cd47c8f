import FlashStore.Proofs.Simulation
import FlashStore.Proofs.Space

/-!
# Low space

A store is compacted before it runs full: once free space falls below the reserve, and only if
something can be reclaimed. On a healthy device a check for low space leaves none, and so does every
write, whichever compactions it takes itself; a check that is repeated has nothing to do.
-/

namespace FlashStore

open LawfulFlash Store

variable {δ : Type} [FlashDevice δ] [LawfulFlash δ] {s s' : Store δ} {c : Contents} {id : Word}
  {data : List UInt8}

namespace Store

omit [LawfulFlash δ] in
lemma isLow_iff {n : Nat} (hin : s.inService = true) (hn : s.reclaimable = .ok n) :
    s.isLow = true ↔ s.free < s.placement.reserve.toNat ∧ 0 < n := by
  simp only [isLow, hin, hn, Bool.true_and, Bool.and_eq_true, decide_eq_true_eq, bne_iff_ne,
    Nat.pos_iff_ne_zero]

omit [LawfulFlash δ] in
/-- Nothing to reclaim is never too little space. -/
lemma isLow_of_reclaimable_zero (h : s.reclaimable = .ok 0) : s.isLow = false := by
  rw [isLow, h]
  exact Bool.and_false _

/-! ### Checks for low space -/

/-- Where space is not low a check leaves the store alone. -/
lemma run_compactIfLow_of_not_isLow (hs : s.Operable) (h : s.view.Serves s.placement c)
    (hlow : s.isLow = false) : (compactIfLow : StoreM δ Bool).run s = .ok false s := by
  rw [run_compactIfLow_eq h.inService (reclaimable_of_serves hs h), hlow]
  exact if_neg Bool.false_ne_true

/-- On a healthy device a check that finds space low does what one compaction does. -/
lemma exists_compactIfLow_of_isLow (hs : s.Operable) (h : s.view.Serves s.placement c)
    (hh : s.Healthy) (hlow : s.isLow = true) :
    ∃ s', (compactIfLow : StoreM δ Bool).run s = .ok true s' ∧
      (compactNow : StoreM δ Unit).run s = .ok () s' ∧ s'.current = s.current.other ∧
      s'.generation = s.generation + 1 := by
  obtain ⟨s', hrun, hother⟩ := exists_compactNow_of_healthy hs hh
  refine ⟨s', ?_, hrun, hother⟩
  have hsuspending : (suspendOnFailure compactNow : StoreM δ Unit).run s = .ok () s' :=
    run_suspendOnFailure_eq_ok_iff.2 hrun
  rw [run_compactIfLow_eq h.inService (reclaimable_of_serves hs h), if_pos hlow,
    EStateM.run_bind, hsuspending]
  rfl

/-- A check does nothing right after a compaction. -/
lemma run_compactIfLow_of_compactNow (hs : s.Operable) (h : s.view.Serves s.placement c)
    (hrun : (compactNow : StoreM δ Unit).run s = .ok () s') :
    (compactIfLow : StoreM δ Bool).run s' = .ok false s' := by
  obtain ⟨hs', -, hserves, -⟩ := serves_of_compactNow hs h hrun
  have hnone := (space_of_compactNow hs h hrun).2
  exact run_compactIfLow_of_not_isLow hs' hserves (isLow_of_reclaimable_zero hnone)

/-- On a healthy device space is not low after a check, whatever it answers. -/
lemma not_isLow_of_compactIfLow (hs : s.Operable) (h : s.view.Serves s.placement c)
    (hh : s.Healthy) :
    ∃ b s', (compactIfLow : StoreM δ Bool).run s = .ok b s' ∧ s'.Operable ∧
      s'.view.Serves s'.placement c ∧ s'.isLow = false := by
  cases hlow : s.isLow with
  | false => exact ⟨false, s, run_compactIfLow_of_not_isLow hs h hlow, hs, h, hlow⟩
  | true =>
    obtain ⟨s', hcheck, hcompact, -⟩ := exists_compactIfLow_of_isLow hs h hh hlow
    obtain ⟨hs', -, hserves, -⟩ := serves_of_compactNow hs h hcompact
    have hnone := (space_of_compactNow hs h hcompact).2
    exact ⟨true, s', hcheck, hs', hserves, isLow_of_reclaimable_zero hnone⟩

/-! ### Writes -/

/-- On a healthy device a write that is done leaves the store in service with space that is not
low. Its record may have been appended after a compaction, and the one it replaces is removed after
that, so the check at its end may compact once more. -/
lemma not_isLow_of_write (hs : s.Operable) (h : s.view.Serves s.placement c) (hh : s.Healthy)
    (hrun : (write id data).run s = .ok () s') :
    s'.Operable ∧ s'.view.Serves s'.placement (c.put id data) ∧ s'.isLow = false := by
  obtain ⟨hcheck, s₁, happend, hlow⟩ := run_write_eq_ok hrun
  rcases checkWrite_of_serves id data h with ⟨e, he, -⟩ | ⟨-, hid, hmin⟩
  · cases he.symm.trans hcheck
  · obtain ⟨hs₁, k, hk, h₁, -⟩ := (acts_suspending_append hs h hid hmin).of_ok happend
    rw [← hk.placement_eq] at h₁
    obtain ⟨b, s₂, hs₂, hfacts⟩ := not_isLow_of_compactIfLow hs₁ h₁ (hk.healthy hh)
    rcases hlow with ⟨b', hb'⟩ | ⟨e, he⟩
    · obtain ⟨-, rfl⟩ := EStateM.Result.ok.inj (hb'.symm.trans hs₂)
      exact hfacts
    · cases he.symm.trans hs₂

end Store

/-! ### Sessions -/

namespace Session

variable [Addressable δ] [PowerControlled δ] [LawfulPower δ]

/-- Whatever a lawful device, whose pages hold whole words, held at first and whatever commands have
been run, with any reserve that is accepted: of a store in service on a device that is healthy, a
check for low space compacts exactly if less than the reserve is free and something can be
reclaimed. It then does what one compaction does, and a second check does nothing. Otherwise it
leaves everything as it is. After every write that is done the reserve is free or nothing can be
reclaimed, so a check has nothing to do. -/
theorem compacts_when_low (d : δ) (p : Placement) (commands : List Command) {s : Store δ}
    (h : (run commands (start d p)).store? = some s) (hin : s.inService = true)
    (hh : s.Healthy) :
    ∃ n, s.reclaimable = .ok n ∧
      (s.free < s.placement.reserve.toNat ∧ 0 < n → ∃ s',
        StoreCommand.compactIfLow.run s = (.flag true, s') ∧
        StoreCommand.compact.run s = (.done, s') ∧ s'.generation = s.generation + 1 ∧
        StoreCommand.compactIfLow.run s' = (.flag false, s')) ∧
      (¬ (s.free < s.placement.reserve.toNat ∧ 0 < n) →
        StoreCommand.compactIfLow.run s = (.flag false, s)) ∧
      ∀ id data s', (StoreCommand.write id data).run s = (.done, s') →
        s'.inService = true ∧
        (s'.placement.reserve.toNat ≤ s'.free ∨ s'.reclaimable = .ok 0) ∧
        StoreCommand.compactIfLow.run s' = (.flag false, s') := by
  have hsound := (sound_start d p).run commands
  have hs := (hsound s h).operable
  have hserves := hsound.serves h hin
  have hn := reclaimable_of_serves hs hserves
  have hanswer {t t' : Store δ} {b : Bool}
      (hrun : (compactIfLow : StoreM δ Bool).run t = .ok b t') :
      StoreCommand.compactIfLow.run t = (.flag b, t') := answer_of_ok hrun _
  refine ⟨s.chain.removedBytes, hn, fun hlow => ?_, fun hnot => ?_, fun id data s' hwrite => ?_⟩
  · obtain ⟨s', hcheck, hcompactNow, -, hgeneration⟩ :=
      exists_compactIfLow_of_isLow hs hserves hh ((isLow_iff hin hn).2 hlow)
    have hcompact := (run_compact_eq_ok_iff hserves).2 hcompactNow
    exact ⟨s', hanswer hcheck, answer_of_ok hcompact _, hgeneration,
      hanswer (run_compactIfLow_of_compactNow hs hserves hcompactNow)⟩
  · have hnot' : s.isLow = false := by rwa [← Bool.not_eq_true, isLow_iff hin hn]
    exact hanswer (run_compactIfLow_of_not_isLow hs hserves hnot')
  · obtain ⟨_, -, hrun⟩ := run_of_answer hwrite Answer.done_ne_storeError
    obtain ⟨hs', hserves', hnot⟩ := not_isLow_of_write hs hserves hh hrun
    have hn' := reclaimable_of_serves hs' hserves'
    refine ⟨hserves'.inService, ?_, hanswer (run_compactIfLow_of_not_isLow hs' hserves' hnot)⟩
    rw [← Bool.not_eq_true, isLow_iff hserves'.inService hn'] at hnot
    rw [hn']
    by_cases hfree : s'.placement.reserve.toNat ≤ s'.free
    · exact Or.inl hfree
    · right
      congr 1
      omega

/-- A write that compacts twice: once for want of room, and once more because the record that it
replaces was still in place then. -/
theorem compacts_when_low_of_second_compaction :
    let x : Session (NorFlash 96 24) := run [.opening .mount none, .store (.write 1 [1, 2, 3, 4]),
      .store (.write 3 [1, 2, 3, 4]), .store (.erase 3)] (start NorFlash.blank ⟨0, 48, 48, 20⟩)
    let write := StoreCommand.write 1 [1, 2, 3, 4, 5, 6, 7, 8, 9]
    ∃ s s' t, x.store? = some s ∧ s.free = 16 ∧ s.reclaimable = .ok 12 ∧
      StoreCommand.compactIfLow.run s = (.flag true, s') ∧
      StoreCommand.compactIfLow.run s' = (.flag false, s') ∧
      write.run s = (.done, t) ∧ t.generation = s.generation + 2 ∧
      StoreCommand.compactIfLow.run t = (.flag false, t) := by
  intro x write
  have hx : x.store?.map (fun s => (s.inService, s.device.budget, s.free, s.placement.reserve,
      s.reclaimable.toOption)) = some (true, none, 16, 20, some 12) := by decide +kernel
  have hx' : x.store?.map (fun s => ((write.run s).1.isDone, (write.run s).2.generation,
      s.generation)) = some (true, 2, 0) := by decide +kernel
  obtain ⟨s, hs, hfacts⟩ := Option.map_eq_some_iff.1 hx
  rw [hs, Option.map_some, Option.some_inj] at hx'
  simp only [Prod.mk.injEq] at hfacts hx'
  obtain ⟨hin, hbudget, hfree, hreserve, hreclaimable⟩ := hfacts
  obtain ⟨hdone, hgeneration', hgeneration⟩ := hx'
  obtain ⟨n, hn, hlow, -, hwrite⟩ :=
    compacts_when_low NorFlash.blank ⟨0, 48, 48, 20⟩ _ hs hin (healthy_of_budget hbudget)
  obtain rfl : n = 12 := by simpa [hn, Except.toOption] using hreclaimable
  obtain ⟨s', hcheck, -, -, hagain⟩ := hlow (by rw [hfree, hreserve]; decide)
  have hrun : write.run s = (.done, (write.run s).2) :=
    Prod.ext (Answer.isDone_iff.1 hdone) rfl
  obtain ⟨-, -, hidle⟩ := hwrite _ _ _ hrun
  refine ⟨s, s', _, hs, hfree, hn, hcheck, hagain, hrun, ?_, hidle⟩
  rw [hgeneration', hgeneration]
  rfl

/-- Pages of two bytes let the second block start off a word boundary, where it takes no word. Space
is low and there is power, but a check cannot compact into that block. -/
theorem low_beside_unaligned_block :
    let p : Placement := ⟨0, 30, 30, 29⟩
    let x : Session (NorFlash 64 2) :=
      run [.opening .mount none, .store (.write 1 [1, 2, 3, 4]), .store (.erase 1)]
        (start NorFlash.blank p)
    p.accepts 2 64 = true ∧
      x.store?.map (fun s => (s.inService, s.free, s.reclaimable.toOption, s.device.budget)) =
        some (true, 10, some 12, none) ∧
      (x.step (.store .compactIfLow)).1 = .storeError (.device .unaligned) := by
  intro p x
  exact ⟨by decide, by decide +kernel, by decide +kernel⟩

end Session

end FlashStore
