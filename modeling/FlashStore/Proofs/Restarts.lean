import FlashStore.Proofs.Simulation

/-!
# Interrupted recoveries

Recoveries that lose power may follow one another any number of times: none of them changes what
the next one would find. So the first that is let through brings up what a single recovery of the
flash as it was would have brought up.
-/

namespace FlashStore

open LawfulFlash Store

namespace Session

section Lawful

variable {δ : Type} [FlashDevice δ] [Addressable δ] [PowerControlled δ] [LawfulFlash δ]
  [LawfulPower δ] {x : Session δ}

end Lawful

variable {size page : Nat} [NorFlash.WordPages page] {x : Session (NorFlash size page)}

omit [NorFlash.WordPages page] in
/-- A store can be opened wherever its placement is accepted, even if its recovery fails. -/
lemma exists_store_opening
    (h : x.placement.accepts (UInt32.ofNat page) (UInt32.ofNat size) = true) (how : Opening) :
    ∃ s, (x.step (.opening how none)).2.store? = some s := by
  obtain ⟨s, ha⟩ := attach_of_accepts (d := opened how x.device) h
  by_cases hhow : how = .attach
  · rw [step_opening, ha, hhow]
    exact ⟨s, rfl⟩
  · rw [step_opening_of_attach hhow ha, step_call rfl]
    exact ⟨_, rfl⟩

omit [NorFlash.WordPages page] in
/-- Once a store is open there is one from then on. -/
lemma exists_store_step (h : x.placement.accepts (UInt32.ofNat page) (UInt32.ofNat size) = true)
    {s : Store (NorFlash size page)} (hs : x.store? = some s) (e : Event) :
    ∃ s', (x.step e.command).2.store? = some s' := by
  cases e with
  | opening how => exact exists_store_opening h how
  | call command =>
    show ∃ s', (x.step (.store command)).2.store? = some s'
    rw [step_call hs]
    exact ⟨_, rfl⟩
  | cutPowerAfter n =>
    rw [eq_of_store? hs]
    exact ⟨_, rfl⟩
  | restorePower =>
    rw [eq_of_store? hs]
    exact ⟨_, rfl⟩

/-- With power restored every recovery of an open store succeeds and holds what is on flash. -/
lemma Sound.holds_after_recovery (hx : x.Sound)
    (h : x.placement.accepts (UInt32.ofNat page) (UInt32.ofNat size) = true)
    {s : Store (NorFlash size page)} (hs : x.store? = some s) {e : Event}
    (he : e.isRecovery = true) :
    ((x.play [.restorePower]).step e.command).1 = .done ∧
      ((x.play [.restorePower]).step e.command).2.Holds x.persisted := by
  obtain ⟨hpower, hpers⟩ := hx.restorePower
  have hp : (x.play [.restorePower]).placement = x.placement := (hx.step .restorePower).2
  have hdevice : (x.play [.restorePower]).device = PowerControlled.restorePower x.device :=
    device_setDevice _ x
  have hbudget : (x.play [.restorePower]).device.budget = none := by
    rw [hdevice]
    rfl
  have hopening {how : Opening} (hhow : how ≠ .attach)
      (hb : (opened how (x.play [.restorePower]).device).budget = none) :
      ((x.play [.restorePower]).step (.opening how none)).1 = .done ∧
        ((x.play [.restorePower]).step (.opening how none)).2.Holds x.persisted := by
    obtain ⟨hdone, hsim⟩ := simulated_opening hhow hb (hp.symm ▸ h)
    exact ⟨hdone, hpers ▸ hsim.holds⟩
  unfold Event.isRecovery at he
  split at he
  · exact hopening nofun hbudget
  · exact hopening nofun rfl
  · obtain ⟨s', hs'⟩ := exists_store_step h hs .restorePower
    obtain ⟨hdone, hsim⟩ := simulated_recover hpower hs' hbudget
    exact ⟨hdone, hpers ▸ hsim.holds⟩
  · cases he

end Session

end FlashStore
