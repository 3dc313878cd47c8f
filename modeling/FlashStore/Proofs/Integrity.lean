import FlashStore.Flash.Unreliable
import FlashStore.Proofs.SettingCalls

/-!
# Integrity

A store in service is faithful to flash: its block carries the header it says, its records fill the
block up to its cursor, and what follows is erased. That holds of every store that any run of
commands leaves in service, also on a device that fails whatever calls it likes: a device that
fails is lawful as long as the calls it passes on are, so an operation that stops half-way leaves
the store faithful or out of service.
-/

namespace FlashStore

open LawfulFlash Store

/-! ### Devices that fail -/

namespace Unreliable

variable {δ : Type} [FlashDevice δ] [LawfulFlash δ] {d : Unreliable δ} {x : DeviceM δ Unit}
  {Q : δ → Prop}

/-- The device behind refuses, or a call made before was to fail so. -/
def Refuses (d : Unreliable δ) (e : DeviceError) : Prop :=
  LawfulFlash.Refuses d.device e ∨ ∃ n < d.calls, d.failure n = some e

/-- A call that fails without being passed on leaves everything as it is, as the device behind does
when it refuses. -/
lemma ensures_call (hu : Unlocked d.device)
    (hx : Ensures x d.device (fun _ => Q) (fun e d' => Unlocked d' ∧ Reaches 0 d.device d' ∧
      LawfulFlash.Refuses d' e ∧ FlashDevice.readWord d' = FlashDevice.readWord d.device)) :
    Ensures (call x) d (fun _ d' => Q d'.device)
      (fun e d' => Unlocked d'.device ∧ Reaches 0 d.device d'.device ∧ Refuses d' e ∧
        FlashDevice.readWord d'.device = FlashDevice.readWord d.device) := by
  cases hf : d.failure d.calls with
  | some e =>
    have hrefuses : Refuses { d with calls := d.calls + 1 } e :=
      Or.inr ⟨d.calls, Nat.lt_succ_self _, hf⟩
    exact .intro_error (run_call_of_failure hf) ⟨hu, reaches_refl _, hrefuses, rfl⟩
  | none =>
    have hrun := run_call_of_none (x := x) hf
    cases hd : x.run d.device with
    | ok u inner =>
      rw [hd] at hrun
      exact .intro_ok hrun (hx.of_ok hd)
    | error e inner =>
      rw [hd] at hrun
      obtain ⟨hu', hreaches, hrefuses, hword⟩ := hx.of_error hd
      exact .intro_error hrun ⟨hu', hreaches, Or.inl hrefuses, hword⟩

/-- A lawful device stays lawful when some of its calls fail. -/
instance : LawfulFlash (Unreliable δ) where
  Unlocked d := Unlocked d.device
  Reaches k d d' := Reaches k d.device d'.device
  Refuses := Refuses
  pageSize_mod := pageSize_mod (δ := δ)
  reaches_refl d := reaches_refl d.device
  reaches_trans := reaches_trans
  capacity_of_reaches := capacity_of_reaches
  unlocked_unlock d := unlocked_unlock d.device
  reaches_unlock d := reaches_unlock d.device
  reaches_lock d := reaches_lock d.device
  refuses_lock h := h.imp_left refuses_lock
  readWord_unlock d := readWord_unlock d.device
  readWord_lock d := readWord_lock d.device
  ensures_programWord w hu ha hs hw := ensures_call hu (ensures_programWord w hu ha hs hw)
  ensures_erasePage hu ha hs := ensures_call hu (ensures_erasePage hu ha hs)

instance [PowerControlled δ] [LawfulPower δ] : LawfulPower (Unreliable δ) where
  readWord_cutPowerAfter n d := LawfulPower.readWord_cutPowerAfter n d.device
  readWord_restorePower d := LawfulPower.readWord_restorePower d.device
  capacity_cutPowerAfter n d := LawfulPower.capacity_cutPowerAfter n d.device
  capacity_restorePower d := LawfulPower.capacity_restorePower d.device
  unlocked_cutPowerAfter h := LawfulPower.unlocked_cutPowerAfter (δ := δ) h
  unlocked_restorePower h := LawfulPower.unlocked_restorePower (δ := δ) h

end Unreliable

/-! ### Faithful stores -/

section Faithful

variable {δ : Type} [FlashDevice δ]

/-- What a store keeps in memory is what its flash says. -/
structure Store.Faithful (s : Store δ) : Prop where
  magic_eq : s.word s.block.magicAddress = magic
  counter_eq : s.word s.block.counterAddress = s.generation
  /-- The records follow one another from the first place of the block to the cursor. -/
  linked : Linked s.word s.block.stop s.block.first s.chain.records s.cursor
  /-- The chain is not broken: it stops at the cursor, as a vacant place or a full block. -/
  stop_eq : s.chain.stop = endAt s.block.stop s.cursor
  erased : ∀ a ∈ s.block.wordsFrom s.cursor, s.word a = Word.erased
  distinct : s.chain.records.Pairwise fun r r' => r.id ≠ removedId → r.id ≠ r'.id
  /-- A recovery would make the same block current. -/
  newest_eq : s.newest? = some (s.current, s.generation)

/-- A consistent store is faithful. -/
lemma Consistent.faithful {s : Store δ} (hp : s.placement.Regular)
    (h : Consistent s.placement s.word s.current s.generation s.cursor) : s.Faithful := by
  have hchain : s.chain = ⟨recordsOf s.word s.block, endAt s.block.stop s.cursor⟩ := h.chain_eq hp
  obtain ⟨hmagic, hcounter⟩ := header_eq_some_iff.1 (Placement.header_of_newest h.newest)
  refine ⟨hmagic, hcounter, h.linked, congrArg Chain.stop hchain, ?_, ?_, h.newest⟩
  · intro a ha
    obtain ⟨hle, hlt, hmod⟩ := Block.mem_wordsFrom.1 ha
    have hcursor := h.cursor_mod hp
    exact h.erased a hle hlt (by omega)
  · refine h.distinct.imp ?_
    intro r r' hne hlive
    exact hne (Record.isLive_iff.2 hlive)

end Faithful

namespace Session

variable {size page : Nat} [NorFlash.WordPages page]

/-- Over NOR flash whose pages hold whole words, and whose programs and erases may fail at any time,
the cursor of every open store is inside its block, and every store in service is faithful to flash,
whatever the flash held at first and whatever commands have been run. -/
theorem faithful_in_service (d : Unreliable (NorFlash size page)) (p : Placement)
    (commands : List Command) {s : Store (Unreliable (NorFlash size page))}
    (h : (run commands (start d p)).store? = some s) :
    (s.block.first ≤ s.cursor ∧ s.cursor ≤ s.block.stop) ∧ (s.inService = true → s.Faithful) := by
  have hstands := (sound_start d p).run commands s h
  refine ⟨⟨hstands.operable.first_le, hstands.operable.le_stop⟩, fun hin => ?_⟩
  have hc := hstands.valid hin
  rw [← hstands.placement_eq] at hc
  exact hc.faithful hstands.operable.regular

/-- The ninth call fails within a write, and a restart brings up a faithful store. -/
theorem faithful_in_service_of_failed_write :
    let d : Unreliable (NorFlash 80 20) :=
      ⟨NorFlash.blank, fun n => if n = 8 then some .program else none, 0⟩
    let x := run [.opening .mount none, .store (.write 1 [1, 2, 3, 4]), .opening .reboot none,
      .store (.write 1 [5, 6, 7, 8])] (start d ⟨0, 40, 40, 0⟩)
    ∃ s, x.store? = some s ∧ s.inService = true ∧ s.Faithful := by
  intro d x
  have hx : x.store?.map Store.inService = some true := by decide +kernel
  obtain ⟨s, hs, hin⟩ := Option.map_eq_some_iff.1 hx
  exact ⟨s, hs, hin, (faithful_in_service d _ _ hs).2 hin⟩

end Session

end FlashStore
