import FlashStore.Proofs.Sessions
import FlashStore.Proofs.Surviving

/-!
# Confinement

What a store leaves alone on NOR flash that holds anything at all and is changed behind its back: no
event changes a byte outside of the two blocks, and one that writes or erases a value and runs no
compaction changes records of the current block only.
-/

namespace FlashStore

open NorFlash

variable {size page : Nat}

/-- What happens on a flash that is not the store's alone: events, and words poked past it. -/
inductive Incident where
  | event (e : Event)
  | poke (a : Nat) (w : Word)

/-- An event that writes or erases a value. -/
def Event.isUpdate : Event → Bool
  | call (.write _ _) | call (.erase _) => true
  | _ => false

lemma Event.exists_of_isUpdate {e : Event} (h : e.isUpdate = true) :
    ∃ command, e = .call command ∧ command ≠ .recover ∧ command ≠ .format := by
  unfold isUpdate at h
  split at h
  · exact ⟨_, rfl, nofun, nofun⟩
  · exact ⟨_, rfl, nofun, nofun⟩
  · cases h

namespace Session

open Store

/-- The generations that an event starts compactions at, in order. -/
def compactions {δ : Type} [FlashDevice δ] [PowerControlled δ] (x : Session δ) :
    Event → List Word
  | .opening how =>
    match attach (opened how x.device) x.placement with
    | .error _ => []
    | .ok s => if how = .attach then [] else StoreCommand.recover.compactions s
  | .call command =>
    match x.store? with
    | none => []
    | some s => command.compactions s
  | _ => []

section

variable {δ : Type} [FlashDevice δ] [PowerControlled δ] {x : Session δ} {s : Store δ}

lemma compactions_call (h : x.store? = some s) (command : StoreCommand) :
    x.compactions (.call command) = command.compactions s := by
  unfold compactions
  rw [h]

/-- A restart compacts as the recovery in it does. -/
lemma compactions_opening {how : Opening} (h : attach (opened how x.device) x.placement = .ok s)
    (hhow : how ≠ .attach) : x.compactions (.opening how) = StoreCommand.recover.compactions s := by
  unfold compactions
  dsimp only
  rw [h]
  exact if_neg hhow

end

variable {x : Session (NorFlash size page)}

/-- Poke a word, if the address is one of the flash. -/
def poke (a : Nat) (w : Word) (x : Session (NorFlash size page)) : Session (NorFlash size page) :=
  match (NorFlash.poke a w).run x.device with
  | .ok _ d | .error _ d => x.setDevice d

/-- Let an incident happen. -/
def incur : Incident → Session (NorFlash size page) → Session (NorFlash size page)
  | .event e, x => (x.step e.command).2
  | .poke a w, x => x.poke a w

/-- Let incidents happen one after another. -/
def undergo (incidents : List Incident) (x : Session (NorFlash size page)) :
    Session (NorFlash size page) :=
  incidents.foldl (fun x incident => incur incident x) x

/-- The open store, if any, stands where the session says and is within bounds. -/
def Bounded (x : Session (NorFlash size page)) : Prop :=
  ∀ s, x.store? = some s → s.placement = x.placement ∧ s.Bounded

lemma Bounded.setDevice (hx : x.Bounded) (d : NorFlash size page) : (x.setDevice d).Bounded := by
  obtain ⟨p, d' | s⟩ := x
  · exact nofun
  · obtain ⟨hp, hs⟩ := hx s rfl
    rintro _ ⟨rfl⟩
    exact ⟨hp, hs.frame⟩

lemma Bounded.poke (hx : x.Bounded) (a : Nat) (w : Word) :
    (x.poke a w).Bounded ∧ (x.poke a w).placement = x.placement := by
  unfold Session.poke
  split
  · exact ⟨hx.setDevice _, placement_setDevice _ _⟩
  · exact ⟨hx.setDevice _, placement_setDevice _ _⟩

section Step

variable (hlt : page < 2 ^ 32)
include hlt

lemma Bounded.step_call (hx : x.Bounded) (command : StoreCommand) :
    (x.step (.store command)).2.Bounded ∧
      (x.step (.store command)).2.placement = x.placement ∧
      x.device.ChangedOn x.placement.territory (x.step (.store command)).2.device := by
  cases h : x.store? with
  | none =>
    rw [step_call_of_none h]
    exact ⟨hx, rfl, refl_of _ x.device⟩
  | some s =>
    obtain ⟨hp, hs⟩ := hx s h
    have hroams := roams_run hlt hs command
    have hdevice := device_of_store? h
    rw [Session.step_call h, hdevice, ← hp]
    refine ⟨?_, rfl, hroams.changedOn⟩
    rintro _ ⟨rfl⟩
    exact ⟨hroams.placement_eq, hroams.bounded hs⟩

/-- An event changes bytes of the two blocks only. -/
lemma Bounded.step (hx : x.Bounded) (e : Event) :
    (x.step e.command).2.Bounded ∧ (x.step e.command).2.placement = x.placement ∧
      x.device.ChangedOn x.placement.territory (x.step e.command).2.device := by
  cases e with
  | opening how =>
    have hopened : x.device.ChangedOn x.placement.territory (opened how x.device) := by
      unfold opened
      split
      · exact fun _ _ => rfl
      · exact refl_of _ x.device
    have hstep := step_opening how x
    change x.step (Event.opening how).command = _ at hstep
    rw [hstep]
    cases h : attach (opened how x.device) x.placement with
    | error e => exact ⟨nofun, rfl, hopened⟩
    | ok s =>
      obtain ⟨hp, hdevice, hs⟩ := bounded_of_attach h
      have hbounded : Bounded ⟨x.placement, .store s⟩ := by
        rintro _ ⟨rfl⟩
        exact ⟨hp, hs⟩
      rw [← hdevice] at hopened
      dsimp only
      split
      · exact ⟨hbounded, rfl, hopened⟩
      -- Opening has changed no byte itself, so what changes is left to the recovery.
      · obtain ⟨hstep, hplace, hchanged⟩ := hbounded.step_call hlt .recover
        exact ⟨hstep, hplace, trans_of _ hopened hchanged⟩
  | call command => exact hx.step_call hlt command
  | cutPowerAfter n =>
    refine ⟨hx.setDevice _, placement_setDevice _ _, fun i _ => ?_⟩
    show (x.setDevice _).device.byte i = x.device.byte i
    rw [device_setDevice]
    rfl
  | restorePower =>
    refine ⟨hx.setDevice _, placement_setDevice _ _, fun i _ => ?_⟩
    show (x.setDevice _).device.byte i = x.device.byte i
    rw [device_setDevice]
    rfl

lemma Bounded.undergo (hx : x.Bounded) (incidents : List Incident) :
    (x.undergo incidents).Bounded ∧ (x.undergo incidents).placement = x.placement := by
  induction incidents generalizing x with
  | nil => exact ⟨hx, rfl⟩
  | cons incident incidents ih =>
    have hincur : (x.incur incident).Bounded ∧ (x.incur incident).placement = x.placement := by
      cases incident with
      | event e =>
        obtain ⟨hbounded, hplace, -⟩ := hx.step hlt e
        exact ⟨hbounded, hplace⟩
      | poke a w => exact hx.poke a w
    obtain ⟨hbounded, hplace⟩ := ih hincur.1
    exact ⟨hbounded, hplace.trans hincur.2⟩

/-- Whatever the flash holds at first and whatever is poked into it on the way, no event changes a
byte outside of the two blocks. A write or erase that starts no compaction erases no page, and
changes no byte but records of the current block. -/
theorem confined (d : NorFlash size page) (p : Placement) (incidents : List Incident) (e : Event) :
    let x := (start d p).undergo incidents
    let y := (x.step e.command).2
    (∀ i, (∀ side, i ∉ Set.Ico (p.block side).base (p.block side).stop) →
      y.device.byte i = x.device.byte i) ∧
    ∀ s, x.store? = some s → e.isUpdate = true → x.compactions e = [] →
      y.device.erases = x.device.erases ∧
      ∀ i, i ∉ Set.Ico (p.block s.current).first (p.block s.current).stop →
        y.device.byte i = x.device.byte i := by
  intro x y
  obtain ⟨hx, hp⟩ := Bounded.undergo hlt (x := start d p) nofun incidents
  change x.Bounded at hx
  change x.placement = p at hp
  refine ⟨fun i hi => ?_, fun s h hupdate hnone => ?_⟩
  · apply (hx.step hlt e).2.2
    rw [hp]
    rintro ⟨side, hside⟩
    exact hi side hside
  · obtain ⟨command, rfl, hrecover, hformat⟩ := Event.exists_of_isUpdate hupdate
    obtain ⟨hplace, hs⟩ := hx s h
    rw [compactions_call h] at hnone
    have hstays := stays_run hs hrecover hformat hnone
    have hdevice := device_of_store? h
    have hstep : y.device = (command.run s).2.device :=
      congrArg (fun r => r.2.device) (Session.step_call h command)
    have hblock : s.block = p.block s.current := by rw [Store.block, hplace, hp]
    rw [hstep, hdevice, ← hblock]
    exact ⟨hstays.programmedOn.erases_eq, hstays.programmedOn.changedOn⟩

end Step

/-- A record that a poke has cleared is left alone by the write of another one. -/
theorem confined_of_poked_write :
    let d : NorFlash 80 20 := NorFlash.filled 0xCD
    let incidents := [.event (.opening .mount), .event (.call (.write 1 [5, 6, 7, 8])), .poke 16 0]
    let x := (start d ⟨0, 40, 40, 0⟩).undergo incidents
    let y := (x.step (.store (.write 3 [1, 2, 3, 4]))).2
    x.compactions (.call (.write 3 [1, 2, 3, 4])) = [] ∧ y.device.byte 20 ≠ x.device.byte 20 ∧
      y.device.erases = x.device.erases ∧
      ∀ i, i ∉ Set.Ico 8 40 → y.device.byte i = x.device.byte i := by
  intro d incidents x y
  have hnone : x.compactions (.call (.write 3 [1, 2, 3, 4])) = [] := by decide +kernel
  have hcurrent : x.store?.map (·.current) = some .a := by decide +kernel
  obtain ⟨s, hs, hside⟩ := Option.map_eq_some_iff.1 hcurrent
  obtain ⟨-, hwithin⟩ :=
    confined (by decide) d ⟨0, 40, 40, 0⟩ incidents (.call (.write 3 [1, 2, 3, 4]))
  obtain ⟨herases, hbytes⟩ := hwithin s hs rfl hnone
  rw [hside] at hbytes
  exact ⟨hnone, by decide +kernel, herases, hbytes⟩

end Session

end FlashStore
