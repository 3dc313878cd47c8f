import FlashStore.Proofs.Simulation

/-!
# Power cuts

Over NOR flash that loses power at any time, what a recovered store holds is explained by the
answers given so far: a call that succeeded has had its effect, one that power loss interrupted
has had all of it or none, and any other failure has had none. Erases and formats are the
exception, as they clear what they remove bit by bit; no power may be cut within them.
-/

namespace FlashStore

open LawfulFlash Store

namespace Event

/-- How the contents after an event follow from its answer. -/
def Accounts (e : Event) (a : Answer) (c c' : Contents) : Prop :=
  match e with
  | call command =>
    match a with
    | .storeError (.device .powerLoss) => c' = c ∨ c' = command.effect c
    | .storeError _ | .noStore => c' = c
    | _ => c' = command.effect c
  | _ => c' = c

/-- An event that clears what it removes before it is done. -/
def isRemoval : Event → Bool
  | call command => command.isRemoval
  | _ => false

end Event

section Runs

variable {δ : Type} [FlashDevice δ] [Addressable δ] [PowerControlled δ]

/-- The contents after some events follow from the answers to them. -/
def Session.Explains : List Event → Session δ → Contents → Contents → Prop
  | [], _, c, c' => c' = c
  | e :: events, x, c, c' =>
    ∃ c₁, e.Accounts (x.step e.command).1 c c₁ ∧ Explains events (x.step e.command).2 c₁ c'

omit [PowerControlled δ] in
/-- An open store does not answer as if there were none. -/
lemma StoreCommand.run_ne_noStore (command : StoreCommand) (s : Store δ) :
    (command.run s).1 ≠ .noStore := by
  have hanswer {α : Type} {x : StoreM δ α} {f : α → Answer} (hf : ∀ a, f a ≠ .noStore) :
      (x.answer f s).1 ≠ .noStore := by
    unfold StoreM.answer
    split
    · exact hf _
    · exact nofun
  have hquestion {α : Type} {x : Except StoreError α} {f : α → Answer}
      (hf : ∀ a, f a ≠ .noStore) : Answer.ofStore f x ≠ .noStore := by
    cases x with
    | ok a => exact hf a
    | error e => exact nofun
  cases command with
  | recover | format | compact | compactIfLow | write | erase => exact hanswer fun _ => nofun
  | read | readInto | contains | reclaimable | list => exact hquestion fun _ => nofun

end Runs

variable {size page : Nat} {c : Contents} {p : Placement}

/-- Power is not cut within an erase or a format: if one fails for want of power, it was off
before. -/
def Session.RemovalsUncut : List Event → Session (NorFlash size page) → Prop
  | [], _ => True
  | e :: events, x =>
    (e.isRemoval = true → (x.step e.command).1 = .storeError (.device .powerLoss) →
      x.device.budget = some 0) ∧ RemovalsUncut events (x.step e.command).2

/-- Without power nothing is done. -/
lemma NorFlash.SpentBy.eq_zero {k : Nat} {d d' : NorFlash size page} (h : SpentBy k d d')
    (hd : d.budget = some 0) : k = 0 := by
  rcases h with ⟨h, -⟩ | ⟨n, h, -⟩
  · cases hd.symm.trans h
  · have := Option.some.inj (hd.symm.trans h)
    omega

variable [NorFlash.WordPages page]

lemma StoreCommand.Ends.accounts {command : StoreCommand} {s s' : Store (NorFlash size page)}
    {k : Nat} {a : Answer} {c c' : Contents} (hends : command.Ends s k a s') (ha : a ≠ .noStore)
    (h : command.isRemoval = true → a = .storeError (.device .powerLoss) →
      s.device.budget = some 0)
    (hacc : command.Accounted k a c c') : (Event.call command).Accounts a c c' := by
  cases a with
  | noStore => exact absurd rfl ha
  | storeError e =>
    cases e with
    | device e =>
      obtain ⟨rfl, -⟩ := hends.blames _ rfl e rfl
      rcases hacc with hc | hc | ⟨hr, hk⟩
      · exact Or.inl hc
      · exact Or.inr hc
      · exact absurd (NorFlash.SpentBy.eq_zero hends.continues.reaches (h hr rfl)) hk
    | _ => exact hacc
  | _ => exact hacc

namespace Session

variable {x : Session (NorFlash size page)}

/-- Every event is accounted for unless power is cut within an erase or a format. -/
lemma Sound.accounts (hx : x.Sound) (e : Event)
    (h : e.isRemoval = true → (x.step e.command).1 = .storeError (.device .powerLoss) →
      x.device.budget = some 0) :
    e.Accounts (x.step e.command).1 x.persisted (x.step e.command).2.persisted := by
  cases e with
  | opening how => exact (sound_opening how x).2.2
  | cutPowerAfter n => exact (hx.cutPowerAfter n).2
  | restorePower => exact hx.restorePower.2
  | call command =>
    change (Event.call command).Accounts (x.step (.store command)).1 x.persisted
      (x.step (.store command)).2.persisted
    cases hstore : x.store? with
    | none =>
      rw [step_call_of_none hstore]
      rfl
    | some s =>
      obtain ⟨-, k, hends, hacc⟩ := hx.call hstore command
      refine hends.accounts ?_ ?_ hacc
      · rw [step_call hstore]
        exact command.run_ne_noStore s
      · rw [← device_of_store? hstore]
        exact h

/-- What a run leaves on flash is explained by its answers. -/
lemma Sound.explains (hx : x.Sound) {events : List Event} (h : RemovalsUncut events x) :
    Explains events x x.persisted (x.play events).persisted := by
  induction events generalizing x with
  | nil => rfl
  | cons e events ih =>
    exact ⟨_, hx.accounts e h.1, ih (hx.step e).1 h.2⟩

/-- On flash whose pages hold whole words, whatever it held before: from the first recovery that
succeeds on, the contents after every restart are explained by the answers since. -/
theorem explained_after_restart (d : NorFlash size page) (p : Placement) (before : List Event)
    {e : Event} (he : e.isRecovery = true)
    (hdone : (((start d p).play before).step e.command).1 = .done) :
    let x := (((start d p).play before).step e.command).2
    ∃ c, x.Holds c ∧ ∀ events, RemovalsUncut events x →
      ((x.play events).step (.opening .reboot none)).1 = .done →
        ∃ c', ((x.play events).step (.opening .reboot none)).2.Holds c' ∧
          Explains events x c c' := by
  intro x
  have hbefore := ((sound_start d p).play before).1
  have hx : x.Sound := (hbefore.step e).1
  obtain ⟨s, hs, hin⟩ := hbefore.inService_of_done he hdone
  refine ⟨x.persisted, hx.holds hs hin, ?_⟩
  intro events hcut hdone'
  obtain ⟨hlast, -, hpers⟩ := sound_opening .reboot (x.play events)
  have hhow : Opening.reboot ≠ .attach := nofun
  obtain ⟨s', hs', hin'⟩ := inService_of_opening hhow hdone'
  refine ⟨_, hlast.holds hs' hin', ?_⟩
  rw [hpers]
  exact hx.explains hcut

/-- A write that is cut after two programs has had no effect. -/
theorem explained_after_restart_of_cut_write :
    let x := ((start NorFlash.blank ⟨0, 40, 40, 0⟩ : Session (NorFlash 80 20)).step
      (.opening .mount none)).2
    let events := [.call (.write 1 [1, 2, 3, 4]), .cutPowerAfter 2, .call (.write 1 [5, 6, 7, 8])]
    x.Holds [] ∧
      ((x.play events).step (.opening .reboot none)).2.Holds [⟨1, [1, 2, 3, 4]⟩] ∧
      Explains events x [] [⟨1, [1, 2, 3, 4]⟩] := by
  intro x events
  have hmount : Opening.mount ≠ .attach := nofun
  have hreboot : Opening.reboot ≠ .attach := nofun
  have hdone := (simulated_opening (x := (start NorFlash.blank ⟨0, 40, 40, 0⟩ :
    Session (NorFlash 80 20))) hmount rfl (by decide)).1
  obtain ⟨c, hc, h⟩ :=
    explained_after_restart NorFlash.blank ⟨0, 40, 40, 0⟩ [] (e := .opening .mount) rfl hdone
  obtain ⟨c', hc', hexplains⟩ := h events ⟨nofun, nofun, nofun, trivial⟩
    (simulated_opening (x := x.play events) hreboot rfl (by decide)).1
  have hfirst : x.Holds [] := by decide +kernel
  have hlast : ((x.play events).step (.opening .reboot none)).2.Holds [⟨1, [1, 2, 3, 4]⟩] := by
    decide +kernel
  obtain rfl := hfirst.unique hc
  obtain rfl := hlast.unique hc'
  exact ⟨hfirst, hlast, hexplains⟩

end Session

end FlashStore
