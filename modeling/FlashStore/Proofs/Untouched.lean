import FlashStore.Proofs.SettingCalls

/-!
# Untouched values

A value is what it was after any run of calls that leave its id alone: whatever else is written,
erased, compacted or recovered, and wherever power is cut. Of the calls that clear what they
remove only a format reaches beyond its id.
-/

namespace FlashStore

open LawfulFlash Store

variable {id : Word} {c c' : Contents}

namespace StoreCommand

/-- Whether a call leaves the value of an id alone. -/
def spares (id : Word) : StoreCommand → Bool
  | write id' _ | erase id' => id' != id
  | format => false
  | _ => true

lemma get?_effect {command : StoreCommand} (h : command.spares id = true) (c : Contents) :
    (command.effect c).get? id = c.get? id := by
  cases command with
  | write id' data => exact Contents.get?_put_of_ne (bne_iff_ne.1 h).symm data c
  | erase id' => exact Contents.get?_remove_of_ne (bne_iff_ne.1 h).symm c
  | format => cases h
  | recover | compact | compactIfLow | read | readInto | contains | reclaimable | list => rfl

end StoreCommand

variable {δ : Type} [FlashDevice δ] [Addressable δ] [LawfulFlash δ]

lemma find_of_erase_notFound {s : Store δ} (hs : s.Operable) (hv : s.view.Valid s.placement)
    (h : ((StoreCommand.erase id).run s).1 = .storeError .notFound) :
    find id s = .error .notFound := by
  rw [StoreCommand.run] at h
  cases hfind : find id s with
  | error e =>
    rw [answer_of_error (run_erase_of_find hfind)] at h
    rw [Answer.storeError.inj h]
  | ok r =>
    obtain ⟨hin, data, hl⟩ := exists_lookup_of_find hs hv hfind
    rcases answer_of_ensures (acts_erase hs (hv.serves hin) hl) fun _ => .done with
      ⟨_, s', ha, -⟩ | ⟨e, s', ha, -, k, -, -, ⟨e', rfl⟩, -⟩
    · rw [ha] at h
      cases h
    · rw [ha] at h
      cases h

/-- Whether an event leaves the value of an id alone. -/
def Event.spares (id : Word) : Event → Bool
  | call command => command.spares id
  | _ => true

namespace Session

variable [PowerControlled δ] {x : Session δ}

/-- An erase keeps the contents, removes the value of its id or blanks the start of it. -/
lemma Sound.persisted_erase (hx : x.Sound) (id : Word) :
    let c' := (x.step (.store (.erase id))).2.persisted
    c' = x.persisted ∨ c' = x.persisted.remove id ∨ ∃ n, c' = x.persisted.blank id n := by
  cases h : x.store? with
  | none =>
    rw [step_call_of_none h]
    exact Or.inl rfl
  | some s =>
    obtain ⟨hp, -, hs, hv⟩ := hx s h
    rw [← hp] at hv
    rw [persisted_of_store? h, persisted_step_call h, ← hp]
    cases hfind : find id s with
    | error e =>
      rw [StoreCommand.run, answer_of_error (run_erase_of_find hfind)]
      exact Or.inl rfl
    | ok r =>
      obtain ⟨hin, data, hl⟩ := exists_lookup_of_find hs hv hfind
      rw [StoreCommand.run]
      rcases answer_of_ensures (acts_erase hs (hv.serves hin) hl) fun _ => .done with
        ⟨_, t, ht, -, k, -, -, hserves⟩ | ⟨e, t, ht, -, k, -, -, -, -, hsuspended⟩
      · rw [ht]
        exact Or.inr (Or.inl hserves.persisted)
      · rw [ht]
        exact Or.inr (Or.inr ⟨_, hsuspended.persisted⟩)

/-- An erase that finds nothing to erase leaves no value. -/
lemma Sound.get?_of_notFound (hx : x.Sound)
    (h : (x.step (.store (.erase id))).1 = .storeError .notFound) :
    (x.step (.store (.erase id))).2.persisted.get? id = none := by
  cases hstore : x.store? with
  | none =>
    rw [step_call_of_none hstore] at h
    cases h
  | some s =>
    obtain ⟨hp, -, hs, hv⟩ := hx s hstore
    obtain ⟨-, k, -, hacc⟩ := hx.call hstore (.erase id)
    rw [h] at hacc
    have hkept : (x.step (.store (.erase id))).2.persisted = x.persisted := hacc
    rw [step_call hstore] at h
    rw [← hp] at hv
    rw [hkept, persisted_of_store? hstore, ← hp]
    exact get?_of_find_notFound hs hv (find_of_erase_notFound hs hv h)

variable [LawfulPower δ]

/-- An event that leaves an id alone leaves its value on flash. -/
lemma Sound.get?_step (hx : x.Sound) {e : Event} (he : e.spares id = true) :
    (x.step e.command).2.persisted.get? id = x.persisted.get? id := by
  cases e with
  | opening how => exact congrArg (Contents.get? · id) (sound_opening how x).2.2
  | cutPowerAfter n => exact congrArg (Contents.get? · id) (hx.cutPowerAfter n).2
  | restorePower => exact congrArg (Contents.get? · id) hx.restorePower.2
  | call command =>
    change command.spares id = true at he
    show (x.step (.store command)).2.persisted.get? id = _
    cases hr : command.isRemoval with
    | false =>
      rcases hx.persisted_call command hr with h | h
      · rw [h]
      · rw [h, StoreCommand.get?_effect he]
    | true =>
      cases command with
      | erase id' =>
        have hid : id ≠ id' := (bne_iff_ne.1 he).symm
        rcases hx.persisted_erase id' with h | h | ⟨n, h⟩
        · rw [h]
        · rw [h, Contents.get?_remove_of_ne hid]
        · rw [h, Contents.get?_blank_of_ne hid]
      | format => cases he
      | _ => cases hr

/-- A run that leaves an id alone leaves its value on flash, wherever power is cut. -/
theorem Sound.get?_play (hx : x.Sound) {events : List Event}
    (he : ∀ e ∈ events, e.spares id = true) :
    (x.play events).persisted.get? id = x.persisted.get? id := by
  refine Sound.play_induction (P := fun y => y.persisted.get? id = x.persisted.get? id)
    ?_ hx rfl he
  intro y e hy hspares hkept
  exact (hy.get?_step hspares).trans hkept

/-- A settings command for other ids leaves the value of an id on flash. -/
lemma Sound.get?_setting (hx : x.Sound) {command : SettingCommand}
    (h : ∀ call, command.Makes call → call.spares id = true) :
    (x.step (.setting command)).2.persisted.get? id = x.persisted.get? id := by
  obtain ⟨calls, hcalls, hstep⟩ := step_setting command x
  rw [hstep]
  refine hx.get?_play ?_
  intro e he
  obtain ⟨call, hcall, rfl⟩ := List.mem_map.1 he
  exact h call (hcalls call hcall)

end Session

end FlashStore
