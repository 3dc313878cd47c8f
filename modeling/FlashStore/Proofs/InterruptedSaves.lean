import FlashStore.Proofs.Interruptions
import FlashStore.Proofs.LastSaved
import FlashStore.Proofs.Restarts

/-!
# Interrupted saves

Saving a calibration or the display settings writes several values one after another. When power is
cut in between, a restart finds the first few of them saved and the others as they were: each write
is stored or not, a store that a failure has put out of service refuses the rest, and a value that
is stored already is passed over.
-/

namespace FlashStore

open LawfulFlash Store SettingM

variable {δ : Type} [FlashDevice δ] [LawfulFlash δ] {s : Store δ} {id value : Word}

/-! ### Valid stores -/

/-- Valid, in service or not, with these values. -/
structure Store.Bears (s : Store δ) (values : Values) : Prop where
  operable : s.Operable
  valid : s.view.Valid s.placement
  values_eq : s.values = values

omit [LawfulFlash δ] in
/-- A word is loaded from a record that is found. -/
lemma exists_find_of_loadWord (h : loadWord id s = .ok (some value)) :
    ∃ r, s.find id = .ok r := by
  cases hfind : s.find id with
  | ok r => exact ⟨r, rfl⟩
  | error e =>
    rw [loadWord, readInto, hfind] at h
    cases e <;> cases h

/-- A word is loaded in service only, and it is stored. -/
lemma Store.Bears.values_of_loadWord (hs : s.Bears s.values)
    (h : loadWord id s = .ok (some value)) : s.values id = some value.toBytes := by
  obtain ⟨r, hr⟩ := exists_find_of_loadWord h
  have hin := (exists_lookup_of_find hs.operable hs.valid hr).1
  exact Store.Serving.values_of_loadWord ⟨hs.operable, hs.valid.serves hin⟩ h

/-- A write stores its value, or fails and may have stored it. It leaves a valid store. -/
lemma Store.Bears.ensures_write (hs : s.Bears s.values) (id : Word) (data : List UInt8) :
    Ensures (write id data) s (fun _ s' => s'.Bears (Function.update s.values id (some data)))
      (fun _ s' => s'.Bears s.values ∨
        s'.Bears (Function.update s.values id (some data))) := by
  obtain ⟨k, hend⟩ := StoreCommand.ends_write hs.operable hs.valid id data
  have hput := (s.placement.persisted s.word).get?_put_eq_update id data
  have hbears {s' : Store δ} {a : Answer} {c : Contents}
      (h : (StoreCommand.write id data).Ends s k a s') (hc : s.placement.persisted s'.word = c) :
      s'.Bears c.get? := by
    have hplace := h.continues.placement_eq
    exact ⟨h.operable, hplace ▸ h.valid, by rw [values, hplace, hc]⟩
  refine Ensures.mono (Ensures.self (write id data) s) ?_ ?_
  · intro _ s' hrun
    rw [answer_of_ok hrun] at hend
    exact hput ▸ hbears hend hend.accounted
  · intro e s' hrun
    rw [answer_of_error hrun] at hend
    rcases hend.accounted.eq_or_eq_effect rfl with h | h
    · exact Or.inl (hbears hend h)
    · exact Or.inr (hput ▸ hbears hend h)

/-- Stores stay valid whatever their device does. -/
lemma course_bears : Course (fun (_ : Store δ) values s' => s'.Bears values) where
  values_eq h := h.values_eq
  self h := ⟨h.operable, h.valid, rfl⟩
  trans _ h := h
  values_of_loadWord h hload := h.values_of_loadWord hload
  write id data h := h.ensures_write id data

/-! ### Restarts -/

namespace Session

variable {size page : Nat} [NorFlash.WordPages page] {x : Session (NorFlash size page)}
  {s : Store (NorFlash size page)} {c : Contents} {e : Event}

/-- A settings command that only stores makes its assignments, or fails after the first few. After a
restart that is what is held, whatever the device has done meanwhile. -/
lemma Sound.prefix_after_recovery {α : Type} {y : SettingM (NorFlash size page) α} {f : α → Answer}
    {entries : List Assignment} (hx : x.Sound) (h : x.store? = some s) (command : SettingCommand)
    (hrun : ∀ s, command.run s = y.answer f s)
    (hy : Performs (fun _ values s' => s'.Bears values) entries y) (he : e.isRecovery = true) :
    let a := x.step (.setting command)
    let r := (a.2.step .restorePower).2.step e.command
    r.1 = .done ∧ ∃ c', r.2.Holds c' ∧ ∃ k ≤ entries.length,
      c'.get? = assign (entries.take k) x.persisted.get? ∧
      ((∀ e, a.1 ≠ .settingError e) → k = entries.length) := by
  obtain ⟨hp, -, hs, hv⟩ := hx s h
  have hsound := hx.step_command (.setting command)
  have hends := hy s ⟨hs, hp ▸ hv, rfl⟩
  have hvalues : s.values = x.persisted.get? := by
    rw [values, hp, persisted_of_store? h]
  rw [step_setting_of_store? h, hrun] at hsound ⊢
  have hplace := (hsound _ rfl).placement_eq
  obtain ⟨hdone, hholds⟩ := hsound.holds_after_recovery (hsound _ rfl).accepts rfl he
  refine ⟨hdone, _, hholds, ?_⟩
  rw [persisted_of_store? rfl, ← hplace, ← hvalues]
  change ∃ k ≤ _, (y.answer f s).2.values = _ ∧ _
  unfold SettingM.answer
  cases hend : y.run s with
  | ok b s' =>
    refine ⟨entries.length, Nat.le_refl _, ?_, fun _ => rfl⟩
    rw [List.take_length]
    exact (Ensures.of_ok hends hend).values_eq
  | error e s' =>
    obtain ⟨k, hk⟩ := Ensures.of_error hends hend
    refine ⟨min k entries.length, Nat.min_le_right _ _, ?_, fun hok => absurd rfl (hok e)⟩
    rw [← List.take_take, List.take_length]
    exact hk.values_eq

/-! ### Calibrations and display settings -/

/-- The first few coefficients have their new values and nothing else has changed. -/
lemma assign_take_coefficients (data : Coefficient → List UInt8) (values : Values) (k : Nat) :
    let values' := assign ((Coefficient.all.map fun q => (q.id, some (data q))).take k) values
    (∀ q ∈ Coefficient.all.take k, values' q.id = some (data q)) ∧
      (∀ q ∈ Coefficient.all.drop k, values' q.id = values q.id) ∧
      ∀ id, (∀ q : Coefficient, q.id ≠ id) → values' id = values id := by
  intro values'
  have hvalues' : values' =
      assign ((Coefficient.all.take k).map fun q => (q.id, some (data q))) values := by
    rw [List.map_take]
  rw [hvalues']
  refine ⟨?_, ?_, ?_⟩
  · intro q hq
    refine assign_of_forall (List.mem_map.2 ⟨q, hq, rfl⟩) (fun data' hdata => ?_) values
    obtain ⟨q', -, heq⟩ := List.mem_map.1 hdata
    obtain ⟨hid, rfl⟩ := Prod.mk.inj heq
    rw [Coefficient.id_injective hid]
  · intro q hq
    refine assign_of_ne (fun entry hentry => ?_) values
    obtain ⟨q', hq', rfl⟩ := List.mem_map.1 hentry
    have hnodup : (Coefficient.all.take k ++ Coefficient.all.drop k).Nodup := by
      rw [List.take_append_drop]
      exact Coefficient.all_nodup
    have hne := (List.nodup_append.1 hnodup).2.2 q' hq' q hq
    exact fun hid => hne (Coefficient.id_injective hid)
  · intro id hid
    refine assign_of_ne (fun entry hentry => ?_) values
    obtain ⟨q, -, rfl⟩ := List.mem_map.1 hentry
    exact hid q

/-- Of two values none, the first or both have been assigned, and nothing else has changed. -/
lemma assign_take_pair {id id' : Word} (hne : id' ≠ id) (data data' : Option (List UInt8))
    (values : Values) {k : Nat} (hk : k ≤ 2) :
    let values' := assign ([(id, data), (id', data')].take k) values
    (values' id = values id ∧ values' id' = values id' ∨
        values' id = data ∧ values' id' = values id' ∨ values' id = data ∧ values' id' = data') ∧
      (∀ id'', id'' ≠ id → id'' ≠ id' → values' id'' = values id'') ∧
      (k = 2 → values' id = data ∧ values' id' = data') := by
  have hfirst : Function.update values id data id' = values id' := Function.update_of_ne hne _ _
  match k, hk with
  | 0, _ => exact ⟨Or.inl ⟨rfl, rfl⟩, fun _ _ _ => rfl, nofun⟩
  | 1, _ =>
    refine ⟨Or.inr (Or.inl ⟨Function.update_self _ _ _, hfirst⟩), ?_, nofun⟩
    exact fun id'' h _ => Function.update_of_ne h _ _
  | 2, _ =>
    have hboth : Function.update (Function.update values id data) id' data' id = data ∧
        Function.update (Function.update values id data) id' data' id' = data' := by
      rw [Function.update_of_ne hne.symm, Function.update_self, Function.update_self]
      exact ⟨rfl, rfl⟩
    refine ⟨Or.inr (Or.inr hboth), fun id'' h h' => ?_, fun _ => hboth⟩
    exact (Function.update_of_ne h' _ _).trans (Function.update_of_ne h _ _)

omit [NorFlash.WordPages page] in
/-- A brightness out of range is refused. -/
lemma answer_saveDisplay_of_lt {display : Display} (h : x.store? = some s)
    (hlt : Display.maxBrightness < display.brightness) :
    (x.step (.setting (.saveDisplay display))).1 = .settingError .outOfRange := by
  rw [step_setting_of_store? h]
  simp [SettingCommand.run, SettingM.answer, Display.save, hlt]

/-- On flash whose pages hold whole words, a restart succeeds when power is cut after some programs
and erases of a save of several values. Of the ten coefficients it finds the first few with their
new values and the rest as they were, of the display settings none, the inversion, or both with the
new value. A save that answers with success has saved everything, and no other value is touched. -/
theorem prefix_after_cut_save (d : NorFlash size page) (p : Placement) (commands : List Command)
    (hc : (run commands (start d p)).Holds c) (n : Nat) (he : e.isRecovery = true) :
    let x := ((run commands (start d p)).step (.cutPowerAfter n)).2
    (∀ cal : Calibration,
      let a := x.step (.setting (.saveCalibration cal))
      let r := (a.2.step .restorePower).2.step e.command
      r.1 = .done ∧ ∃ c', r.2.Holds c' ∧ ∃ k ≤ 10,
        (∀ q ∈ Coefficient.all.take k, c'.get? q.id = some (cal q).bits.toBytes) ∧
        (∀ q ∈ Coefficient.all.drop k, c'.get? q.id = c.get? q.id) ∧
        (∀ id, (∀ q : Coefficient, q.id ≠ id) → c'.get? id = c.get? id) ∧
        ((∃ m, a.1 = .count m) → k = 10)) ∧
    (∀ display : Display,
      let a := x.step (.setting (.saveDisplay display))
      let r := (a.2.step .restorePower).2.step e.command
      let inversion := some (Word.toBytes display.inverted.toUInt32)
      let brightness := some (Word.toBytes display.brightness.toUInt32)
      r.1 = .done ∧ ∃ c', r.2.Holds c' ∧
        (c'.get? Parameter.inversion.id = c.get? Parameter.inversion.id ∧
            c'.get? Parameter.brightness.id = c.get? Parameter.brightness.id ∨
          c'.get? Parameter.inversion.id = inversion ∧
            c'.get? Parameter.brightness.id = c.get? Parameter.brightness.id ∨
          c'.get? Parameter.inversion.id = inversion ∧
            c'.get? Parameter.brightness.id = brightness) ∧
        (∀ id, id ≠ Parameter.inversion.id → id ≠ Parameter.brightness.id →
          c'.get? id = c.get? id) ∧
        ((∃ b, a.1 = .flag b) → c'.get? Parameter.inversion.id = inversion ∧
          c'.get? Parameter.brightness.id = brightness)) := by
  intro x
  have hsound := (sound_start d p).run commands
  obtain ⟨hx, hpers⟩ : x.Sound ∧ x.persisted = _ := hsound.cutPowerAfter n
  rw [hsound.persisted_of_holds hc] at hpers
  -- The store is still open under the cut.
  obtain ⟨s, h⟩ : ∃ s, x.store? = some s := by
    obtain ⟨s, h, -⟩ := hc
    refine ⟨{ s with device := s.device.cutPowerAfter n }, ?_⟩
    show (step (.cutPowerAfter n) (run commands (start d p))).2.store? = _
    rw [eq_of_store? h]
    rfl
  constructor
  · intro cal a r
    -- Ten assignments, of which the first `k` were made.
    obtain ⟨hdone, c', hholds, k, hk, hget, hok⟩ := hx.prefix_after_recovery h
      (.saveCalibration cal) (fun _ => rfl) (performs_saveEach course_bears cal Coefficient.all) he
    rw [hpers] at hget
    obtain ⟨hnew, hold, hother⟩ := assign_take_coefficients (fun q => (cal q).bits.toBytes) c.get? k
    rw [← hget] at hnew hold hother
    refine ⟨hdone, c', hholds, k, hk, hnew, hold, hother, ?_⟩
    rintro ⟨m, hm⟩
    exact hok fun e' he' => nomatch hm.symm.trans he'
  · intro display a r inversion brightness
    -- Two assignments or none, as a brightness out of range is refused first.
    obtain ⟨hdone, c', hholds, k, hk, hget, hok⟩ := hx.prefix_after_recovery h
      (.saveDisplay display) (fun _ => rfl) (performs_saveDisplay course_bears display) he
    rw [hpers] at hget
    refine ⟨hdone, c', hholds, ?_⟩
    by_cases hlt : Display.maxBrightness < display.brightness
    · rw [if_pos hlt] at hget
      have hsame : c'.get? = c.get? := by
        rw [hget, List.take_nil, assign_nil]
      have hrefused : a.1 = .settingError .outOfRange := answer_saveDisplay_of_lt h hlt
      refine ⟨Or.inl ⟨?_, ?_⟩, ?_, ?_⟩
      · rw [hsame]
      · rw [hsame]
      · intro id _ _
        rw [hsame]
      · rintro ⟨b, hb⟩
        cases hrefused.symm.trans hb
    · rw [if_neg hlt] at hget hk hok
      have hne : Parameter.brightness.id ≠ Parameter.inversion.id := by decide
      obtain ⟨hcases, hother, hboth⟩ := assign_take_pair hne inversion brightness c.get? hk
      rw [← hget] at hcases hother hboth
      refine ⟨hcases, hother, ?_⟩
      rintro ⟨b, hb⟩
      exact hboth (hok fun e he' => nomatch hb.symm.trans he')

/-- Power that lasts for four programs of saving a calibration leaves its first coefficient. -/
theorem prefix_after_cut_save_of_four :
    let x := (run [.opening .mount none] (start NorFlash.blank ⟨0, 48, 48, 0⟩) :
      Session (NorFlash 96 24))
    let a := (x.step (.cutPowerAfter 4)).2.step (.setting (.saveCalibration fun _ => ⟨1⟩))
    let r := (a.2.step .restorePower).2.step (.opening .reboot none)
    x.Holds [] ∧ r.1 = .done ∧ r.2.Holds [⟨5, [1, 0, 0, 0]⟩] := by
  intro x a r
  have hx : x.Holds [] := by decide +kernel
  have hrecovery : (Event.opening .reboot).isRecovery = true := rfl
  obtain ⟨hdone, -⟩ := (prefix_after_cut_save NorFlash.blank ⟨0, 48, 48, 0⟩ [.opening .mount none]
    hx 4 hrecovery).1 fun _ => ⟨1⟩
  exact ⟨hx, hdone, by decide +kernel⟩

end Session

end FlashStore
