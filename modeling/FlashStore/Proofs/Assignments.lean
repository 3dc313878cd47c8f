import FlashStore.Proofs.ReadyStores

/-!
# Settings as assignments

A settings operation stores and removes values under fixed ids, one after another. An operation that
succeeds has made all of its assignments, and one that fails the first few: `SettingM.Performs` says
so of any `Course` of stores, and goes through sequences by appending the assignments. A value that
is stored already need not be written again for this. On a device that never refuses, removals are
assignments as well, which makes every settings command one of `SettingM.Assigns`.
-/

namespace FlashStore

open LawfulFlash Store

/-! ### Assignments -/

/-- An id with the value it is to have, `none` to remove the one it has. -/
abbrev Assignment := Word × Option (List UInt8)

/-- The values after assignments one after another. -/
def assign (entries : List Assignment) (values : Values) : Values :=
  entries.foldl (fun values entry => Function.update values entry.1 entry.2) values

@[simp] lemma assign_nil (values : Values) : assign [] values = values := rfl

@[simp] lemma assign_singleton (id : Word) (data : Option (List UInt8)) (values : Values) :
    assign [(id, data)] values = Function.update values id data := rfl

lemma assign_cons (entry : Assignment) (entries : List Assignment) (values : Values) :
    assign (entry :: entries) values =
      assign entries (Function.update values entry.1 entry.2) := rfl

lemma assign_append (entries entries' : List Assignment) (values : Values) :
    assign (entries ++ entries') values = assign entries' (assign entries values) :=
  List.foldl_append

/-- What is not assigned keeps its value. -/
lemma assign_of_ne {entries : List Assignment} {id : Word} (h : ∀ entry ∈ entries, entry.1 ≠ id)
    (values : Values) : assign entries values id = values id := by
  induction entries generalizing values with
  | nil => rfl
  | cons entry entries ih =>
    rw [assign_cons, ih fun e he => h e (List.mem_cons_of_mem _ he)]
    exact Function.update_of_ne (h entry List.mem_cons_self).symm _ _

/-- What is assigned one value only has that value. -/
lemma assign_of_forall {entries : List Assignment} {id : Word} {data : Option (List UInt8)}
    (hmem : (id, data) ∈ entries) (h : ∀ data', (id, data') ∈ entries → data' = data)
    (values : Values) : assign entries values id = data := by
  induction entries generalizing values with
  | nil => cases hmem
  | cons entry entries ih =>
    rw [assign_cons]
    by_cases hrest : (id, data) ∈ entries
    · exact ih hrest (fun data' hd => h data' (List.mem_cons_of_mem _ hd)) _
    · obtain rfl := (List.mem_cons.1 hmem).resolve_right hrest
      -- No later entry names the id: it would assign the same value.
      have hne : ∀ e ∈ entries, e.1 ≠ id := by
        rintro ⟨id', data'⟩ he rfl
        obtain rfl := h data' (List.mem_cons_of_mem _ he)
        exact hrest he
      rw [assign_of_ne hne]
      exact Function.update_self id data values

/-! ### Courses -/

variable {δ α β : Type} [FlashDevice δ] {s s' : Store δ} {entries entries' : List Assignment}

/-- How stores get on: `R s values s'` says that `s` has come to be `s'`, with these values. A word
that is loaded is stored, and a write stores its value, or fails and may have stored it. -/
structure Course (R : Store δ → Values → Store δ → Prop) : Prop where
  values_eq {s s' : Store δ} {values : Values} : R s values s' → s'.values = values
  self {s s' : Store δ} {values : Values} : R s values s' → R s' s'.values s'
  trans {s s' s'' : Store δ} {values values' : Values} :
    R s values s' → R s' values' s'' → R s values' s''
  values_of_loadWord {s : Store δ} {id value : Word} :
    R s s.values s → loadWord id s = .ok (some value) → s.values id = some value.toBytes
  write {s : Store δ} (id : Word) (data : List UInt8) : R s s.values s →
    Ensures (write id data) s (fun _ s' => R s (Function.update s.values id (some data)) s')
      (fun _ s' => R s s.values s' ∨ R s (Function.update s.values id (some data)) s')

namespace SettingM

variable {x : SettingM δ α} {R : Store δ → Values → Store δ → Prop}

/-- From this store on, the operation makes all of these assignments or fails after a few. -/
def PerformsAt (R : Store δ → Values → Store δ → Prop) (s : Store δ) (entries : List Assignment)
    (x : SettingM δ α) : Prop :=
  Ensures x s (fun _ s' => R s (assign entries s.values) s')
    (fun _ s' => ∃ k, R s (assign (entries.take k) s.values) s')

/-- The operation makes all of these assignments or fails after the first few. -/
def Performs (R : Store δ → Values → Store δ → Prop) (entries : List Assignment)
    (x : SettingM δ α) : Prop :=
  ∀ s : Store δ, R s s.values s → PerformsAt R s entries x

lemma PerformsAt.of_ok {a : α} (hs : R s s.values s) (hx : x.run s = .ok a s)
    (h : assign entries s.values = s.values) : PerformsAt R s entries x :=
  .intro_ok hx (h.symm ▸ hs)

lemma PerformsAt.of_error {e : SettingError} (hs : R s s.values s) (hx : x.run s = .error e s) :
    PerformsAt R s entries x := .intro_error hx ⟨0, hs⟩

namespace Performs

lemma pure (a : α) : Performs R [] (Pure.pure a : SettingM δ α) := fun _ hs => .of_ok hs rfl rfl

lemma throw (e : SettingError) : Performs R entries (MonadExcept.throw e : SettingM δ α) :=
  fun _ hs => .of_error hs rfl

lemma throw_bind (e : SettingError) (f : α → SettingM δ β) :
    Performs R entries (MonadExcept.throw e >>= f) := fun _ hs => .of_error hs rfl

variable (hR : Course R)
include hR

/-- The assignments of a sequence are those of its parts. -/
lemma bind {f : α → SettingM δ β} (hx : Performs R entries x)
    (hf : ∀ a, Performs R entries' (f a)) : Performs R (entries ++ entries') (x >>= f) := by
  intro s hs
  refine Ensures.bind (Ensures.mono (hx s hs) (fun _ _ h => h) ?_) ?_
  · rintro e s' ⟨k, hk⟩
    refine ⟨min k entries.length, ?_⟩
    rw [List.take_append_of_le_length (Nat.min_le_right _ _), ← List.take_take, List.take_length]
    exact hk
  · intro a s' hs'
    refine Ensures.mono (hf a s' (hR.self hs')) ?_ ?_
    · intro b s'' h
      rw [assign_append, ← hR.values_eq hs']
      exact hR.trans hs' h
    · rintro e s'' ⟨k, h⟩
      refine ⟨entries.length + k, ?_⟩
      rw [List.take_length_add_append, assign_append, ← hR.values_eq hs']
      exact hR.trans hs' h

/-- Whatever is done with the result of an operation, it makes the same assignments. -/
lemma bind_pure (hx : Performs R entries x) (f : α → β) :
    Performs R entries (x >>= fun a => Pure.pure (f a)) := by
  have h := hx.bind hR fun a => pure (f a)
  rwa [List.append_nil] at h

end Performs

/-! ### Settings operations -/

variable (hR : Course R)
include hR

lemma performs_write (id : Word) (data : List UInt8) :
    Performs R [(id, some data)] (onStore (Store.write id data) : SettingM δ Unit) := by
  intro s hs
  have h := hR.write id data hs
  unfold PerformsAt Ensures
  rw [run_onStore]
  cases hx : (Store.write id data).run s with
  | ok u s' => exact h.of_ok hx
  | error e s' =>
    rcases h.of_error hx with h | h
    · exact ⟨0, h⟩
    · exact ⟨1, h⟩

lemma performs_updateWord (id value : Word) :
    Performs R [(id, some value.toBytes)] (updateWord id value : SettingM δ Bool) := by
  intro s hs
  by_cases h : loadWord id s = .ok (some value)
  · refine .of_ok hs (run_updateWord_of_stored h) ?_
    rw [assign_singleton, ← hR.values_of_loadWord hs h, Function.update_eq_self]
  · have hsave := (performs_write hR id value.toBytes).bind_pure hR (fun _ => true) s hs
    unfold PerformsAt Ensures at hsave ⊢
    rw [run_updateWord_of_ne h]
    exact hsave

lemma performs_saveEach (cal : Calibration) (cs : List Coefficient) :
    Performs R (cs.map fun c => (c.id, some (cal c).bits.toBytes))
      (cal.saveEach cs : SettingM δ Nat) := by
  induction cs with
  | nil => exact .pure 0
  | cons c cs ih =>
    exact (performs_updateWord hR c.id _).bind hR fun written => ih.bind_pure hR _

lemma performs_store (name : String) (x : Single) :
    Performs R ((Coefficient.ofName? name).toList.map fun c => (c.id, some x.bits.toBytes))
      (Calibration.store name x : SettingM δ Unit) := by
  unfold Calibration.store
  cases Coefficient.ofName? name with
  | none => exact .throw _
  | some c => exact (performs_updateWord hR c.id x.bits).bind_pure hR _

/-- Both display settings are stored, unless the brightness is out of range. -/
lemma performs_saveDisplay (d : Display) :
    Performs R (if Display.maxBrightness < d.brightness then []
        else [(Parameter.inversion.id, some (Word.toBytes d.inverted.toUInt32)),
          (Parameter.brightness.id, some (Word.toBytes d.brightness.toUInt32))])
      (d.save : SettingM δ Bool) := by
  unfold Display.save
  split
  · exact .throw_bind _ _
  · exact (performs_updateWord hR _ _).bind hR fun _ => (performs_updateWord hR _ _).bind_pure hR _

end SettingM

/-! ### Settings of stores that cannot fail -/

variable [LawfulFlash δ]

/-- Stores that are ready stay so. -/
lemma course_becomes : Course (Becomes : Store δ → Values → Store δ → Prop) where
  values_eq h := h.values_eq
  self h := h.ready.becomes_self
  trans h h' := h.trans h'
  values_of_loadWord h hload := h.ready.serving.values_of_loadWord hload
  write id data h :=
    Ensures.mono (h.ready.ensures_write id data) (fun _ _ h => h.2) fun _ _ h => Or.inl h.2

namespace SettingM

variable {x : SettingM δ α}

lemma performs_removeWord (id : Word) :
    Performs Becomes [(id, none)] (removeWord id : SettingM δ Unit) := by
  intro s hs
  have h := hs.ready.ensures_erase id
  unfold PerformsAt Ensures
  rw [run_removeWord]
  cases hx : (Store.erase id).run s with
  | ok u s' => exact h.of_ok hx
  | error e s' =>
    obtain ⟨rfl, hnone⟩ := h.of_error hx
    cases e with
    | notFound =>
      refine (?_ : s'.Becomes (assign [(id, none)] s'.values) s')
      rw [assign_singleton, ← hnone rfl, Function.update_eq_self]
      exact hs
    | _ => exact ⟨0, hs⟩

lemma performs_forM_removeWord (cs : List Coefficient) :
    Performs Becomes (cs.map fun c => (c.id, none))
      (cs.forM fun c => removeWord c.id : SettingM δ PUnit) := by
  induction cs with
  | nil => exact .pure _
  | cons c cs ih => exact (performs_removeWord c.id).bind course_becomes fun _ => ih

/-- A value that is saved is assigned. -/
lemma performs_of_saves {y : SettingM δ Bool} {id : Word} {data : List UInt8}
    (h : ∀ s : Store δ, s.Ready → Saves s id data y) : Performs Becomes [(id, some data)] y := by
  intro s hs
  refine Ensures.mono ((h s hs.ready).ensures hs.ready) ?_ ?_
  · rintro b s' ⟨-, -, hs'⟩
    exact hs'
  · rintro e s' ⟨-, -, hs'⟩
    exact ⟨0, hs'⟩

/-- A version is stored unless it is stored already, or too long. -/
lemma performs_syncVersion (image : Firmware) (version : String) :
    Performs Becomes (if Firmware.maxVersionLength < (versionBytes version).length then []
        else [(image.versionId, some (versionBytes version))])
      (image.syncVersion version : SettingM δ Bool) := by
  split
  · rename_i hlt
    change Firmware.maxVersionLength < version.toUTF8.data.toList.length at hlt
    simp only [Firmware.syncVersion, if_pos hlt]
    exact Performs.throw_bind _ _
  · rename_i hlen
    exact performs_of_saves fun s hs => hs.serving.saves_syncVersion image (Nat.not_lt.1 hlen)

/-- From this ready store on, the operation makes all of these assignments or fails after a few. -/
def AssignsAt (s : Store δ) (entries : List Assignment) (x : SettingM δ α) : Prop :=
  Ensures x s (fun _ s' => s.Becomes (assign entries s.values) s')
    (fun _ s' => ∃ k, s.Becomes (assign (entries.take k) s.values) s')

/-- From ready stores on, the operation makes all of these assignments or fails after the first
few. -/
def Assigns (entries : List Assignment) (x : SettingM δ α) : Prop :=
  ∀ s : Store δ, s.Ready → AssignsAt s entries x

lemma Performs.assigns (h : Performs Becomes entries x) : Assigns entries x :=
  fun s hs => h s hs.becomes_self

/-- Whatever the operation answers, the store makes these assignments or the first few. -/
lemma Assigns.answer (hx : Assigns entries x) (hs : s.Ready) (f : α → Answer) :
    ((∀ e, (x.answer f s).1 ≠ .settingError e) →
      s.Becomes (assign entries s.values) (x.answer f s).2) ∧
    ∃ k, s.Becomes (assign (entries.take k) s.values) (x.answer f s).2 := by
  have h := hx s hs
  unfold SettingM.answer
  cases hrun : x.run s with
  | ok a s' =>
    refine ⟨fun _ => Ensures.of_ok h hrun, entries.length, ?_⟩
    rw [List.take_length]
    exact Ensures.of_ok h hrun
  | error e s' => exact ⟨fun hok => absurd rfl (hok e), Ensures.of_error h hrun⟩

end SettingM

/-! ### Commands -/

namespace SettingCommand

/-- The assignments that a settings command makes. -/
def assignments : SettingCommand → List Assignment
  | saveCalibration cal => Coefficient.all.map fun c => (c.id, some (cal c).bits.toBytes)
  | saveCoefficient name x =>
    (Coefficient.ofName? name).toList.map fun c => (c.id, some x.bits.toBytes)
  | clearCalibration => Coefficient.all.map fun c => (c.id, none)
  | saveOutput o => [(Parameter.output.id, some o.pack.toBytes)]
  | saveDisplay d =>
    if Display.maxBrightness < d.brightness then []
    else [(Parameter.inversion.id, some (Word.toBytes d.inverted.toUInt32)),
      (Parameter.brightness.id, some (Word.toBytes d.brightness.toUInt32))]
  | saveScreen number key value =>
    (Screen.ofNumber? number).toList.map fun screen => (screen.id key, some value.toBytes)
  | syncVersion image version =>
    if Firmware.maxVersionLength < (versionBytes version).length then []
    else [(image.versionId, some (versionBytes version))]
  | startUpgrade => [(Upgrade.markId, some (1 : Word).toBytes)]
  | finishUpgrade => [(Upgrade.markId, none)]
  | _ => []

open SettingM in
/-- Short of a factory reset, a settings command makes its assignments, or the first few if it
fails. -/
theorem run_assigns [Addressable δ] (hs : s.Ready) {command : SettingCommand}
    (hreset : command ≠ factoryReset) :
    ((∀ e, (command.run s).1 ≠ .settingError e) →
      s.Becomes (assign command.assignments s.values) (command.run s).2) ∧
    ∃ k, s.Becomes (assign (command.assignments.take k) s.values) (command.run s).2 := by
  have hquestion : (s.Becomes (assign [] s.values) s) ∧
      ∃ k, s.Becomes (assign (List.take k []) s.values) s :=
    ⟨hs.becomes_self, 0, hs.becomes_self⟩
  have hR : Course (Becomes : Store δ → Values → Store δ → Prop) := course_becomes
  cases command with
  | loadCalibration | loadOutput | loadDisplay | storedVersion | isUpgradePending | boot =>
    exact ⟨fun _ => hquestion.1, hquestion.2⟩
  | loadScreen number key =>
    simp only [run]
    cases Screen.ofNumber? number with
    | none => exact ⟨fun _ => hquestion.1, hquestion.2⟩
    | some screen => exact ⟨fun _ => hquestion.1, hquestion.2⟩
  | saveCalibration cal => exact (performs_saveEach hR cal _).assigns.answer hs _
  | saveCoefficient name x => exact (performs_store hR name x).assigns.answer hs _
  | clearCalibration => exact (performs_forM_removeWord _).assigns.answer hs _
  | saveOutput o => exact (performs_updateWord hR _ _).assigns.answer hs _
  | saveDisplay d => exact (performs_saveDisplay hR d).assigns.answer hs _
  | saveScreen number key value =>
    simp only [run, assignments]
    cases Screen.ofNumber? number with
    | none => exact ⟨fun _ => hquestion.1, hquestion.2⟩
    | some screen => exact (performs_updateWord hR _ _).assigns.answer hs _
  | syncVersion image version => exact (performs_syncVersion image version).assigns.answer hs _
  | startUpgrade => exact (performs_write hR _ _).assigns.answer hs _
  | finishUpgrade => exact (performs_removeWord _).assigns.answer hs _
  | factoryReset => exact absurd rfl hreset

end SettingCommand

end FlashStore
