import FlashStore.Proofs.Sessions

/-!
# Settings as calls of the store

Settings reach flash through calls of the store only, and each command for its own ids. So a
settings command is nothing new in the life of a store: it leaves what some calls leave, and what
every call keeps it keeps as well.
-/

namespace FlashStore

variable {δ α β : Type} [FlashDevice δ] [Addressable δ]

/-- The store that calls leave one after another. -/
def StoreCommand.leave (calls : List StoreCommand) (s : Store δ) : Store δ :=
  calls.foldl (fun s command => (command.run s).2) s

lemma StoreCommand.leave_append (calls calls' : List StoreCommand) (s : Store δ) :
    leave (calls ++ calls') s = leave calls' (leave calls s) := List.foldl_append

/-! ### Operations -/

namespace SettingM

variable {P : StoreCommand → Prop} {x : SettingM δ α}

/-- However the operation ends, it leaves the second store. -/
def Leaves (x : SettingM δ α) (s s' : Store δ) : Prop :=
  Ensures x s (fun _ t => t = s') (fun _ t => t = s')

/-- However the operation ends, it leaves what calls of this kind leave. -/
def Makes (P : StoreCommand → Prop) (x : SettingM δ α) : Prop :=
  ∀ s, ∃ calls : List StoreCommand, (∀ command ∈ calls, P command) ∧
    Leaves x s (StoreCommand.leave calls s)

lemma Makes.of_leaves_self (h : ∀ s, Leaves x s s) : Makes P x := fun s => ⟨[], nofun, h s⟩

lemma Makes.pure (a : α) : Makes P (Pure.pure a : SettingM δ α) := .of_leaves_self fun _ => rfl

lemma Makes.throw (e : SettingError) : Makes P (MonadExcept.throw e : SettingM δ α) :=
  .of_leaves_self fun _ => rfl

lemma Makes.bind {f : α → SettingM δ β} (hx : Makes P x) (hf : ∀ a, Makes P (f a)) :
    Makes P (x >>= f) := by
  intro s
  obtain ⟨calls, hcalls, h⟩ := hx s
  cases hrun : x.run s with
  | ok a s₁ =>
    obtain ⟨calls', hcalls', h'⟩ := hf a s₁
    obtain rfl := h.of_ok hrun
    refine ⟨calls ++ calls', ?_, ?_⟩
    · intro command hcommand
      exact (List.mem_append.1 hcommand).elim (hcalls command) (hcalls' command)
    · rw [StoreCommand.leave_append]
      refine Ensures.bind (Q := fun b s' => b = a ∧ s' = StoreCommand.leave calls s)
        (.intro_ok hrun ⟨rfl, rfl⟩) ?_
      rintro _ _ ⟨rfl, rfl⟩
      exact h'
  | error e s₁ =>
    have hbind : (x >>= f).run s = .error e s₁ := by rw [EStateM.run_bind, hrun]
    exact ⟨calls, hcalls, .intro_error hbind (h.of_error hrun)⟩

lemma Makes.get_bind {f : Store δ → SettingM δ α} (hf : ∀ s, Makes P (f s)) :
    Makes P (get >>= f) :=
  .bind (.of_leaves_self fun _ => rfl) hf

/-- A question to the store. -/
lemma makes_onStore_query (f : Store δ → Except StoreError α) :
    Makes P (onStore (Store.query f)) := by
  refine .of_leaves_self fun s => ?_
  unfold Leaves Ensures
  rw [run_onStore, Store.run_query]
  cases f s with
  | ok a => rfl
  | error e => rfl

/-- A call of the store, whatever becomes of its answer. -/
lemma makes_onStore {command : StoreCommand} {y : StoreM δ α} {f : α → Answer}
    (hrun : ∀ s, command.run s = y.answer f s) (h : P command) : Makes P (onStore y) := by
  intro s
  refine ⟨[command], List.forall_mem_singleton.2 h, ?_⟩
  have hleave : StoreCommand.leave [command] s = (y.answer f s).2 := congrArg Prod.snd (hrun s)
  unfold Leaves Ensures
  rw [hleave, StoreM.answer, run_onStore]
  cases y.run s with
  | ok a s' => rfl
  | error e s' => rfl

variable {id : Word}

lemma makes_updateWord (h : ∀ data, P (.write id data)) (value : Word) :
    Makes P (updateWord id value : SettingM δ Bool) := by
  have hsave : Makes P (do saveWord id value; return true : SettingM δ Bool) :=
    .bind (makes_onStore (fun _ => rfl) (h value.toBytes)) fun _ => .pure true
  unfold updateWord
  refine .get_bind fun s => ?_
  split
  · split
    · exact .pure false
    · exact hsave
  · exact hsave

omit [Addressable δ] in
lemma run_removeWord (s : Store δ) : (removeWord id).run s =
    match (Store.erase id).run s with
    | .ok () s' => .ok () s'
    | .error .notFound s' => .ok () s'
    | .error e s' => .error (.store e) s' := rfl

lemma makes_removeWord (h : P (.erase id)) : Makes P (removeWord id : SettingM δ Unit) := by
  intro s
  refine ⟨[.erase id], List.forall_mem_singleton.2 h, ?_⟩
  show Leaves _ s (StoreM.answer (Store.erase id) (fun _ => .done) s).2
  unfold Leaves Ensures StoreM.answer
  rw [run_removeWord]
  cases (Store.erase id).run s with
  | ok u s' => rfl
  | error e s' => cases e <;> rfl

lemma makes_saveEach (cal : Calibration) {cs : List Coefficient}
    (h : ∀ c ∈ cs, ∀ data, P (.write c.id data)) :
    Makes P (cal.saveEach cs : SettingM δ Nat) := by
  induction cs with
  | nil => exact .pure 0
  | cons c cs ih =>
    refine .bind (makes_updateWord (h c List.mem_cons_self) _) fun written => ?_
    exact .bind (ih fun c' hc' => h c' (List.mem_cons_of_mem _ hc')) fun rest => .pure _

lemma makes_forM_removeWord {cs : List Coefficient} (h : ∀ c ∈ cs, P (.erase c.id)) :
    Makes P (cs.forM fun c => removeWord c.id : SettingM δ PUnit) := by
  induction cs with
  | nil => exact .pure _
  | cons c cs ih =>
    refine .bind (makes_removeWord (h c List.mem_cons_self)) fun _ => ?_
    exact ih fun c' hc' => h c' (List.mem_cons_of_mem _ hc')

/-- Storing a coefficient by its name. -/
lemma makes_store {name : String}
    (h : ∀ c, Coefficient.ofName? name = some c → ∀ data, P (.write c.id data)) (x : Single) :
    Makes P (Calibration.store name x : SettingM δ Unit) := by
  unfold Calibration.store
  cases hname : Coefficient.ofName? name with
  | none => exact .throw _
  | some c => exact .bind (makes_updateWord (h c hname) _) fun _ => .pure _

lemma makes_saveDisplay (hinv : ∀ data, P (.write Parameter.inversion.id data))
    (hbright : ∀ data, P (.write Parameter.brightness.id data)) (d : Display) :
    Makes P (d.save : SettingM δ Bool) := by
  have hboth : Makes P (do
      let inversion ← updateWord Parameter.inversion.id d.inverted.toUInt32
      let brightness ← updateWord Parameter.brightness.id d.brightness.toUInt32
      return inversion || brightness : SettingM δ Bool) :=
    .bind (makes_updateWord hinv _) fun _ => .bind (makes_updateWord hbright _) fun _ => .pure _
  unfold Display.save
  split
  · exact .bind (.throw _) fun _ => hboth
  · exact hboth

lemma makes_syncVersion {image : Firmware} (h : ∀ data, P (.write image.versionId data))
    (version : String) : Makes P (image.syncVersion version : SettingM δ Bool) := by
  have hsync : Makes P (do
      if ← onStore (Store.query (image.isRecorded version.toUTF8.data.toList)) then
        return false
      onStore (Store.write image.versionId version.toUTF8.data.toList)
      return true : SettingM δ Bool) := by
    refine .bind (makes_onStore_query _) fun recorded => ?_
    split
    · exact .pure _
    · exact .bind (makes_onStore (fun _ => rfl) (h version.toUTF8.data.toList)) fun _ => .pure _
  unfold Firmware.syncVersion
  dsimp only
  split
  · exact .bind (.throw _) fun _ => hsync
  · exact hsync

/-- Whatever the operation answers, it leaves what calls of this kind leave. -/
lemma Makes.answer (h : Makes P x) (f : α → Answer) (s : Store δ) :
    ∃ calls : List StoreCommand, (∀ call ∈ calls, P call) ∧
      (x.answer f s).2 = StoreCommand.leave calls s := by
  obtain ⟨calls, hcalls, hx⟩ := h s
  refine ⟨calls, hcalls, ?_⟩
  unfold SettingM.answer
  cases hrun : x.run s with
  | ok a s' => exact hx.of_ok hrun
  | error e s' => exact hx.of_error hrun

end SettingM

/-! ### Commands -/

namespace SettingCommand

/-- The ids that a settings command stores or removes values of. -/
def ids : SettingCommand → List Word
  | saveCalibration _ | clearCalibration => Coefficient.all.map Coefficient.id
  | saveCoefficient name _ => (Coefficient.ofName? name).toList.map Coefficient.id
  | saveOutput _ => [Parameter.output.id]
  | saveDisplay _ => [Parameter.inversion.id, Parameter.brightness.id]
  | saveScreen number key _ => (Screen.ofNumber? number).toList.map fun screen => screen.id key
  | syncVersion image _ => [image.versionId]
  | startUpgrade | finishUpgrade => [Upgrade.markId]
  | _ => []

/-- The calls of the store that a settings command may make. -/
def Makes (command : SettingCommand) : StoreCommand → Prop
  | .write id _ | .erase id => id ∈ command.ids
  | .format => command = factoryReset
  | _ => False

/-- A command that only asks. -/
def asks : SettingCommand → Bool
  | loadCalibration _ | loadOutput | loadDisplay | loadScreen _ _ | storedVersion _
  | isUpgradePending | boot _ _ => true
  | _ => false

omit [Addressable δ] in
lemma run_of_asks {command : SettingCommand} (h : command.asks = true) (s : Store δ) :
    (command.run s).2 = s := by
  cases command with
  | loadCalibration | loadOutput | loadDisplay | storedVersion | isUpgradePending | boot => rfl
  | loadScreen number key =>
    simp only [run]
    cases Screen.ofNumber? number <;> rfl
  | _ => cases h

open SettingM in
/-- A settings command leaves what calls for its ids leave. -/
theorem run_eq_leave (command : SettingCommand) (s : Store δ) :
    ∃ calls : List StoreCommand, (∀ call ∈ calls, command.Makes call) ∧
      (command.run s).2 = StoreCommand.leave calls s := by
  have hquestion : ∃ calls : List StoreCommand, (∀ call ∈ calls, command.Makes call) ∧
      s = StoreCommand.leave calls s := ⟨[], nofun, rfl⟩
  -- For every operation it is enough that the ids it calls with are those of its command.
  cases command with
  | loadCalibration | loadOutput | loadDisplay | storedVersion | isUpgradePending | boot =>
    exact hquestion
  | loadScreen number key =>
    simp only [run]
    cases Screen.ofNumber? number with
    | none => exact hquestion
    | some screen => exact hquestion
  | saveCalibration cal =>
    have hids : ∀ c ∈ Coefficient.all, ∀ data,
        (saveCalibration cal).Makes (.write c.id data) :=
      fun c hc _ => List.mem_map_of_mem (f := Coefficient.id) hc
    exact (makes_saveEach cal hids).answer _ s
  | saveCoefficient name x =>
    have hids : ∀ c, Coefficient.ofName? name = some c → ∀ data,
        (saveCoefficient name x).Makes (.write c.id data) := by
      intro c hc data
      show c.id ∈ (Coefficient.ofName? name).toList.map Coefficient.id
      simp [hc]
    exact (makes_store hids x).answer _ s
  | clearCalibration =>
    have hids : ∀ c ∈ Coefficient.all, clearCalibration.Makes (.erase c.id) :=
      fun c hc => List.mem_map_of_mem (f := Coefficient.id) hc
    exact (makes_forM_removeWord hids).answer _ s
  | saveOutput o =>
    have hid : ∀ data, (saveOutput o).Makes (.write Parameter.output.id data) :=
      fun _ => List.mem_cons_self
    exact (makes_updateWord hid _).answer _ s
  | saveDisplay d =>
    have hinv : ∀ data, (saveDisplay d).Makes (.write Parameter.inversion.id data) :=
      fun _ => List.mem_cons_self
    have hbright : ∀ data, (saveDisplay d).Makes (.write Parameter.brightness.id data) :=
      fun _ => List.mem_cons_of_mem _ List.mem_cons_self
    exact (makes_saveDisplay hinv hbright d).answer _ s
  | saveScreen number key value =>
    simp only [run]
    -- Screen 0 keeps no values: the command does not reach the store.
    cases hnumber : Screen.ofNumber? number with
    | none => exact hquestion
    | some screen =>
      have hid : ∀ data, (saveScreen number key value).Makes (.write (screen.id key) data) := by
        intro data
        show screen.id key ∈ (Screen.ofNumber? number).toList.map fun screen => screen.id key
        simp [hnumber]
      exact (makes_updateWord hid _).answer _ s
  | syncVersion image version =>
    have hid : ∀ data, (syncVersion image version).Makes (.write image.versionId data) :=
      fun _ => List.mem_cons_self
    exact (makes_syncVersion hid version).answer _ s
  | startUpgrade =>
    have hid : startUpgrade.Makes (.write Upgrade.markId (1 : Word).toBytes) := List.mem_cons_self
    exact (makes_onStore (fun _ => rfl) hid).answer _ s
  | finishUpgrade =>
    have hid : finishUpgrade.Makes (.erase Upgrade.markId) := List.mem_cons_self
    exact (makes_removeWord hid).answer _ s
  | factoryReset =>
    have hformat : factoryReset.Makes .format := rfl
    exact (makes_onStore (fun _ => rfl) hformat).answer _ s

end SettingCommand

/-! ### Sessions -/

namespace Session

variable [PowerControlled δ] {x : Session δ}

lemma play_calls {s : Store δ} (h : x.store? = some s) (calls : List StoreCommand) :
    x.play (calls.map .call) = ⟨x.placement, .store (StoreCommand.leave calls s)⟩ := by
  induction calls generalizing x s with
  | nil => exact eq_of_store? h
  | cons command calls ih =>
    have hstep : (x.step (.store command)).2 = ⟨x.placement, .store (command.run s).2⟩ := by
      rw [step_call h]
    show (x.step (.store command)).2.play (calls.map .call) = _
    rw [hstep, ih rfl]
    rfl

/-- A settings command of a session leaves what calls for its ids leave. -/
theorem step_setting (command : SettingCommand) (x : Session δ) :
    ∃ calls : List StoreCommand, (∀ call ∈ calls, command.Makes call) ∧
      (x.step (.setting command)).2 = x.play (calls.map .call) := by
  cases h : x.store? with
  | none =>
    refine ⟨[], nofun, ?_⟩
    obtain ⟨p, d | s⟩ := x
    · rfl
    · cases h
  | some s =>
    obtain ⟨calls, hcalls, hrun⟩ := command.run_eq_leave s
    refine ⟨calls, hcalls, ?_⟩
    rw [play_calls h, ← hrun, eq_of_store? h]
    rfl

variable [LawfulFlash δ] [LawfulPower δ]

/-- Every command keeps a session sound, also one that moves the store to another placement. -/
lemma Sound.step_command (hx : x.Sound) (command : Command) : (x.step command).2.Sound := by
  cases command with
  | opening how placement =>
    cases placement with
    | none => exact (sound_opening how x).1
    | some p => exact (sound_opening how ⟨p, x.mount⟩).1
  | store command => exact (hx.step (.call command)).1
  | setting command =>
    obtain ⟨calls, -, hcalls⟩ := step_setting command x
    rw [hcalls]
    exact (hx.play _).1
  | cutPowerAfter n => exact (hx.step (.cutPowerAfter n)).1
  | restorePower => exact (hx.step .restorePower).1

/-- What commands of a kind keep of sound sessions, runs of them keep. -/
theorem Sound.run_induction {A : Command → Prop} {P : Session δ → Prop}
    (hstep : ∀ x command, x.Sound → A command → P x → P (x.step command).2) (hx : x.Sound)
    (h : P x) {commands : List Command} (hcommands : ∀ command ∈ commands, A command) :
    P (run commands x) := by
  induction commands generalizing x with
  | nil => exact h
  | cons command commands ih =>
    have hfirst := hstep x command hx (hcommands command List.mem_cons_self) h
    exact ih (hx.step_command command) hfirst fun c hc => hcommands c (List.mem_cons_of_mem _ hc)

/-- Every run of commands is sound. -/
theorem Sound.run (hx : x.Sound) (commands : List Command) : (run commands x).Sound :=
  Sound.run_induction (A := fun _ => True) (fun _ command hx _ _ => hx.step_command command) hx hx
    fun _ _ => trivial

end Session

end FlashStore
