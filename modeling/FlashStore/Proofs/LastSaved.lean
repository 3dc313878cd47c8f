import FlashStore.Proofs.Assignments
import FlashStore.Proofs.Simulation
import FlashStore.Proofs.Upgrades

/-!
# Settings load as last saved

A `Setting` is what is loaded as one value, and `SettingCommand.saves` says what a command saves as
one. Settings share one store and its ids, yet over NOR flash that does not lose power they are
independent: in a run of saves that succeed, with compactions and restarts in between, each loads as
it was last saved, and one that is not saved loads as before the run. The values stored before may
be of any length, under any id.
-/

namespace FlashStore

open LawfulFlash Store

/-! ### Stored forms -/

lemma Output.unpack_pack (o : Output) : unpack o.pack = o := by
  have hlt : o.milliamperes.toNat * 2 ^ 16 < 2 ^ 32 :=
    Nat.mul_lt_mul_of_pos_right o.milliamperes.toNat_lt (Nat.two_pow_pos 16)
  have hshift : (o.milliamperes.toUInt32 <<< 16).toNat = o.milliamperes.toNat * 2 ^ 16 := by
    rw [UInt32.toNat_shiftLeft, UInt16.toNat_toUInt32, Nat.shiftLeft_eq]
    exact Nat.mod_eq_of_lt hlt
  have hlow := o.millivolts.toNat_lt
  have hhigh := o.milliamperes.toNat_lt
  have hpack : o.pack.toNat = o.milliamperes.toNat * 2 ^ 16 + o.millivolts.toNat := by
    rw [pack, UInt32.toNat_or, hshift, UInt16.toNat_toUInt32, ← Nat.shiftLeft_eq,
      Nat.shiftLeft_add_eq_or_of_lt hlow]
  have hmillivolts : o.pack.toUInt16 = o.millivolts := by
    apply UInt16.toNat_inj.1
    rw [UInt32.toNat_toUInt16, hpack]
    omega
  have hmilliamperes : (o.pack >>> 16).toUInt16 = o.milliamperes := by
    apply UInt16.toNat_inj.1
    rw [UInt32.toNat_toUInt16, UInt32.toNat_shiftRight, hpack, Nat.shiftRight_eq_div_pow]
    simp
    omega
  rw [unpack, hmillivolts, hmilliamperes]

lemma Screen.id_eq_iff {screen screen' : Screen} {key key' : Word} :
    screen.id key = screen'.id key' ↔
      screen = screen' ∧ key.toNat % 2 ^ 24 = key'.toNat % 2 ^ 24 := by
  have h := screen.toNat_id key
  have h' := screen'.toNat_id key'
  constructor
  · intro he
    rw [he, h'] at h
    refine ⟨?_, by omega⟩
    have hnumber : screen.number = screen'.number := UInt8.toNat_inj.1 (by omega)
    cases screen
    cases screen'
    simpa using hnumber
  · rintro ⟨rfl, hkey⟩
    apply UInt32.toNat_inj.1
    rw [h, h', hkey]

lemma Parameter.id_ne_screenId (parameter : Parameter) (screen : Screen) (key : Word) :
    parameter.id ≠ screen.id key := by
  intro he
  have hle := screen.two_pow_le_id key
  have hlt : ∀ parameter ∈ Parameter.all, parameter.id.toNat < 2 ^ 24 := by decide
  have hparameter := hlt parameter parameter.mem_all
  rw [he] at hparameter
  omega

/-! ### Settings -/

/-- What is loaded as one value. -/
inductive Setting where
  | coefficient (c : Coefficient)
  | output
  | display
  | screen (screen : Screen) (key : Word)
  | version (image : Firmware)
  | upgrade

namespace Setting

/-- What a setting is loaded as. A coefficient depends on the model that it is loaded for. -/
def Value : Setting → Type
  | coefficient _ => Model → Single
  | output => Output
  | display => Display
  | screen _ _ => Except SettingError (Option Word)
  | version _ => Except SettingError (Option String)
  | upgrade => Except SettingError Bool

section

variable {δ : Type} [FlashDevice δ]

/-- Load a setting from a store. -/
def load (s : Store δ) : (q : Setting) → q.Value
  | .coefficient c => fun model => Calibration.load model s c
  | .output => Output.load s
  | .display => Display.load s
  | .screen owner key => owner.load key s
  | .version image => image.storedVersion s
  | .upgrade => Upgrade.isPending s

end

end Setting

/-- The setting that a record of the catalogue belongs to. -/
def Parameter.setting : Parameter → Setting
  | output => .output
  | inversion | brightness => .display
  | version image => .version image
  | calibration c => .coefficient c
  | upgradeStarted => .upgrade

/-- The value under the id is part of the setting. -/
inductive Setting.Owns : Setting → Word → Prop
  | parameter (parameter : Parameter) : Owns parameter.setting parameter.id
  | screen (screen : Screen) (key : Word) : Owns (.screen screen key) (screen.id key)

section Loading

variable {δ : Type} [FlashDevice δ] [LawfulFlash δ] {s s' : Store δ}

lemma Store.Ready.isPending_eq (hs : s.Ready) :
    Upgrade.isPending s = .ok (s.values Upgrade.markId).isSome := by
  have hcontains : s.contains Upgrade.markId = .ok (s.values Upgrade.markId).isSome :=
    (contains_of_serves hs.operable hs.serves _).trans
      (if_pos (Parameter.isUsableId_id .upgradeStarted))
  rw [Upgrade.isPending, hcontains]

/-- Loading a setting depends on the values that are part of it only. -/
lemma Store.Ready.load_congr (hs : s.Ready) (hs' : s'.Ready) {q : Setting}
    (h : ∀ id, q.Owns id → s'.values id = s.values id) : q.load s' = q.load s := by
  have hword (id : Word) (hid : q.Owns id) : loadWord id s' = loadWord id s := by
    rw [hs'.serving.loadWord_eq, hs.serving.loadWord_eq, h id hid]
  cases q with
  | coefficient c =>
    funext model
    show Calibration.load model s' c = Calibration.load model s c
    rw [Calibration.load, Calibration.load, hword c.id (.parameter (.calibration c))]
  | output =>
    show Output.load s' = Output.load s
    rw [Output.load, Output.load, hword _ (.parameter .output)]
  | display =>
    show Display.load s' = Display.load s
    rw [Display.load, Display.load, Display.loadInversion, Display.loadInversion,
      Display.loadBrightness, Display.loadBrightness, hword _ (.parameter .inversion),
      hword _ (.parameter .brightness)]
  | screen screen key => exact hword _ (.screen screen key)
  | version image =>
    show image.storedVersion s' = image.storedVersion s
    rw [Firmware.storedVersion, Firmware.storedVersion, hs'.serving.loadVersion_eq,
      hs.serving.loadVersion_eq, h image.versionId (.parameter (.version image))]
  | upgrade =>
    show Upgrade.isPending s' = Upgrade.isPending s
    rw [hs'.isPending_eq, hs.isPending_eq, h Upgrade.markId (.parameter .upgradeStarted)]

end Loading

/-! ### What commands save -/

namespace SettingCommand

/-- What a command saves a setting as, `none` if it does not save it. A value that is refused is
not saved; output settings of which one is zero load as the defaults. -/
def saves : SettingCommand → (q : Setting) → Option q.Value
  | saveCalibration cal, .coefficient c => some fun _ => cal c
  | saveCoefficient name x, .coefficient c =>
    if Coefficient.ofName? name = some c then some fun _ => x else none
  | clearCalibration, .coefficient c => some fun model => model.defaults c
  | saveOutput o, .output =>
    some (if o.millivolts ≠ 0 ∧ o.milliamperes ≠ 0 then o else (default : Output))
  | saveDisplay d, .display => if Display.maxBrightness < d.brightness then none else some d
  | saveScreen number key value, .screen screen key' =>
    if Screen.ofNumber? number = some screen ∧ key'.toNat % 2 ^ 24 = key.toNat % 2 ^ 24 then
      some (.ok (some value))
    else none
  | syncVersion image version, .version image' =>
    if image' = image ∧ (versionBytes version).length ≤ Firmware.maxVersionLength then
      some (.ok (some version))
    else none
  | startUpgrade, .upgrade => some (.ok true)
  | finishUpgrade, .upgrade => some (.ok false)
  | _, _ => none

/-- An id that a command assigns is part of a setting that it saves. -/
lemma saves_of_mem_assignments {command : SettingCommand} {entry : Assignment}
    (h : entry ∈ command.assignments) :
    (∃ parameter : Parameter, entry.1 = parameter.id ∧
      command.saves parameter.setting ≠ none) ∨
    ∃ screen key, entry.1 = Screen.id screen key ∧
      ∀ key', key'.toNat % 2 ^ 24 = key.toNat % 2 ^ 24 →
        command.saves (.screen screen key') ≠ none := by
  -- Every command that assigns names the setting of the id: one of the catalogue, or of a screen.
  cases command with
  | saveCalibration cal =>
    obtain ⟨c, -, rfl⟩ := List.mem_map.1 h
    exact Or.inl ⟨.calibration c, rfl, Option.some_ne_none _⟩
  | saveCoefficient name x =>
    obtain ⟨c, hc, rfl⟩ := List.mem_map.1 h
    have hname : Coefficient.ofName? name = some c := Option.mem_toList.1 hc
    exact Or.inl ⟨.calibration c, rfl, by simp [saves, Parameter.setting, hname]⟩
  | clearCalibration =>
    obtain ⟨c, -, rfl⟩ := List.mem_map.1 h
    exact Or.inl ⟨.calibration c, rfl, Option.some_ne_none _⟩
  | saveOutput o =>
    obtain rfl := List.mem_singleton.1 h
    exact Or.inl ⟨.output, rfl, Option.some_ne_none _⟩
  | saveDisplay d =>
    by_cases hd : Display.maxBrightness < d.brightness
    · simp [assignments, hd] at h
    · simp only [assignments, if_neg hd, List.mem_cons, List.not_mem_nil, or_false] at h
      rcases h with rfl | rfl
      · exact Or.inl ⟨.inversion, rfl, by simp [saves, Parameter.setting, hd]⟩
      · exact Or.inl ⟨.brightness, rfl, by simp [saves, Parameter.setting, hd]⟩
  | saveScreen number key value =>
    obtain ⟨screen, hscreen, rfl⟩ := List.mem_map.1 h
    have hnumber : Screen.ofNumber? number = some screen := Option.mem_toList.1 hscreen
    exact Or.inr ⟨screen, key, rfl, fun key' hkey => by simpa [saves, hnumber] using hkey⟩
  | syncVersion image version =>
    by_cases hlen : Firmware.maxVersionLength < (versionBytes version).length
    · simp [assignments, hlen] at h
    · simp only [assignments, if_neg hlen, List.mem_singleton] at h
      subst h
      refine Or.inl ⟨.version image, rfl, ?_⟩
      simp [saves, Parameter.setting, Nat.not_lt.1 hlen]
  | startUpgrade =>
    obtain rfl := List.mem_singleton.1 h
    exact Or.inl ⟨.upgradeStarted, rfl, Option.some_ne_none _⟩
  | finishUpgrade =>
    obtain rfl := List.mem_singleton.1 h
    exact Or.inl ⟨.upgradeStarted, rfl, Option.some_ne_none _⟩
  | _ => cases h

/-- A command assigns no id of a setting that it does not save. -/
lemma ne_of_saves_eq_none {command : SettingCommand} {q : Setting} (h : command.saves q = none)
    {id : Word} (hid : q.Owns id) : ∀ entry ∈ command.assignments, entry.1 ≠ id := by
  rintro entry hentry rfl
  rcases saves_of_mem_assignments hentry with ⟨parameter, he, hsaves⟩ | ⟨screen, key, he, hsaves⟩
  · rw [he] at hid
    generalize hp : parameter.id = id at hid
    cases hid with
    | parameter parameter' =>
      obtain rfl := Parameter.id_injective hp
      exact hsaves h
    | screen screen key => exact Parameter.id_ne_screenId _ _ _ hp
  · rw [he] at hid
    generalize hs : screen.id key = id at hid
    cases hid with
    | parameter parameter => exact Parameter.id_ne_screenId _ _ _ hs.symm
    | screen screen' key' =>
      obtain ⟨rfl, hkey⟩ := Screen.id_eq_iff.1 hs
      exact hsaves key' hkey.symm h

end SettingCommand

/-- Assignments to all coefficients give each its own value. -/
lemma assign_coefficients (data : Coefficient → Option (List UInt8)) (values : Values)
    (c : Coefficient) :
    assign (Coefficient.all.map fun c => (c.id, data c)) values c.id = data c := by
  refine assign_of_forall (List.mem_map.2 ⟨c, c.mem_all, rfl⟩) (fun data' hdata => ?_) values
  obtain ⟨c', -, hc'⟩ := List.mem_map.1 hdata
  obtain ⟨hid, rfl⟩ := Prod.mk.inj hc'
  rw [Coefficient.id_injective hid]

section Loading

variable {δ : Type} [FlashDevice δ] [LawfulFlash δ] {s s' : Store δ}

lemma Store.Ready.load_coefficient_of_some (hs : s.Ready) {c : Coefficient} {x : Single}
    (h : s.values c.id = some x.bits.toBytes) : (Setting.coefficient c).load s = fun _ => x := by
  funext model
  show Calibration.load model s c = x
  rw [Calibration.load, hs.serving.loadWord_of_some h]

lemma Store.Ready.load_coefficient_of_none (hs : s.Ready) {c : Coefficient}
    (h : s.values c.id = none) :
    (Setting.coefficient c).load s = fun model => model.defaults c := by
  have hid : isUsableId c.id = true := Parameter.isUsableId_id (.calibration c)
  funext model
  show Calibration.load model s c = model.defaults c
  rw [Calibration.load, hs.serving.loadWord_of_none hid h]

lemma Store.Ready.load_output_of_some (hs : s.Ready) {o : Output}
    (h : s.values Parameter.output.id = some o.pack.toBytes) :
    Setting.output.load s =
      if o.millivolts ≠ 0 ∧ o.milliamperes ≠ 0 then o else (default : Output) := by
  show Output.load s = _
  rw [Output.load, hs.serving.loadWord_of_some h]
  simp only [Output.unpack_pack]

/-- A brightness in range is loaded as it is stored. -/
lemma Store.Ready.load_display_of_some (hs : s.Ready) {d : Display}
    (hle : d.brightness ≤ Display.maxBrightness)
    (hinversion : s.values Parameter.inversion.id = some (Word.toBytes d.inverted.toUInt32))
    (hbrightness : s.values Parameter.brightness.id = some (Word.toBytes d.brightness.toUInt32)) :
    Setting.display.load s = d := by
  have hinverted : (d.inverted.toUInt32 != 0) = d.inverted := by cases d.inverted <;> rfl
  have hle' : d.brightness.toUInt32 ≤ Display.maxBrightness.toUInt32 := by simpa using hle
  show Display.load s = d
  rw [Display.load, Display.loadInversion, Display.loadBrightness,
    hs.serving.loadWord_of_some hinversion, hs.serving.loadWord_of_some hbrightness]
  simp only [hinverted, if_pos hle', UInt8.toUInt8_toUInt32]

lemma Store.Ready.load_upgrade (hs : s.Ready) :
    Setting.upgrade.load s = .ok (s.values Upgrade.markId).isSome := hs.isPending_eq

/-- A setting is loaded as a command has saved it. -/
lemma Store.Ready.load_of_saves (hs : s.Ready) {command : SettingCommand} {values : Values}
    (hvalues : s.values = assign command.assignments values) {q : Setting} {value : q.Value}
    (h : command.saves q = some value) : q.load s = value := by
  unfold SettingCommand.saves at h
  -- One case for each equation of `saves`. First the coefficients: all, one, and their removal.
  split at h
  · rename_i cal c
    obtain rfl := Option.some.inj h
    apply hs.load_coefficient_of_some
    rw [hvalues]
    exact assign_coefficients (fun c => some (cal c).bits.toBytes) values c
  · rename_i name x c
    split at h
    · rename_i hname
      obtain rfl := Option.some.inj h
      apply hs.load_coefficient_of_some
      simp [hvalues, SettingCommand.assignments, hname]
    · cases h
  · rename_i c
    obtain rfl := Option.some.inj h
    apply hs.load_coefficient_of_none
    rw [hvalues]
    exact assign_coefficients (fun _ => none) values c
  -- The output, the display and the values of screens.
  · rename_i o
    obtain rfl := Option.some.inj h
    apply hs.load_output_of_some
    simp [hvalues, SettingCommand.assignments]
  · rename_i d
    split at h
    · cases h
    · rename_i hd
      obtain rfl := Option.some.inj h
      have hne : Parameter.inversion.id ≠ Parameter.brightness.id := by decide
      apply hs.load_display_of_some (UInt8.not_lt.1 hd)
      · simp [hvalues, SettingCommand.assignments, hd, assign_cons, Function.update_of_ne hne]
      · simp [hvalues, SettingCommand.assignments, hd, assign_cons]
  · rename_i number key value screen key'
    split at h
    · rename_i hscreen
      obtain rfl := Option.some.inj h
      apply hs.serving.loadWord_of_some
      rw [Screen.id_eq_iff.2 ⟨rfl, hscreen.2⟩]
      simp [hvalues, SettingCommand.assignments, hscreen.1]
    · cases h
  -- Versions and the upgrade mark.
  · rename_i image version image'
    split at h
    · rename_i himage
      obtain ⟨rfl, hlen⟩ := himage
      obtain rfl := Option.some.inj h
      apply hs.serving.storedVersion_of_some hlen
      simp [hvalues, SettingCommand.assignments, Nat.not_lt.2 hlen]
    · cases h
  · obtain rfl := Option.some.inj h
    have hmark : (s.values Upgrade.markId).isSome = true := by
      simp [hvalues, SettingCommand.assignments]
    exact hs.load_upgrade.trans (congrArg Except.ok hmark)
  · obtain rfl := Option.some.inj h
    have hmark : (s.values Upgrade.markId).isSome = false := by
      simp [hvalues, SettingCommand.assignments]
    exact hs.load_upgrade.trans (congrArg Except.ok hmark)
  · cases h

/-- A setting that a command does not save is loaded as before it. -/
lemma Store.Ready.load_of_saves_eq_none (hs : s.Ready) (hs' : s'.Ready) {command : SettingCommand}
    {k : Nat} (hvalues : s'.values = assign (command.assignments.take k) s.values) {q : Setting}
    (h : command.saves q = none) : q.load s' = q.load s := by
  refine hs.load_congr hs' fun id hid => ?_
  rw [hvalues]
  refine assign_of_ne (fun entry hentry => ?_) _
  exact SettingCommand.ne_of_saves_eq_none h hid entry (List.mem_of_mem_take hentry)

end Loading

/-! ### Sessions -/

lemma SettingCommand.assignments_of_asks {command : SettingCommand} (h : command.asks = true) :
    command.assignments = [] := by
  cases command <;> first | rfl | cases h

/-- The answer says that a setting could not be loaded or saved. -/
def Answer.isSettingError : Answer → Bool
  | settingError _ => true
  | _ => false

namespace Command

/-- A settings command short of a factory reset, a compaction, a restart or a question. -/
def isRoutine : Command → Bool
  | opening .mount none | opening .reboot none => true
  | store (.write _ _) | store (.erase _) | store .format => false
  | store _ => true
  | setting .factoryReset => false
  | setting _ => true
  | _ => false

/-- A settings command that only asks. -/
def asks : Command → Bool
  | setting command => command.asks
  | _ => false

/-- What a command saves a setting as, `none` if it does not save it. -/
def saves : Command → (q : Setting) → Option q.Value
  | setting command, q => command.saves q
  | _, _ => none

end Command

/-- What the last command to save a setting saves it as, `none` if none does. -/
def Setting.lastSaved (q : Setting) (commands : List Command) : Option q.Value :=
  commands.reverse.findSome? fun command => command.saves q

lemma Setting.lastSaved_cons (q : Setting) (command : Command) (commands : List Command) :
    q.lastSaved (command :: commands) = (q.lastSaved commands).or (command.saves q) := by
  rw [lastSaved, List.reverse_cons, List.findSome?_append, List.findSome?_singleton]
  rfl

namespace Session

section

variable {δ : Type} [FlashDevice δ] [Addressable δ] [PowerControlled δ]

/-- Every settings command of the run succeeds, apart from questions. -/
def savesSucceed : List Command → Session δ → Bool
  | [], _ => true
  | command :: commands, x =>
    (command.asks || !(x.step command).1.isSettingError) &&
      savesSucceed commands (x.step command).2

lemma step_setting_of_store? {x : Session δ} {s : Store δ} (h : x.store? = some s)
    (command : SettingCommand) :
    x.step (.setting command) =
      ((command.run s).1, ⟨x.placement, .store (command.run s).2⟩) := by
  rw [eq_of_store? h]
  rfl

/-- A settings command that leaves the store as it is leaves the session as it is. -/
lemma step_setting_of_run {x : Session δ} {s : Store δ} (h : x.store? = some s)
    {command : SettingCommand} {a : Answer} (hrun : command.run s = (a, s)) :
    x.step (.setting command) = (a, x) := by
  rw [step_setting_of_store? h, hrun, ← eq_of_store? h]

end

variable {size page : Nat} [NorFlash.WordPages page] {x : Session (NorFlash size page)}
  {s : Store (NorFlash size page)} {c : Contents}

/-- A store in service on powered flash is ready. -/
lemma Sound.ready (hx : x.Sound) (h : x.store? = some s) (hin : s.inService = true)
    (hb : s.device.budget = none) : s.Ready := by
  have hserves := hx.serves h hin
  rw [← hserves.persisted] at hserves
  exact ⟨(hx s h).operable, healthy_of_budget hb, hserves⟩

/-- A powered session over a store that is ready. -/
structure Stands (x : Session (NorFlash size page)) (s : Store (NorFlash size page)) : Prop where
  sound : x.Sound
  store? : x.store? = some s
  ready : s.Ready
  budget : s.device.budget = none

lemma Sound.stands (hx : x.Sound) (h : x.store? = some s) (hin : s.inService = true)
    (hb : s.device.budget = none) : x.Stands s := ⟨hx, h, hx.ready h hin hb, hb⟩

lemma Stands.simulated (hx : x.Stands s) : x.Simulated (s.placement.persisted s.word) := by
  have hserves := hx.ready.serves
  refine ⟨hx.sound, ⟨s, hx.store?, hserves.inService, ?_⟩, ?_⟩
  · exact hx.ready.contents_eq
  · rw [device_of_store? hx.store?]
    exact hx.budget

/-- A session that is simulated by the contents of a store goes on with its values. -/
lemma Simulated.stands (hx : x.Simulated c) : ∃ s, x.Stands s ∧ s.values = c.get? := by
  obtain ⟨s, h, hin, hc⟩ := hx.holds
  have hb := hx.budget
  rw [device_of_store? h] at hb
  have hs := hx.sound.stands h hin hb
  refine ⟨s, hs, ?_⟩
  rw [← hc, hs.ready.contents_get?]

/-- An event that keeps the contents keeps the values. -/
lemma Stands.step_event (hx : x.Stands s) {e : Event} (he : e.isUncut = true)
    (hkeep : ∀ capacity c, e.apply capacity c = c) :
    ∃ s', (x.step e.command).2.Stands s' ∧ s'.values = s.values := by
  have haccepts := (hx.sound s hx.store?).accepts
  have hstep := (hx.simulated.step haccepts he).2
  rw [hkeep] at hstep
  exact hstep.stands

/-- A settings command makes its assignments, or the first few. -/
lemma Stands.step_setting (hx : x.Stands s) {command : SettingCommand}
    (hreset : command ≠ .factoryReset) :
    (x.step (.setting command)).2.Stands (command.run s).2 ∧
      ((x.step (.setting command)).1.isSettingError = false →
        (command.run s).2.values = assign command.assignments s.values) ∧
      ∃ k, (command.run s).2.values = assign (command.assignments.take k) s.values := by
  obtain ⟨hok, k, hk⟩ := command.run_assigns hx.ready hreset
  have hsound := hx.sound.step_command (.setting command)
  rw [step_setting_of_store? hx.store?] at hsound ⊢
  obtain ⟨j, hj⟩ := hk.continues
  refine ⟨⟨hsound, rfl, hk.ready, hj.budget_eq_none hx.budget⟩, fun ha => ?_, k, hk.values_eq⟩
  refine (hok fun e he => ?_).values_eq
  rw [he] at ha
  cases ha

/-- Whether it succeeds or not, a settings command leaves alone what it does not save. -/
lemma Stands.load_of_saves_eq_none (hx : x.Stands s) {command : SettingCommand}
    (hreset : command ≠ .factoryReset) {q : Setting} (h : command.saves q = none) :
    q.load (command.run s).2 = q.load s := by
  obtain ⟨hx', -, k, hk⟩ := hx.step_setting hreset
  exact hx.ready.load_of_saves_eq_none hx'.ready hk h

/-- In a routine command that succeeds every setting is saved or left alone. -/
lemma Stands.step (hx : x.Stands s) {command : Command} (h : command.isRoutine = true)
    (hok : (command.asks || !(x.step command).1.isSettingError) = true) :
    ∃ s', (x.step command).2.Stands s' ∧
      ∀ q : Setting, q.load s' = (command.saves q).getD (q.load s) := by
  have hevent {e : Event} (he : e.isUncut = true) (hkeep : ∀ capacity c, e.apply capacity c = c) :
      ∃ s', (x.step e.command).2.Stands s' ∧ ∀ q : Setting, q.load s' = q.load s := by
    obtain ⟨s', hx', hvalues⟩ := hx.step_event he hkeep
    exact ⟨s', hx', fun q => hx.ready.load_congr hx'.ready fun id _ => congrFun hvalues id⟩
  cases command with
  | opening how placement =>
    cases placement with
    | some p => cases how <;> cases h
    | none =>
      have he : (Event.opening how).isUncut = true := by
        cases how with
        | attach => cases h
        | mount | reboot => rfl
      exact hevent he fun _ _ => rfl
  | store command =>
    -- Of the calls of the store, those that change a value are no routine.
    have hkeep : ∀ capacity c, (Event.call command).apply capacity c = c := by
      intro capacity c
      cases command with
      | write | erase | format => cases h
      | recover | compact | compactIfLow | read | readInto | contains | reclaimable | list => rfl
    exact hevent (e := .call command) rfl hkeep
  | setting command =>
    have hreset : command ≠ .factoryReset := by
      rintro rfl
      cases h
    obtain ⟨hx', hvalues, k, hk⟩ := hx.step_setting hreset
    refine ⟨_, hx', fun q => ?_⟩
    show q.load _ = (command.saves q).getD (q.load s)
    cases hsaves : command.saves q with
    | none => exact hx.load_of_saves_eq_none hreset hsaves
    | some value =>
      -- It succeeded, so all of its assignments were made.
      have hall : (command.run s).2.values = assign command.assignments s.values := by
        rcases Bool.or_eq_true_iff.1 hok with hasks | hanswer
        · have hnone : command.assignments = [] := SettingCommand.assignments_of_asks hasks
          rw [hk, hnone, List.take_nil]
        · apply hvalues
          simpa using hanswer
      exact hx'.ready.load_of_saves hall hsaves
  | cutPowerAfter n => cases h
  | restorePower => cases h

/-- After a run of routine commands every setting is as last saved, or else as before it. -/
lemma Stands.run (hx : x.Stands s) {commands : List Command}
    (h : ∀ command ∈ commands, command.isRoutine = true)
    (hok : savesSucceed commands x = true) :
    ∃ s', (Session.run commands x).Stands s' ∧
      ∀ q : Setting, q.load s' = (q.lastSaved commands).getD (q.load s) := by
  -- The induction starts with the session and the store after the first command.
  induction commands generalizing x s with
  | nil => exact ⟨s, hx, fun _ => rfl⟩
  | cons command commands ih =>
    obtain ⟨hfirst, hrest⟩ := Bool.and_eq_true_iff.1 hok
    obtain ⟨s₁, hx₁, hload₁⟩ := hx.step (h command List.mem_cons_self) hfirst
    obtain ⟨s', hx', hload⟩ := ih hx₁ (fun c hc => h c (List.mem_cons_of_mem _ hc)) hrest
    refine ⟨s', hx', fun q => ?_⟩
    rw [hload, hload₁, Setting.lastSaved_cons, Option.getD_or]

/-- On flash whose pages hold whole words, whatever it held at first and whatever was stored before:
in a run of settings commands that succeed while power stays on, with compactions and restarts in
between, every setting is loaded as it was last saved, and as before the run if it was not saved. No
settings command, successful or not, changes what a setting that it does not save is loaded as. -/
theorem loads_last_saved (d : NorFlash size page) (p : Placement)
    {before commands : List Command} {s : Store (NorFlash size page)}
    (hs : (Session.run before (start d p)).store? = some s) (hin : s.inService = true)
    (hpower : s.device.budget = none) (hroutine : ∀ command ∈ commands, command.isRoutine = true)
    (hsucceed : savesSucceed commands (Session.run before (start d p)) = true) :
    ∃ s', (Session.run (before ++ commands) (start d p)).store? = some s' ∧
      s'.inService = true ∧
      (∀ q : Setting, q.load s' = (q.lastSaved commands).getD (q.load s)) ∧
      ∀ command : SettingCommand, command ≠ .factoryReset → ∀ q : Setting,
        command.saves q = none → q.load (command.run s').2 = q.load s' := by
  have hbefore := ((sound_start d p).run before).stands hs hin hpower
  obtain ⟨s', hx', hload⟩ := hbefore.run hroutine hsucceed
  rw [run_append]
  refine ⟨s', hx'.store?, hx'.ready.serves.inService, hload, ?_⟩
  intro command hreset q hsaves
  exact hx'.load_of_saves_eq_none hreset hsaves

/-- A save replaces values of a wrong length and out of range, and outlasts a compaction and a
restart. -/
theorem loads_last_saved_over_malformed :
    ∃ s : Store (NorFlash 160 20),
      (Session.run [.opening .mount none, .store (.write 1 [1, 2, 3, 4, 5]),
        .store (.write 15 [200, 0, 0, 0]), .setting .startUpgrade,
        .setting (.saveOutput ⟨5000, 500⟩), .setting (.saveScreen 3 0x01000007 42),
        .store .compact, .opening .reboot none,
        .setting (.saveOutput ⟨3300, 500⟩), .setting .finishUpgrade]
        (start NorFlash.blank ⟨0, 80, 80, 0⟩)).store? = some s ∧
      Setting.output.load s = (⟨3300, 500⟩ : Output) ∧
      (Setting.screen ⟨3, by decide⟩ 7).load s = .ok (some 42) ∧
      Setting.upgrade.load s = .ok false := by
  have hbefore : (Session.run [.opening .mount none, .store (.write 1 [1, 2, 3, 4, 5]),
      .store (.write 15 [200, 0, 0, 0]), .setting .startUpgrade]
      (start NorFlash.blank ⟨0, 80, 80, 0⟩ : Session (NorFlash 160 20))).store?.map
        (fun s => (s.inService, s.device.budget)) = some (true, none) := by decide +kernel
  obtain ⟨s, hs, hs'⟩ := Option.map_eq_some_iff.1 hbefore
  obtain ⟨hin, hpower⟩ := Prod.mk.inj hs'
  obtain ⟨t, ht, -, hload, -⟩ := @loads_last_saved 160 20 _ NorFlash.blank ⟨0, 80, 80, 0⟩ _
    [.setting (.saveOutput ⟨5000, 500⟩), .setting (.saveScreen 3 0x01000007 42), .store .compact,
      .opening .reboot none, .setting (.saveOutput ⟨3300, 500⟩), .setting .finishUpgrade]
    s hs hin hpower (by decide) (by decide +kernel)
  exact ⟨t, ht, hload .output, hload (.screen ⟨3, by decide⟩ 7), hload .upgrade⟩

/-- On pages that do not hold whole words a saved output can be lost with power on, as the second
block may start off a word boundary, where it takes no word. In pages of two bytes the first block
is full and no restart succeeds. In pages of 34 bytes the save itself succeeds, but the compaction
after it fails and leaves the store out of service. -/
theorem lost_beside_unaligned_block :
    (let p : Placement := ⟨0, 30, 20, 0⟩
      let x : Session (NorFlash 64 2) := Session.run [.opening .mount none] (start NorFlash.blank p)
      let commands := [.setting (.saveOutput ⟨3300, 250⟩), .opening .reboot none]
      p.accepts 2 64 = true ∧
        x.store?.map (fun s => (s.inService, s.device.budget)) = some (true, none) ∧
        (∀ command ∈ commands, command.isRoutine = true) ∧ savesSucceed commands x = true ∧
        ∃ s, (Session.run commands x).store? = some s ∧
          Setting.output.load s = (⟨5000, 500⟩ : Output)) ∧
    let p : Placement := ⟨0, 34, 34, 33⟩
    let x : Session (NorFlash 68 34) :=
      Session.run [.opening .mount none, .store (.write 1 [1, 2, 3, 4])] (start NorFlash.blank p)
    let y := x.step (.setting (.saveOutput ⟨3300, 250⟩))
    p.accepts 34 68 = true ∧
      x.store?.map (fun s => (s.inService, s.device.budget)) = some (true, none) ∧
      y.1 = .flag true ∧
      ∃ s, y.2.store? = some s ∧ Setting.output.load s = (⟨5000, 500⟩ : Output) := by
  have hlost {size page : Nat} {x : Session (NorFlash size page)}
      (h : x.store?.map inService = some false) :
      ∃ s, x.store? = some s ∧ Setting.output.load s = (⟨5000, 500⟩ : Output) := by
    obtain ⟨s, hs, hin⟩ := Option.map_eq_some_iff.1 h
    refine ⟨s, hs, ?_⟩
    show Output.load s = _
    rw [Output.load, loadWord_of_outOfService hin (by decide)]
    rfl
  constructor
  · intro p x commands
    exact ⟨by decide, by decide +kernel, by decide, by decide +kernel, hlost (by decide +kernel)⟩
  · intro p x y
    exact ⟨by decide, by decide +kernel, by decide +kernel, hlost (by decide +kernel)⟩

end Session

end FlashStore
