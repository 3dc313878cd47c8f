import FlashStore.Supply.Calibration
import FlashStore.Supply.Firmware
import FlashStore.Supply.Panel

/-!
# Sessions

A session is a device over time: stores are opened on it, used, and released again, across power
cuts and reboots. Each command of a session has an answer.
-/

namespace FlashStore

/-! ### Commands and answers -/

/-- A command to a store. -/
inductive StoreCommand where
  | recover
  | format
  | compact
  | compactIfLow
  | write (id : Word) (data : List UInt8)
  | erase (id : Word)
  | read (id : Word)
  | readInto (id : Word) (buffer : List UInt8)
  | contains (id : Word)
  | reclaimable
  | list
  deriving DecidableEq

/-- A command to the settings of a store. -/
inductive SettingCommand where
  | loadCalibration (model : Model)
  | saveCalibration (cal : Calibration)
  | saveCoefficient (name : String) (x : Single)
  | clearCalibration
  | loadOutput
  | saveOutput (o : Output)
  | loadDisplay
  | saveDisplay (d : Display)
  | loadScreen (number : UInt8) (key : Word)
  | saveScreen (number : UInt8) (key value : Word)
  | syncVersion (image : Firmware) (version : String)
  | storedVersion (image : Firmware)
  | startUpgrade
  | finishUpgrade
  | isUpgradePending
  | factoryReset
  | boot (forced requested : Bool)

/-- How a store is opened on the device. -/
inductive Opening where
  /-- Take over the device and leave the store out of service. -/
  | attach
  /-- Take over the device and recover the store. -/
  | mount
  /-- Restore power, take over the device and recover the store. -/
  | reboot
  deriving DecidableEq, Repr

/-- A command of a session. -/
inductive Command where
  /-- Open a store in place of the one there is, with another placement from then on if one is
  given. -/
  | opening (how : Opening) (placement : Option Placement)
  | store (command : StoreCommand)
  | setting (command : SettingCommand)
  | cutPowerAfter (n : Nat)
  | restorePower

/-- The answer to a command. -/
inductive Answer where
  | done
  | flag (b : Bool)
  | count (n : Nat)
  | word (w : Option Word)
  | bytes (data : Option (List UInt8))
  /-- A value was copied: its length, and the buffer after it. -/
  | copied (length : Nat) (buffer : List UInt8)
  | listing (l : Store.Listing)
  | calibration (cal : Calibration)
  | output (o : Output)
  | display (d : Display)
  | version (text : Option String)
  | boot (action : BootAction)
  /-- Page size and capacity of the device. -/
  | geometry (pageSize capacity : Word)
  | noStore
  | noScreen
  | deviceError (e : DeviceError)
  | storeError (e : StoreError)
  | settingError (e : SettingError)

namespace Answer

variable {α : Type}

def ofStore (f : α → Answer) : Except StoreError α → Answer
  | .ok a => f a
  | .error e => storeError e

def ofSetting (f : α → Answer) : Except SettingError α → Answer
  | .ok a => f a
  | .error e => settingError e

end Answer

variable {δ α : Type}

/-- Run a store operation and answer with its result. -/
def StoreM.answer (x : StoreM δ α) (f : α → Answer) (s : Store δ) : Answer × Store δ :=
  match x.run s with
  | .ok a s' => (f a, s')
  | .error e s' => (.storeError e, s')

/-- Run a settings operation and answer with its result. -/
def SettingM.answer (x : SettingM δ α) (f : α → Answer) (s : Store δ) : Answer × Store δ :=
  match x.run s with
  | .ok a s' => (f a, s')
  | .error e s' => (.settingError e, s')

/-! ### A device and the store on it -/

/-- A device on its own, or with a store open on it. -/
inductive Mount (δ : Type) where
  | device (d : δ)
  | store (s : Store δ)

/-- A device over time, with the placement of the stores opened on it. -/
structure Session (δ : Type) where
  placement : Placement
  mount : Mount δ

namespace Session

/-- A session on a device that no store is open on. -/
def start (d : δ) (placement : Placement) : Session δ := ⟨placement, .device d⟩

def device (x : Session δ) : δ :=
  match x.mount with
  | .device d => d
  | .store s => s.device

/-- The open store, if any. -/
def store? (x : Session δ) : Option (Store δ) :=
  match x.mount with
  | .device _ => none
  | .store s => some s

/-- Replace the device, under the store if one is open. -/
def setDevice (d : δ) (x : Session δ) : Session δ :=
  match x.mount with
  | .device _ => { x with mount := .device d }
  | .store s => { x with mount := .store { s with device := d } }

/-- Run a command on the open store. -/
def onOpenStore (run : Store δ → Answer × Store δ) (x : Session δ) : Answer × Session δ :=
  match x.mount with
  | .device _ => (.noStore, x)
  | .store s => ((run s).1, { x with mount := .store (run s).2 })

@[simp] theorem device_setDevice (d : δ) (x : Session δ) : (x.setDevice d).device = d := by
  rcases x with ⟨p, d' | s⟩ <;> rfl

end Session

/-! ### Running commands -/

variable [FlashDevice δ] [Addressable δ] [PowerControlled δ]

/-- Run a command on a store. -/
def StoreCommand.run : StoreCommand → Store δ → Answer × Store δ
  | recover => StoreM.answer Store.recover fun _ => .done
  | format => StoreM.answer Store.format fun _ => .done
  | compact => StoreM.answer Store.compact fun _ => .done
  | compactIfLow => StoreM.answer Store.compactIfLow .flag
  | write id data => StoreM.answer (Store.write id data) fun _ => .done
  | erase id => StoreM.answer (Store.erase id) fun _ => .done
  | read id => fun s => (.ofStore (fun data => .bytes (some data)) (s.read id), s)
  | readInto id buffer => fun s => (.ofStore (fun r => .copied r.1 r.2) (s.readInto id buffer), s)
  | contains id => fun s => (.ofStore .flag (s.contains id), s)
  | reclaimable => fun s => (.ofStore .count s.reclaimable, s)
  | list => fun s => (.ofStore .listing s.list, s)

/-- Run a settings command on a store. -/
def SettingCommand.run : SettingCommand → Store δ → Answer × Store δ
  | loadCalibration model => fun s => (.calibration (Calibration.load model s), s)
  | saveCalibration cal => SettingM.answer cal.save .count
  | saveCoefficient name x => SettingM.answer (Calibration.store name x) fun _ => .done
  | clearCalibration => SettingM.answer Calibration.clear fun _ => .done
  | loadOutput => fun s => (.output (Output.load s), s)
  | saveOutput o => SettingM.answer o.save .flag
  | loadDisplay => fun s => (.display (Display.load s), s)
  | saveDisplay d => SettingM.answer d.save .flag
  | loadScreen number key => fun s =>
    match Screen.ofNumber? number with
    | some screen => (.ofSetting .word (screen.load key s), s)
    | none => (.noScreen, s)
  | saveScreen number key value => fun s =>
    match Screen.ofNumber? number with
    | some screen => SettingM.answer (screen.save key value) .flag s
    | none => (.noScreen, s)
  | syncVersion image version => SettingM.answer (image.syncVersion version) .flag
  | storedVersion image => fun s => (.ofSetting .version (image.storedVersion s), s)
  | startUpgrade => SettingM.answer Upgrade.start fun _ => .done
  | finishUpgrade => SettingM.answer Upgrade.finish fun _ => .done
  | isUpgradePending => fun s => (.ofSetting .flag (Upgrade.isPending s), s)
  | factoryReset => SettingM.answer Upgrade.factoryReset fun _ => .done
  | boot forced requested => fun s => (.boot (BootAction.choose forced s requested), s)

namespace Session

/-- Open a store on the device. A store whose recovery fails stays open. -/
def openStore (how : Opening) (placement : Option Placement) (x : Session δ) :
    Answer × Session δ :=
  let placement := placement.getD x.placement
  let d := if how = .reboot then PowerControlled.restorePower x.device else x.device
  match Store.attach d placement with
  | .error e => (.storeError e, ⟨placement, .device d⟩)
  | .ok s =>
    match how with
    | .attach => (.done, ⟨placement, .store s⟩)
    | _ => onOpenStore (StoreCommand.run .recover) ⟨placement, .store s⟩

/-- Run a command. -/
def step : Command → Session δ → Answer × Session δ
  | .opening how placement, x => openStore how placement x
  | .store command, x => onOpenStore command.run x
  | .setting command, x => onOpenStore command.run x
  | .cutPowerAfter n, x => (.done, x.setDevice (PowerControlled.cutPowerAfter n x.device))
  | .restorePower, x => (.done, x.setDevice (PowerControlled.restorePower x.device))

/-- Run commands one after another. -/
def run : List Command → Session δ → Session δ
  | [], x => x
  | command :: commands, x => run commands (step command x).2

@[simp] theorem run_nil (x : Session δ) : run [] x = x := rfl

@[simp] theorem run_cons (command : Command) (commands : List Command) (x : Session δ) :
    run (command :: commands) x = run commands (step command x).2 := rfl

theorem run_append (commands commands' : List Command) (x : Session δ) :
    run (commands ++ commands') x = run commands' (run commands x) := by
  induction commands generalizing x with
  | nil => rfl
  | cons command commands ih => exact ih _

end Session

end FlashStore
