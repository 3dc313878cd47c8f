import FlashStore.Store.Recover
import FlashStore.Supply.Parameter
import FlashStore.Supply.Stored

/-!
# Firmware

Bootloader and application each record their version text, so that a host can ask what is
installed. The bootloader marks an upgrade as started before it touches the application, and removes
the mark once the new image checks out: a mark found at reset means that an upgrade was interrupted
and the application must not be started.
-/

namespace FlashStore

variable {δ : Type} [FlashDevice δ]

/-! ### Versions -/

namespace Firmware

/-- The longest version in UTF-8 bytes. -/
def maxVersionLength : Nat := 48

/-- The record id of the version of an image. -/
def versionId (image : Firmware) : Word := (Parameter.version image).id

/-- The stored version bytes, if any. -/
def loadVersion (image : Firmware) (s : Store δ) : Except StoreError (Option (List UInt8)) :=
  match s.readInto image.versionId (List.replicate maxVersionLength 0) with
  | .ok (n, buffer) => .ok (some (buffer.take n))
  | .error .notFound => .ok none
  | .error e => .error e

/-- Whether a version is stored already. One that is too long is another version. -/
def isRecorded (image : Firmware) (version : List UInt8) (s : Store δ) : Except StoreError Bool :=
  match image.loadVersion s with
  | .ok stored => .ok (stored == some version)
  | .error .bufferTooSmall => .ok false
  | .error e => .error e

/-- Record a version unless it is stored already. Returns whether it was written. -/
def syncVersion (image : Firmware) (version : String) : SettingM δ Bool := do
  let bytes := version.toUTF8.data.toList
  if maxVersionLength < bytes.length then throw .invalidLength
  if ← onStore (Store.query (isRecorded image bytes)) then
    return false
  onStore (Store.write image.versionId bytes)
  return true

/-- The recorded version, if any. -/
def storedVersion (image : Firmware) (s : Store δ) : Except SettingError (Option String) :=
  match image.loadVersion s with
  | .ok none => .ok none
  | .ok (some bytes) =>
    match String.fromUTF8? ⟨bytes.toArray⟩ with
    | some version => .ok (some version)
    | none => .error .invalidUtf8
  | .error .bufferTooSmall => .error .invalidLength
  | .error e => .error (.store e)

end Firmware

/-! ### Upgrades -/

namespace Upgrade

/-- The record id of the upgrade mark. -/
def markId : Word := Parameter.upgradeStarted.id

/-- Mark an upgrade as started. -/
def start : SettingM δ Unit := saveWord markId 1

/-- Remove the mark. -/
def finish : SettingM δ Unit := removeWord markId

/-- Whether an upgrade is marked as started. -/
def isPending (s : Store δ) : Except SettingError Bool :=
  match s.contains markId with
  | .ok b => .ok b
  | .error e => .error (.store e)

/-- Erase every stored setting. -/
def factoryReset : SettingM δ Unit := onStore Store.format

end Upgrade

/-! ### Booting -/

/-- Why the bootloader stays in upgrade mode. -/
inductive StayReason where
  | unknown
  /-- The button was held at power up. -/
  | forced
  /-- The store cannot be used. -/
  | storeFailure
  /-- The application asked for an upgrade. -/
  | requested
  /-- An earlier upgrade never finished. -/
  | unfinished
  /-- The application returned to the bootloader. -/
  | startFailed
  deriving DecidableEq, Repr

/-- The code a reason is reported by. -/
def StayReason.code : StayReason → UInt8
  | unknown => 0
  | forced => 1
  | storeFailure => 2
  | requested => 3
  | unfinished => 4
  | startFailed => 5

/-- What the bootloader does after a reset. -/
inductive BootAction where
  | startApp
  | stay (reason : StayReason)
  deriving DecidableEq, Repr

/-- Choose what to do after a reset: a forced upgrade comes first, then the health of the store, a
request from the application, and an interrupted upgrade. -/
def BootAction.choose (forced : Bool) (s : Store δ) (requested : Bool) : BootAction :=
  if forced then stay .forced
  else if !s.inService then stay .storeFailure
  else if requested then stay .requested
  else
    match Upgrade.isPending s with
    | .ok false => startApp
    | .ok true => stay .unfinished
    | .error _ => stay .storeFailure

theorem BootAction.choose_eq_startApp_iff {forced requested : Bool} {s : Store δ} :
    choose forced s requested = startApp ↔
      forced = false ∧ s.inService = true ∧ requested = false ∧
        Upgrade.isPending s = .ok false := by
  unfold choose
  cases forced <;> cases requested <;> cases s.inService <;> simp
  cases Upgrade.isPending s with
  | error e => simp
  | ok b => cases b <;> simp

end FlashStore
