import FlashStore.Flash.Device

/-!
# Traced devices

`Traced δ` keeps the programs and erases that are called on a device, each with the device as the
call found it. Every call is passed on, so a traced device behaves as the device does.
-/

namespace FlashStore

/-- A program or erase that a device is called for. -/
inductive FlashCall where
  | program (a : Nat) (w : Word)
  | erase (a : Nat)
  deriving DecidableEq, Repr

/-- A device with the calls made on it so far, the latest first. -/
structure Traced (δ : Type) where
  device : δ
  calls : List (δ × FlashCall)

namespace Traced

variable {δ : Type}

/-- A device that no call has been made on. -/
def ofDevice (d : δ) : Traced δ := ⟨d, []⟩

/-- Change the device without a call. -/
def mapInner (f : δ → δ) (d : Traced δ) : Traced δ := { d with device := f d.device }

/-- Make a call and keep it, whether it succeeds or not. -/
def call (c : FlashCall) (x : DeviceM δ Unit) : DeviceM (Traced δ) Unit := fun d =>
  match x.run d.device with
  | .ok () inner => .ok () ⟨inner, (d.device, c) :: d.calls⟩
  | .error e inner => .error e ⟨inner, (d.device, c) :: d.calls⟩

@[simp] theorem run_call (c : FlashCall) (x : DeviceM δ Unit) (d : Traced δ) :
    (call c x).run d =
      match x.run d.device with
      | .ok () inner => .ok () ⟨inner, (d.device, c) :: d.calls⟩
      | .error e inner => .error e ⟨inner, (d.device, c) :: d.calls⟩ := rfl

instance [FlashDevice δ] : FlashDevice (Traced δ) where
  pageSize := FlashDevice.pageSize δ
  capacity d := FlashDevice.capacity d.device
  readWord d := FlashDevice.readWord d.device
  programWord a w := call (.program a w) (FlashDevice.programWord a w)
  erasePage a := call (.erase a) (FlashDevice.erasePage a)
  unlock := mapInner FlashDevice.unlock
  lock := mapInner FlashDevice.lock

instance [Addressable δ] : Addressable (Traced δ) where
  slice d := Addressable.slice d.device

instance [PowerControlled δ] : PowerControlled (Traced δ) where
  cutPowerAfter n := mapInner (PowerControlled.cutPowerAfter n)
  restorePower := mapInner PowerControlled.restorePower

end Traced

end FlashStore
