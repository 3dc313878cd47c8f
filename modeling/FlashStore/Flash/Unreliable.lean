import FlashStore.Flash.Device

/-!
# Unreliable devices

`Unreliable δ` lets any program or erase of a device fail, with any error. A call that fails does not
reach the device. Which calls fail is told by how many there were before, so one failure schedule
stands for one history of a device.
-/

namespace FlashStore

/-- A device whose programs and erases may fail. -/
structure Unreliable (δ : Type) where
  device : δ
  /-- What the call after so many others fails with, `none` if it is passed on. -/
  failure : Nat → Option DeviceError
  /-- Programs and erases called so far. -/
  calls : Nat

namespace Unreliable

variable {δ : Type}

/-- Change the device behind the failures. -/
def mapInner (f : δ → δ) (d : Unreliable δ) : Unreliable δ := { d with device := f d.device }

/-- Pass a call on unless it fails. -/
def call (x : DeviceM δ Unit) : DeviceM (Unreliable δ) Unit := fun d =>
  match d.failure d.calls with
  | some e => .error e { d with calls := d.calls + 1 }
  | none =>
    match x.run d.device with
    | .ok () inner => .ok () { d with device := inner, calls := d.calls + 1 }
    | .error e inner => .error e { d with device := inner, calls := d.calls + 1 }

instance [FlashDevice δ] : FlashDevice (Unreliable δ) where
  pageSize := FlashDevice.pageSize δ
  capacity d := FlashDevice.capacity d.device
  readWord d := FlashDevice.readWord d.device
  programWord a w := call (FlashDevice.programWord a w)
  erasePage a := call (FlashDevice.erasePage a)
  unlock := mapInner FlashDevice.unlock
  lock := mapInner FlashDevice.lock

instance [Addressable δ] : Addressable (Unreliable δ) where
  slice d := Addressable.slice d.device

instance [PowerControlled δ] : PowerControlled (Unreliable δ) where
  cutPowerAfter n := mapInner (PowerControlled.cutPowerAfter n)
  restorePower := mapInner PowerControlled.restorePower

theorem run_call_of_failure {x : DeviceM δ Unit} {d : Unreliable δ} {e : DeviceError}
    (h : d.failure d.calls = some e) :
    (call x).run d = .error e { d with calls := d.calls + 1 } := by
  simp only [EStateM.run, call, h]

theorem run_call_of_none {x : DeviceM δ Unit} {d : Unreliable δ}
    (h : d.failure d.calls = none) :
    (call x).run d =
      match x.run d.device with
      | .ok () inner => .ok () { d with device := inner, calls := d.calls + 1 }
      | .error e inner => .error e { d with device := inner, calls := d.calls + 1 } := by
  simp only [EStateM.run, call, h]

end Unreliable

end FlashStore
