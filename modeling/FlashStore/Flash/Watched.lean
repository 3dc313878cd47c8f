import FlashStore.Flash.Traced

/-!
# Watched devices

`Watched δ` keeps every request for a change of a device: write protection that is lifted and
restored as well as programs and erases, each with the device as the request found it. Every request
is passed on.
-/

namespace FlashStore

/-- A request for a change of a device. -/
inductive Request where
  | unlock
  | lock
  | call (c : FlashCall)
  deriving DecidableEq, Repr

/-- A device with the requests made of it so far, the latest first. -/
structure Watched (δ : Type) where
  device : δ
  requests : List (δ × Request)

namespace Watched

variable {δ : Type}

/-- A device that nothing has been requested of. -/
def ofDevice (d : δ) : Watched δ := ⟨d, []⟩

/-- Change the device without a request. -/
def mapInner (f : δ → δ) (d : Watched δ) : Watched δ := { d with device := f d.device }

/-- Lift or restore write protection. -/
def protect (r : Request) (f : δ → δ) (d : Watched δ) : Watched δ :=
  ⟨f d.device, (d.device, r) :: d.requests⟩

/-- Make a call, whether it succeeds or not. -/
def call (c : FlashCall) (x : DeviceM δ Unit) : DeviceM (Watched δ) Unit := fun d =>
  match x.run d.device with
  | .ok () inner => .ok () ⟨inner, (d.device, .call c) :: d.requests⟩
  | .error e inner => .error e ⟨inner, (d.device, .call c) :: d.requests⟩

@[simp] theorem run_call (c : FlashCall) (x : DeviceM δ Unit) (d : Watched δ) :
    (call c x).run d =
      match x.run d.device with
      | .ok () inner => .ok () ⟨inner, (d.device, .call c) :: d.requests⟩
      | .error e inner => .error e ⟨inner, (d.device, .call c) :: d.requests⟩ := rfl

instance [FlashDevice δ] : FlashDevice (Watched δ) where
  pageSize := FlashDevice.pageSize δ
  capacity d := FlashDevice.capacity d.device
  readWord d := FlashDevice.readWord d.device
  programWord a w := call (.program a w) (FlashDevice.programWord a w)
  erasePage a := call (.erase a) (FlashDevice.erasePage a)
  unlock := protect .unlock FlashDevice.unlock
  lock := protect .lock FlashDevice.lock

instance [Addressable δ] : Addressable (Watched δ) where
  slice d := Addressable.slice d.device

instance [PowerControlled δ] : PowerControlled (Watched δ) where
  cutPowerAfter n := mapInner (PowerControlled.cutPowerAfter n)
  restorePower := mapInner PowerControlled.restorePower

end Watched

end FlashStore
