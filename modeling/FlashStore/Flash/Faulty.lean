import FlashStore.Flash.Device

/-!
# Faulty devices

`Faulty δ` puts faults in front of a device: bits that read as zero whatever was programmed,
addresses whose program or erase fails, and a limit on what can be sliced. A failing call does not
reach the device.
-/

namespace FlashStore

/-- The faults of a device. -/
structure Faults where
  /-- Addresses whose word reads with a mask, the latest first. -/
  stuck : List (Nat × Word)
  /-- Addresses whose program fails. -/
  program : List Nat
  /-- Addresses whose page erase fails. -/
  erase : List Nat
  /-- The end of what can be sliced. -/
  sliceLimit : Option Nat

namespace Faults

def empty : Faults := ⟨[], [], [], none⟩

/-- Let the word at an address read with a mask. -/
def addStuck (a : Nat) (mask : Word) (f : Faults) : Faults :=
  { f with stuck := (a, mask) :: f.stuck }

/-- Let programs at an address fail. -/
def addProgram (a : Nat) (f : Faults) : Faults := { f with program := a :: f.program }

/-- Let page erases at an address fail. -/
def addErase (a : Nat) (f : Faults) : Faults := { f with erase := a :: f.erase }

/-- Let slices that reach past a limit fail. -/
def setSliceLimit (limit : Nat) (f : Faults) : Faults := { f with sliceLimit := some limit }

/-- What a word at an address reads as. -/
def mask (f : Faults) (a : Nat) (w : Word) : Word :=
  match f.stuck.lookup a with
  | some m => w &&& m
  | none => w

@[simp] theorem mask_empty (a : Nat) (w : Word) : empty.mask a w = w := rfl

end Faults

/-- A device with faults. -/
structure Faulty (δ : Type) where
  device : δ
  faults : Faults
  /-- Whether the store can lift and restore write protection. -/
  protectable : Bool

namespace Faulty

variable {δ α : Type}

/-- Run a call on the device behind the faults. -/
def onInner (x : DeviceM δ α) : DeviceM (Faulty δ) α := fun d =>
  match x.run d.device with
  | .ok a inner => .ok a { d with device := inner }
  | .error e inner => .error e { d with device := inner }

/-- Change the device behind the faults. -/
def mapInner (f : δ → δ) (d : Faulty δ) : Faulty δ := { d with device := f d.device }

instance [FlashDevice δ] : FlashDevice (Faulty δ) where
  pageSize := FlashDevice.pageSize δ
  capacity d := FlashDevice.capacity d.device
  readWord d a := d.faults.mask a (FlashDevice.readWord d.device a)
  programWord a w := do
    if (← get).faults.program.contains a then throw .program
    onInner (FlashDevice.programWord a w)
  erasePage a := do
    if (← get).faults.erase.contains a then throw .erase
    onInner (FlashDevice.erasePage a)
  unlock d := if d.protectable then d.mapInner FlashDevice.unlock else d
  lock d := if d.protectable then d.mapInner FlashDevice.lock else d

instance [Addressable δ] : Addressable (Faulty δ) where
  slice d a n :=
    if d.faults.sliceLimit.any (· < a + n) then none else Addressable.slice d.device a n

instance [PowerControlled δ] : PowerControlled (Faulty δ) where
  cutPowerAfter n := mapInner (PowerControlled.cutPowerAfter n)
  restorePower := mapInner PowerControlled.restorePower

end Faulty

end FlashStore
