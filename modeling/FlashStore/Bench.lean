import FlashStore.Flash.Checksum
import FlashStore.Flash.Faulty
import FlashStore.Flash.Nor
import FlashStore.Session

/-!
# Test bench

On the bench a session runs over NOR flash with faults in front of it, and the device can be reached
past the store: words are read, programmed and poked, faults set and cleared, and images taken.
-/

namespace FlashStore

variable {size page : Nat}

/-- A session over NOR flash with faults. -/
abbrev Bench (size page : Nat) := Session (Faulty (NorFlash size page))

/-- A command to the device on the bench. -/
inductive BenchCommand where
  | geometry
  | read (a : Nat)
  | program (a : Nat) (w : Word)
  | erase (a : Nat)
  | unlock
  | lock
  | slice (a n : Nat)
  | poke (a : Nat) (w : Word)
  | dump (start stop : Nat)
  | image
  | stick (a : Nat) (mask : Word)
  | failProgram (a : Nat)
  | failErase (a : Nat)
  | limitSlice (limit : Nat)
  | clearFaults
  deriving DecidableEq

/-- What can be seen of an open store. -/
structure StoreStatus where
  inService : Bool
  current : Side
  generation : Word
  free : Nat
  deriving DecidableEq, Repr

/-- What can be seen on the bench after a command. -/
structure Status where
  locked : Bool
  poweredDown : Bool
  programs : Nat
  erases : Nat
  checksum : Word
  store : Option StoreStatus
  deriving DecidableEq, Repr

namespace Bench

/-- A bench with flash on it. Flash that the store cannot protect is unlocked for good. -/
def start (flash : NorFlash size page) (protectable : Bool) (placement : Placement) :
    Bench size page :=
  let flash := if protectable then flash else FlashDevice.unlock flash
  Session.start ⟨flash, Faults.empty, protectable⟩ placement

/-- What can be seen now. -/
def status (x : Bench size page) : Status :=
  let flash := x.device.device
  { locked := flash.locked
    poweredDown := flash.isPoweredDown
    programs := flash.programs
    erases := flash.erases
    checksum := Checksum.fnv1a flash.image
    store := x.store?.map fun s => ⟨s.inService, s.current, s.generation, s.free⟩ }

/-- Run a program or erase on the device. -/
def call (c : DeviceM (Faulty (NorFlash size page)) Unit) (x : Bench size page) :
    Answer × Bench size page :=
  match c.run x.device with
  | .ok () d => (.done, x.setDevice d)
  | .error e d => (.deviceError e, x.setDevice d)

/-- Change the faults. -/
def mapFaults (f : Faults → Faults) (x : Bench size page) : Answer × Bench size page :=
  (.done, x.setDevice { x.device with faults := f x.device.faults })

/-- Run a command on the device. -/
def step : BenchCommand → Bench size page → Answer × Bench size page
  | .geometry, x =>
    (.geometry (FlashDevice.pageSize (NorFlash size page)) (FlashDevice.capacity x.device), x)
  | .read a, x => (.word (some (FlashDevice.readWord x.device a)), x)
  | .program a w, x => x.call (FlashDevice.programWord a w)
  | .erase a, x => x.call (FlashDevice.erasePage a)
  | .unlock, x => (.done, x.setDevice (FlashDevice.unlock x.device))
  | .lock, x => (.done, x.setDevice (FlashDevice.lock x.device))
  | .slice a n, x => (.bytes (Addressable.slice x.device a n), x)
  | .poke a w, x => x.call (Faulty.onInner (NorFlash.poke a w))
  | .dump start stop, x => (.bytes (some (x.device.device.bytesFrom start (stop - start))), x)
  | .image, x => (.bytes (some x.device.device.image), x)
  | .stick a mask, x => x.mapFaults (Faults.addStuck a mask)
  | .failProgram a, x => x.mapFaults (Faults.addProgram a)
  | .failErase a, x => x.mapFaults (Faults.addErase a)
  | .limitSlice limit, x => x.mapFaults (Faults.setSliceLimit limit)
  | .clearFaults, x => x.mapFaults fun _ => Faults.empty

end Bench

end FlashStore
