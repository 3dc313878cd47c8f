import FlashStore.Word

/-!
# Flash devices

NOR flash as the store sees it: words can be read at any time, programming can only clear bits,
and the only way to set bits again is to erase a whole page. `FlashDevice` is what the store
needs, `Addressable` adds direct access to the bytes, `PowerControlled` adds the supply of a device
on a test bench.

Programs and erases run in `EStateM`, so a call that fails still says which device it left behind.
-/

namespace FlashStore

/-- Why a device refuses a call. -/
inductive DeviceError where
  /-- The controller reported a failed program. -/
  | program
  /-- The controller reported a failed page erase. -/
  | erase
  | outOfBounds
  /-- The address is not a multiple of the word or page size. -/
  | unaligned
  /-- The device is write protected. -/
  | locked
  | powerLoss
  deriving DecidableEq, Repr

/-- The name an error is reported by. -/
def DeviceError.name : DeviceError → String
  | program => "Program"
  | erase => "Erase"
  | outOfBounds => "OutOfBounds"
  | unaligned => "Unaligned"
  | locked => "Locked"
  | powerLoss => "PowerLoss"

/-- A program or erase on a device of type `δ`. -/
abbrev DeviceM (δ : Type) := EStateM DeviceError δ

/-- Flash that is read and programmed by the word and erased by the page. Success of a program does
not say that the word reads back as given, and a device need not have write protection. -/
class FlashDevice (δ : Type) where
  pageSize : Word
  capacity : δ → Word
  readWord : δ → Nat → Word
  programWord : Nat → Word → DeviceM δ Unit
  erasePage : Nat → DeviceM δ Unit
  unlock : δ → δ := id
  lock : δ → δ := id

/-- A device whose bytes are directly addressable. -/
class Addressable (δ : Type) where
  /-- The bytes at an address, `none` if the range leaves the device. -/
  slice : δ → Nat → Nat → Option (List UInt8)

/-- A device whose power can be cut after a number of programs and erases. -/
class PowerControlled (δ : Type) where
  cutPowerAfter : Nat → δ → δ
  restorePower : δ → δ

end FlashStore
