import FlashStore.Flash.Device

/-!
# Store errors

Why an operation on the store fails, and the text each failure is reported by. Errors are sorted
in two ways: usage errors come from bad arguments, repairable ones go away by recovering the store.
-/

namespace FlashStore

/-- Why an operation on the store fails. -/
inductive StoreError where
  /-- The id is one of the two reserved ones. -/
  | reservedId
  /-- The payload is shorter than a word. -/
  | tooShort
  /-- The store has not been recovered, or a failed operation has put it out of service. -/
  | outOfService
  /-- There is no room for the record, even after a compaction. -/
  | full
  | notFound
  | bufferTooSmall
  /-- The blocks do not fit the device. -/
  | misplaced
  /-- No record can stand at this address. -/
  | brokenChain (address : Nat)
  /-- Flash did not read back what was programmed or erased at this address. -/
  | readBack (address : Nat)
  /-- The device refused a call. -/
  | device (error : DeviceError)
  deriving DecidableEq, Repr

/-- An address as at least eight lowercase hexadecimal digits after `0x`. -/
def hexAddress (a : Nat) : String :=
  let digits := Nat.toDigits 16 a
  "0x" ++ String.ofList (List.replicate (8 - digits.length) '0' ++ digits)

namespace StoreError

/-- Whether the error comes from bad arguments. Such an error is raised before flash is touched. -/
def isUsage : StoreError → Bool
  | reservedId | tooShort | bufferTooSmall => true
  | _ => false

/-- Whether recovering the store is expected to repair it. -/
def isRepairable : StoreError → Bool
  | outOfService | brokenChain _ | readBack _ | device .powerLoss => true
  | _ => false

/-- Whether the error leaves what the store keeps in memory in doubt. -/
def isDisruptive (e : StoreError) : Bool := e != full && !e.isUsage

/-- The text an error is reported by. -/
def message : StoreError → String
  | reservedId => "reserved unit id"
  | tooShort => "unit shorter than 4 bytes"
  | outOfService => "past not initialized"
  | full => "past full"
  | notFound => "unit not found"
  | bufferTooSmall => "buffer too small"
  | misplaced => "invalid block geometry"
  | brokenChain address => "corrupted unit at " ++ hexAddress address
  | readBack address => "flash verify failed at " ++ hexAddress address
  | device error => "flash error: " ++ error.name

end StoreError

end FlashStore
