import FlashStore.Store.Update

/-!
# Reading values

Reading never changes a store. Payloads are read in two ways: word by word into a buffer, and as a
slice of a device whose bytes are directly addressable.
-/

namespace FlashStore.Store

variable {δ : Type} [FlashDevice δ]

/-- Copy the value of an id to the start of a buffer. Returns its length and the buffer after it. -/
def readInto (id : Word) (buffer : List UInt8) (s : Store δ) :
    Except StoreError (Nat × List UInt8) := do
  let r ← s.find id
  let n := r.length.toNat
  if buffer.length < n then throw .bufferTooSmall
  return (n, r.payload s.word ++ buffer.drop n)

/-- The value of an id, as a slice of the device. -/
def read [Addressable δ] (id : Word) (s : Store δ) : Except StoreError (List UInt8) := do
  let r ← s.find id
  match Addressable.slice s.device r.payloadAddress r.length.toNat with
  | some data => return data
  | none => throw (.brokenChain r.address)

/-- Whether there is a value under an id. -/
def contains (id : Word) (s : Store δ) : Except StoreError Bool :=
  match s.find id with
  | .ok _ => .ok true
  | .error .notFound => .ok false
  | .error e => .error e

theorem contains_eq_true_iff {id : Word} {s : Store δ} :
    s.contains id = .ok true ↔ ∃ r, s.find id = .ok r := by
  unfold contains
  cases s.find id with
  | ok r => simp
  | error e => cases e <;> simp

theorem contains_eq_false_iff {id : Word} {s : Store δ} :
    s.contains id = .ok false ↔ s.find id = .error .notFound := by
  unfold contains
  cases s.find id with
  | ok r => simp
  | error e => cases e <;> simp

/-- The live records of a store in order, and the error that cuts the list short. -/
structure Listing where
  records : List Record
  error : Option StoreError
  deriving DecidableEq, Repr

/-- List the live records. -/
def list (s : Store δ) : Except StoreError Listing := do
  s.requireService
  let error := match s.chain.requireIntact with
    | .ok _ => none
    | .error e => some e
  return ⟨s.chain.live, error⟩

end FlashStore.Store
