import FlashStore.Checked.Walk
import FlashStore.Record.Program

/-!
# Programming records in 32 bits

The sequences of programs that lay out, copy and remove records, with the addresses computed as the
machine does. An operation in `CheckedM` faults where one of them does not fit 32 bits.
-/

namespace FlashStore

/-- An operation that ends as others do or faults, which is `none`. -/
def CheckedM (ε σ α : Type) : Type := σ → Option (EStateM.Result ε σ α)

namespace CheckedM

variable {ε σ α β : Type}

/-- A fault of the first operation ends a sequence, and so does a failure of it. -/
instance : Monad (CheckedM ε σ) where
  pure a := fun s => some (.ok a s)
  bind x f := fun s =>
    match x s with
    | none => none
    | some (.ok a s') => f a s'
    | some (.error e s') => some (.error e s')

/-- A failure can be handled, a fault cannot. -/
instance : MonadExceptOf ε (CheckedM ε σ) where
  throw e := fun s => some (.error e s)
  tryCatch x handle := fun s =>
    match x s with
    | some (.error e s') => handle e s'
    | result => result

/-- An operation without sums does not fault. -/
def lift (x : EStateM ε σ α) : CheckedM ε σ α := fun s => some (x.run s)

instance : MonadLift (EStateM ε σ) (CheckedM ε σ) where
  monadLift := lift

/-- A sum that does not fit is a fault. -/
instance : MonadLift Option (CheckedM ε σ) where
  monadLift n := fun s => n.map (.ok · s)

theorem bind_apply (x : CheckedM ε σ α) (f : α → CheckedM ε σ β) (s : σ) :
    (x >>= f) s =
      match x s with
      | none => none
      | some (.ok a s') => f a s'
      | some (.error e s') => some (.error e s') := rfl

theorem tryCatch_apply (x : CheckedM ε σ α) (handle : ε → CheckedM ε σ α) (s : σ) :
    MonadExcept.tryCatch x handle s =
      match x s with
      | some (.error e s') => handle e s'
      | result => result := rfl

end CheckedM

variable {δ : Type} [FlashDevice δ]

/-- The span of the record of a value in 32 bits, `none` if the length or a sum does not fit. -/
def valueSpan? (data : List UInt8) : Option Word :=
  if data.length < 0x100000000 then recordSpan? (UInt32.ofNat data.length) else none

namespace Record

def payloadAddress? (r : Record) : Option Nat := ranged (r.address + payloadOffset)

/-- Words taken by the payload. -/
def wordCount? (r : Record) : Option Nat := (difference r.span32 payloadOffset).map (· / 4)

end Record

/-- The address of the word of number `i` behind an address. -/
def wordAddress? (base i : Nat) : Option Nat := do ranged (base + (← ranged (4 * i)))

/-- The payload words, padding included, on a device that reads `word`. -/
def Record.words? (word : Nat → Word) (r : Record) : Option (List Word) := do
  let base ← r.payloadAddress?
  (List.range (← r.wordCount?)).mapM fun i => do return word (← wordAddress? base i)

/-- Program the words of a value from an address on, which moves past every whole one. -/
def programValue? (a : Nat) : List UInt8 → CheckedM StoreError δ Unit
  | b₀ :: b₁ :: b₂ :: b₃ :: rest => do
    .lift <| programVerified a (Word.ofBytes [b₀, b₁, b₂, b₃])
    programValue? (← ranged (a + 4)) rest
  | [] => pure ()
  | tail => .lift <| programVerified a (Word.ofBytes tail)

/-- Program words behind an address, the first one as the word of number `i`. -/
def programBehind? (base i : Nat) : List Word → CheckedM StoreError δ Unit
  | [] => pure ()
  | w :: ws => do
    .lift <| programVerified (← wordAddress? base i) w
    programBehind? base (i + 1) ws

/-- Lay out a record around the programs of its payload, the id last. -/
def commitRecord? (r : Record) (payload : CheckedM StoreError δ Unit) :
    CheckedM StoreError δ Unit := do
  payload
  .lift <| programVerified (← ranged (r.address + lengthOffset)) r.length
  .lift <| programVerified (← ranged (r.address + idOffset)) r.id

/-- Write a record at an address, and return the address after it. -/
def writeRecord? (a : Nat) (id : Word) (data : List UInt8) : CheckedM StoreError δ Nat := do
  match valueSpan? data with
  | none => throw .full
  | some span =>
    let r : Record := ⟨a, id, UInt32.ofNat data.length⟩
    commitRecord? r do programValue? (← r.payloadAddress?) data
    ranged (a + span.toNat)

/-- Copy a record to an address, and return the address after it. -/
def copyRecord? (r : Record) (a : Nat) : CheckedM StoreError δ Nat := do
  let words ← r.words? (FlashDevice.readWord (← get))
  let copy := { r with address := a }
  commitRecord? copy do programBehind? (← copy.payloadAddress?) 0 words
  ranged (a + r.span32)

/-- Copy records one after another from an address on, and return the address after the last. -/
def copyRecords? : List Record → Nat → CheckedM StoreError δ Nat
  | [], a => pure a
  | r :: rs, a => do copyRecords? rs (← copyRecord? r a)

/-- Clear the payload of a record, then its id. -/
def removeRecord? (r : Record) : CheckedM StoreError δ Unit := do
  programBehind? (← r.payloadAddress?) 0 (List.replicate (← r.wordCount?) 0)
  .lift <| programVerified (← ranged (r.address + idOffset)) removedId

/-- Erase every page of a block and check that the whole block reads as erased. -/
def wipeBlock? (block : Block) : CheckedM StoreError δ Unit := do
  let _ ← block.stop?
  .lift (wipeBlock block)

end FlashStore
