import FlashStore.Checked.Record
import FlashStore.Session

/-!
# Stores in 32 bits

The operations of a store with every address and size computed as the machine does.
`StoreCommand.run?` is `StoreCommand.run` with these sums, and `none` if one of them faults. Like
there, the records to copy or to remove are looked up before the first of them is.
-/

namespace FlashStore

variable {δ α : Type}

namespace Store

/-! ### Combinators -/

/-- Take over the answer of a question about the store. -/
def query? (q : Store δ → Option (Except StoreError α)) : CheckedM StoreError (Store δ) α :=
  fun s => (q s).map fun
    | .ok a => .ok a s
    | .error e => .error e s

/-- Run programs and erases on the device. -/
def onDevice? (x : CheckedM StoreError δ α) : CheckedM StoreError (Store δ) α := fun s =>
  (x s.device).map fun
    | .ok a d => .ok a { s with device := d }
    | .error e d => .error e { s with device := d }

/-- Put the store out of service if an operation fails part way. -/
def suspendOnFailure? (x : CheckedM StoreError (Store δ) α) : CheckedM StoreError (Store δ) α :=
  fun s => (x s).map fun
    | .ok a s' => .ok a s'
    | .error e s' => .error e { s' with inService := s'.inService && !e.isDisruptive }

variable [FlashDevice δ]

/-- Run an operation with write protection lifted. -/
def withUnlocked? (x : CheckedM StoreError (Store δ) α) : CheckedM StoreError (Store δ) α :=
  fun s => (x s.beginUnlocked).map fun
    | .ok a s' => .ok a s'.endUnlocked
    | .error e s' => .error e s'.endUnlocked

/-! ### Questions -/

/-- Bytes between the last record and the end of the current block. -/
def free? (s : Store δ) : Option Nat := do return (← s.block.stop?) - s.cursor

/-- The generation in the header of a block, `none` if it does not carry the magic word. -/
def readHeader? (s : Store δ) (side : Side) : Option (Option Word) := do
  let block := s.placement.block side
  if s.word (← block.magicAddress?) = magic then
    return some (s.word (← block.counterAddress?))
  else
    return none

/-- The live record of an id. -/
def find? (id : Word) (s : Store δ) : Option (Except StoreError Record) := ExceptT.run do
  if !isUsableId id then throw .reservedId
  s.requireService
  match ← ExceptT.mk (Chain.find? s.word s.block id) with
  | some r => return r
  | none => throw .notFound

/-- Fill a buffer with the words at an address and after it, which moves past every word. -/
def fillWords? (word : Nat → Word) (a : Nat) : List UInt8 → Option (List UInt8)
  | _ :: _ :: _ :: _ :: rest => do
    let next ← ranged (a + 4)
    return (word a).toBytes ++ (← fillWords? word next rest)
  | [] => some []
  | tail => do
    let _ ← ranged (a + 4)
    return (word a).toBytes.take tail.length

/-- Copy the value of an id to the start of a buffer. -/
def readInto? (id : Word) (buffer : List UInt8) (s : Store δ) :
    Option (Except StoreError (Nat × List UInt8)) := ExceptT.run do
  let r ← ExceptT.mk (s.find? id)
  let n := r.length.toNat
  if buffer.length < n then throw .bufferTooSmall
  let data ← fillWords? s.word (← r.payloadAddress?) (buffer.take n)
  return (n, data ++ buffer.drop n)

/-- The value of an id, as a slice of the device. -/
def read? [Addressable δ] (id : Word) (s : Store δ) : Option (Except StoreError (List UInt8)) :=
  ExceptT.run do
    let r ← ExceptT.mk (s.find? id)
    match Addressable.slice s.device (← r.payloadAddress?) r.length.toNat with
    | some data => return data
    | none => throw (.brokenChain r.address)

/-- Whether there is a value under an id. -/
def contains? (id : Word) (s : Store δ) : Option (Except StoreError Bool) :=
  (s.find? id).map fun
    | .ok _ => .ok true
    | .error .notFound => .ok false
    | .error e => .error e

/-- List the live records. -/
def list? (s : Store δ) : Option (Except StoreError Listing) := ExceptT.run do
  s.requireService
  let (records, error) ← Chain.filter? s.word s.block Record.isLive
  return ⟨records, error⟩

/-- Bytes held by removed records. -/
def reclaimable? (s : Store δ) : Option (Except StoreError Nat) := ExceptT.run do
  s.requireService
  ExceptT.mk (Chain.removedBytes? s.word s.block)

/-- The span of the record of a value, or why a write is refused before flash is touched. -/
def checkWrite? (id : Word) (data : List UInt8) (s : Store δ) : Option (Except StoreError Nat) :=
  ExceptT.run do
    if !isUsableId id then throw .reservedId
    if data.length < minPayload then throw .tooShort
    s.requireService
    let capacity ← s.block.capacity?
    match valueSpan? data with
    | none => throw .full
    | some span =>
      if capacity < span.toNat then throw .full
      return span.toNat

/-! ### Operations -/

/-- Move the records that count to the spare block and make it current. How much that has reclaimed
is computed for the log. -/
def moveToSpare? : CheckedM StoreError (Store δ) Unit := do
  let old := (← get).block
  let new := (← get).spare
  onDevice? (wipeBlock? new)
  let s ← get
  let generation := s.generation + 1
  let start ← new.first?
  let records ← Chain.survivors? s.word s.block
  let cursor ← onDevice? do
    let cursor ← copyRecords? records start
    .lift <| programVerified (← new.counterAddress?) generation
    .lift <| programVerified (← new.magicAddress?) magic
    return cursor
  let _ ← old.first?
  let _ ← new.first?
  let _ ← difference cursor start
  modify fun s => { s with current := s.current.other, generation, cursor }
  onDevice? (wipeBlock? old)

/-- Compact the store, whether it is in service or not. -/
def compactNow? : CheckedM StoreError (Store δ) Unit := withUnlocked? moveToSpare?

/-- Compact the store into the other block. -/
def compact? : CheckedM StoreError (Store δ) Unit := do
  .lift <| query requireService
  suspendOnFailure? compactNow?

/-- Compact if free space is below the reserve and there is something to reclaim. -/
def compactIfLow? : CheckedM StoreError (Store δ) Bool := do
  .lift <| query requireService
  let s ← get
  if s.placement.reserve.toNat ≤ (← s.free?) then
    return false
  if (← suspendOnFailure? (query? reclaimable?)) = 0 then
    return false
  suspendOnFailure? compactNow?
  return true

/-- Erase both blocks and start over on the first at generation 0. -/
def format? : CheckedM StoreError (Store δ) Unit := do
  modify fun s => { s with inService := false }
  let first := (← get).placement.block .a
  let second := (← get).placement.block .b
  withUnlocked? <| onDevice? do
    wipeBlock? first
    wipeBlock? second
    .lift <| programVerified (← first.counterAddress?) 0
    .lift <| programVerified (← first.magicAddress?) magic
  let cursor ← first.first?
  modify fun s => { s with current := .a, generation := 0, cursor, inService := true }

/-- Make a block current, with the next record where its chain ends. Returns whether it needs
repair. -/
def resume? (side : Side) (generation : Word) : CheckedM StoreError (Store δ) Bool := do
  modify fun s => { s with current := side, generation }
  let s ← get
  match ← Chain.findEnd? s.word s.block with
  | .ok (some a) =>
    modify fun s => { s with cursor := a }
    let _ ← s.block.stop?
    return (s.block.wordsFrom a).any fun a => s.word a != Word.erased
  | _ =>
    let stop ← s.block.stop?
    modify fun s => { s with cursor := stop }
    return true

/-- Remove older copies of records that were written twice. -/
def removeSuperseded? : CheckedM StoreError (Store δ) Unit := do
  let records ← query? fun s => Chain.superseded? s.word s.block
  records.forM fun r => withUnlocked? (onDevice? (removeRecord? r))

/-- Find the block in use and rebuild what is kept in memory. If there is none, format. -/
def recover? : CheckedM StoreError (Store δ) Unit := do
  modify fun s => { s with inService := false }
  let s ← get
  match newest (← s.readHeader? .a) (← s.readHeader? .b) with
  | none => format?
  | some (side, _) =>
    let generation := (← s.readHeader? side).getD 0
    if (← resume? side generation) then compactNow?
    removeSuperseded?
    modify fun s => { s with inService := true }

/-- Put a record at the cursor, and remove the one it replaces. -/
def placeRecord? (id : Word) (data : List UInt8) : CheckedM StoreError (Store δ) Unit := do
  let previous ← query? fun s => Chain.find? s.word s.block id
  let cursor ← onDevice? (writeRecord? (← get).cursor id data)
  modify fun s => { s with cursor }
  match previous with
  | some r => onDevice? (removeRecord? r)
  | none => pure ()

/-- Append a record of this span, compacting first if there is no room. -/
def append? (id : Word) (data : List UInt8) (span : Nat) : CheckedM StoreError (Store δ) Unit := do
  if (← (← get).free?) < span then
    compactNow?
    if (← (← get).free?) < span then throw .full
  placeRecord? id data

/-- Store a value under an id, replacing any previous one. -/
def write? (id : Word) (data : List UInt8) : CheckedM StoreError (Store δ) Unit := do
  let span ← query? (checkWrite? id data)
  suspendOnFailure? (withUnlocked? (append? id data span))
  try discard compactIfLow? catch _ => pure ()

/-- Remove the record of an id, with any other copy of it. -/
def erase? (id : Word) : CheckedM StoreError (Store δ) Unit := do
  let _ ← query? (find? id)
  suspendOnFailure? <| withUnlocked? do
    let s ← get
    let (records, error) ← Chain.filter? s.word s.block (·.id == id)
    records.forM fun r => onDevice? (removeRecord? r)
    match error with
    | none => pure ()
    | some e => throw e

end Store

/-! ### Commands -/

/-- Run a store operation and answer with its result. -/
def CheckedM.answer (x : CheckedM StoreError (Store δ) α) (f : α → Answer) (s : Store δ) :
    Option (Answer × Store δ) :=
  (x s).map fun
    | .ok a s' => (f a, s')
    | .error e s' => (.storeError e, s')

/-- Run a command on a store. -/
def StoreCommand.run? [FlashDevice δ] [Addressable δ] :
    StoreCommand → Store δ → Option (Answer × Store δ)
  | recover => CheckedM.answer Store.recover? fun _ => .done
  | format => CheckedM.answer Store.format? fun _ => .done
  | compact => CheckedM.answer Store.compact? fun _ => .done
  | compactIfLow => CheckedM.answer Store.compactIfLow? .flag
  | write id data => CheckedM.answer (Store.write? id data) fun _ => .done
  | erase id => CheckedM.answer (Store.erase? id) fun _ => .done
  | read id => fun s => (s.read? id).map fun x => (.ofStore (.bytes ∘ some) x, s)
  | readInto id buffer => fun s =>
    (s.readInto? id buffer).map fun x => (.ofStore (fun (n, b) => .copied n b) x, s)
  | contains id => fun s => (s.contains? id).map fun x => (.ofStore .flag x, s)
  | reclaimable => fun s => s.reclaimable?.map fun x => (.ofStore .count x, s)
  | list => fun s => s.list?.map fun x => (.ofStore .listing x, s)

end FlashStore
