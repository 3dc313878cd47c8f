import FlashStore.Store.Compact

/-!
# Writing and erasing values

A write commits the new record before it removes the one it replaces, so that a power cut leaves
either the old or the new value. Arguments are checked before flash is touched.
-/

namespace FlashStore.Store

variable {δ : Type} [FlashDevice δ]

/-- The live record of an id. -/
def find (id : Word) (s : Store δ) : Except StoreError Record := do
  if !isUsableId id then throw .reservedId
  s.requireService
  match ← s.chain.find id with
  | some r => return r
  | none => throw .notFound

/-- Append a record, compacting first if there is no room, and remove the one it replaces. -/
def append (id : Word) (data : List UInt8) : StoreM δ Unit := do
  let span := recordSpan data.length
  if (← get).free < span then
    compactNow
    if (← get).free < span then throw .full
  let previous ← query fun s => s.chain.find id
  let cursor ← onDevice (writeRecord (← get).cursor id data)
  modify fun s => { s with cursor }
  match previous with
  | some r => onDevice (removeRecord r)
  | none => pure ()

/-- Why a write is refused before flash is touched. -/
def checkWrite (id : Word) (data : List UInt8) (s : Store δ) : Except StoreError Unit := do
  if !isUsableId id then throw .reservedId
  if data.length < minPayload then throw .tooShort
  s.requireService
  if s.block.capacity < recordSpan data.length then throw .full

/-- Store a value under an id, replacing any previous one.

Low space is reclaimed afterwards. The value is stored by then, so a failure of that is not
reported, but it may put the store out of service. -/
def write (id : Word) (data : List UInt8) : StoreM δ Unit := do
  query (checkWrite id data)
  suspendOnFailure (withUnlocked (append id data))
  try discard compactIfLow catch _ => pure ()

/-- Remove the record of an id, with any other copy of it. -/
def erase (id : Word) : StoreM δ Unit := do
  let _ ← query (find id)
  suspendOnFailure <| withUnlocked do
    let chain := (← get).chain
    (chain.records.filter (·.id == id)).forM fun r => onDevice (removeRecord r)
    query fun _ => chain.requireIntact

theorem run_write_of_checkWrite {id : Word} {data : List UInt8} {s : Store δ} {e : StoreError}
    (h : checkWrite id data s = .error e) : (write id data).run s = .error e s := by
  simp [write, h]

theorem run_erase_of_find {id : Word} {s : Store δ} {e : StoreError} (h : find id s = .error e) :
    (erase id).run s = .error e s := by
  simp [erase, h]

end FlashStore.Store
