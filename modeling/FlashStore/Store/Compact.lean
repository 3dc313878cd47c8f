import FlashStore.Store.Basic

/-!
# Compaction

A compaction copies the records that count to the spare block and makes it current. The spare
becomes current once its magic word is programmed, after every record and the new generation are in
place, so a power cut at any earlier point leaves the old block current.
-/

namespace FlashStore.Store

variable {δ : Type} [FlashDevice δ]

/-- Move the records that count to the spare block and make it current, then erase the old block.

A broken chain does not stop it: what precedes the damage is kept. -/
def moveToSpare : StoreM δ Unit := do
  let old := (← get).block
  let new := (← get).spare
  onDevice (wipeBlock new)
  let records := (← get).chain.records
  let generation := (← get).generation + 1
  let cursor ← onDevice do
    let cursor ← copyRecords (survivors records) new.first
    programVerified new.counterAddress generation
    programVerified new.magicAddress magic
    return cursor
  modify fun s => { s with current := s.current.other, generation, cursor }
  onDevice (wipeBlock old)

/-- Compact the store, whether it is in service or not. -/
def compactNow : StoreM δ Unit := withUnlocked moveToSpare

/-- Compact the store into the other block. -/
def compact : StoreM δ Unit := do
  query requireService
  suspendOnFailure compactNow

/-- Bytes held by removed records, which the next compaction recovers. -/
def reclaimable (s : Store δ) : Except StoreError Nat := do
  s.requireService
  s.chain.requireIntact
  return s.chain.removedBytes

/-- Compact if free space is below the reserve and there is something to reclaim. Returns whether a
compaction ran. -/
def compactIfLow : StoreM δ Bool := do
  query requireService
  if (← get).placement.reserve.toNat ≤ (← get).free then
    return false
  if (← suspendOnFailure (query reclaimable)) = 0 then
    return false
  suspendOnFailure compactNow
  return true

/-- Nothing can be compacted while the store is out of service. -/
theorem run_compact_of_requireService {s : Store δ} {e : StoreError}
    (h : s.requireService = .error e) : (compact : StoreM δ Unit).run s = .error e s := by
  simp [compact, h]

end FlashStore.Store
