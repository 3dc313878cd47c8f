import FlashStore.Store.Compact

/-!
# Bringing a store up

`attach` takes over a device, `recover` finds the current block and rebuilds what the store keeps in
memory, `format` starts over. On a healthy store `recover` leaves flash untouched; a half-written
record, a full block or a broken chain is repaired by a compaction, and older copies of records that
were written twice are removed.
-/

namespace FlashStore.Store

variable {δ : Type} [FlashDevice δ]

/-- Take over a device, checking the placement against it. The store is out of service until it is
recovered. -/
def attach (device : δ) (placement : Placement) : Except StoreError (Store δ) := do
  placement.check (FlashDevice.pageSize δ) (FlashDevice.capacity device)
  return {
    device, placement
    current := .a
    generation := 0
    cursor := (placement.block .a).first
    inService := false
    unlockDepth := 0 }

/-- Erase both blocks and start over on the first at generation 0. -/
def format : StoreM δ Unit := do
  modify fun s => { s with inService := false }
  let first := (← get).placement.block .a
  let second := (← get).placement.block .b
  withUnlocked <| onDevice do
    wipeBlock first
    wipeBlock second
    programVerified first.counterAddress 0
    programVerified first.magicAddress magic
  modify fun s =>
    { s with current := .a, generation := 0, cursor := first.first, inService := true }

/-- The generation in the header of a block, `none` if it does not carry the magic word. -/
def header? (s : Store δ) (side : Side) : Option Word :=
  let block := s.placement.block side
  if s.word block.magicAddress = magic then some (s.word block.counterAddress) else none

/-- The block in use with its generation, by the headers of both. Of two, the one of the higher
generation is in use, and the first one if they are the same. -/
def newest (a b : Option Word) : Option (Side × Word) :=
  match a, b with
  | some m, some n => if m < n then some (.b, n) else some (.a, m)
  | some m, none => some (.a, m)
  | none, some n => some (.b, n)
  | none, none => none

/-- The block in use with its generation. -/
def newest? (s : Store δ) : Option (Side × Word) := newest (s.header? .a) (s.header? .b)

/-- Make a block current, with the next record where its chain ends. -/
def resume (side : Side) (generation : Word) (s : Store δ) : Store δ :=
  let s := { s with current := side, generation }
  { s with cursor := s.chain.freeAddress s.block }

/-- Whether the chain of the current block is followed by anything but erased words: a half-written
record, no room at all, or damage. -/
def needsRepair (s : Store δ) : Bool :=
  match s.chain.stop with
  | .vacant a => (s.block.wordsFrom a).any fun a => s.word a != Word.erased
  | _ => true

/-- Remove older copies of records that were written twice. Only a power cut between committing a
record and removing the one it replaces leaves them. -/
def removeSuperseded : StoreM δ Unit := do
  let chain := (← get).chain
  query fun _ => chain.requireIntact
  (superseded chain.records).forM fun r => withUnlocked (onDevice (removeRecord r))

/-- Find the block in use and rebuild what is kept in memory. If there is none, format. -/
def recover : StoreM δ Unit := do
  modify fun s => { s with inService := false }
  match (← get).newest? with
  | none => format
  | some (side, generation) =>
    modify (resume side generation)
    if (← get).needsRepair then compactNow
    removeSuperseded
    modify fun s => { s with inService := true }

theorem newest_eq_none_iff {a b : Option Word} : newest a b = none ↔ a = none ∧ b = none := by
  cases a <;> cases b <;> simp [newest]
  split <;> simp

theorem attach_eq_ok {d : δ} {p : Placement} {s : Store δ} (h : attach d p = .ok s) :
    p.accepts (FlashDevice.pageSize δ) (FlashDevice.capacity d) = true ∧
      s = ⟨d, p, .a, 0, (p.block .a).first, false, 0⟩ := by
  unfold attach at h
  cases hc : p.check (FlashDevice.pageSize δ) (FlashDevice.capacity d) with
  | error e => simp [hc, bind, Except.bind] at h
  | ok u =>
    refine ⟨Placement.check_eq_ok_iff.1 hc, ?_⟩
    simp only [hc, bind, Except.bind, pure, Except.pure, Except.ok.injEq] at h
    exact h.symm

end FlashStore.Store
