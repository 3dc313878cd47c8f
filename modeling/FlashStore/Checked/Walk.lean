import FlashStore.Chain
import FlashStore.Checked.Arithmetic

/-!
# Walks in 32 bits

A `Walk` steps along the chain of a block from one record to the next, in 32-bit arithmetic.
Searches and sums are loops over its steps that stop as early as they can. All of them are `none` if
a sum does not fit.
-/

namespace FlashStore

/-- A walk along the chain of a block. -/
structure Walk where
  block : Block
  address : Nat
  /-- Where the walk has met a vacant place. -/
  endMarker : Option Nat
  finished : Bool
  deriving DecidableEq, Repr

namespace Walk

/-- What a step returns: a record, the error where the chain breaks, or nothing. -/
abbrev Item := Option (Except StoreError Record)

def startingAt (block : Block) (a : Nat) : Walk := ⟨block, a, none, false⟩

def start? (block : Block) : Option Walk := block.first?.map (startingAt block)

/-- The walk is over at a place where no record can stand. -/
def broken (w : Walk) : Item × Walk :=
  (some (.error (.brokenChain w.address)), { w with finished := true })

/-- Step over a record of this length. One whose end does not fit 32 bits reaches past the block, so
these two sums do not fault. -/
def accept (w : Walk) (stop : Nat) (id length : Word) : Item × Walk :=
  if length = 0 ∨ length = Word.erased then w.broken
  else
    match (recordSpan? length).bind fun span => ranged (w.address + span.toNat) with
    | none => w.broken
    | some next =>
      if stop < next then w.broken
      else (some (.ok ⟨w.address, id, length⟩), { w with address := next })

/-- Step to the next record, removed ones included. -/
def next? (word : Nat → Word) (w : Walk) : Option (Item × Walk) := do
  if w.finished then
    return (none, w)
  let stop ← w.block.stop?
  if stop ≤ w.address then
    return (none, { w with finished := true })
  let id := word (← ranged (w.address + idOffset))
  if id = vacantId then
    return (none, { w with finished := true, endMarker := some w.address })
  if stop < (← ranged (w.address + payloadOffset)) then
    return w.broken
  return w.accept stop id (word (← ranged (w.address + lengthOffset)))

theorem accept_ok {w w' : Walk} {stop : Nat} {id length : Word} {r : Record}
    (h : w.accept stop id length = (some (.ok r), w')) :
    w'.block = w.block ∧ w.address < w'.address ∧ w'.address ≤ stop := by
  unfold accept at h
  split at h
  · cases h
  · split at h
    · cases h
    · rename_i next hnext
      split at h
      · cases h
      · rename_i hle
        obtain ⟨span, hspan, hsum⟩ := Option.bind_eq_some_iff.1 hnext
        obtain rfl := eq_of_ranged hsum
        obtain ⟨-, rfl⟩ := Prod.mk.inj h
        have hpos := payloadOffset_le_recordSpan length.toNat
        rw [← toNat_of_recordSpan? hspan] at hpos
        refine ⟨rfl, ?_, Nat.not_lt.1 hle⟩
        simp only [payloadOffset] at hpos ⊢
        omega

/-- A step that returns a record moves on inside the block. -/
theorem next?_ok {word : Nat → Word} {w w' : Walk} {r : Record}
    (h : w.next? word = some (some (.ok r), w')) :
    w'.block = w.block ∧ w.address < w'.address ∧ w'.address ≤ w.block.stop := by
  simp only [next?, Option.bind_eq_bind, Option.pure_def, broken] at h
  split at h
  · cases h
  · obtain ⟨stop, hstop, h⟩ := Option.bind_eq_some_iff.1 h
    obtain rfl : stop = w.block.stop := eq_of_ranged hstop
    split at h
    · cases h
    · obtain ⟨_, -, h⟩ := Option.bind_eq_some_iff.1 h
      split at h
      · cases h
      · obtain ⟨_, -, h⟩ := Option.bind_eq_some_iff.1 h
        split at h
        · cases h
        · obtain ⟨_, -, h⟩ := Option.bind_eq_some_iff.1 h
          exact accept_ok (Option.some.inj h)

/-- What so many steps return, and the walk after them. -/
def steps? (word : Nat → Word) : Nat → Walk → Option (List Item × Walk)
  | 0, w => some ([], w)
  | n + 1, w => do
    let (item, w) ← w.next? word
    let (items, w) ← steps? word n w
    return (item :: items, w)

/-- Walk on for as long as records are found and the loop body yields. Returns what the body has
made of them, the error where the chain breaks, and the walk. -/
def loop? {α : Type} (word : Nat → Word) (body : Record → α → Option (ForInStep α)) (w : Walk)
    (x : α) : Option (α × Option StoreError × Walk) :=
  match h : w.next? word with
  | none => none
  | some (none, w') => some (x, none, w')
  | some (some (.error e), w') => some (x, some e, w')
  | some (some (.ok r), w') =>
    have : w'.block.stop - w'.address < w.block.stop - w.address := by
      obtain ⟨hblock, hlt, hle⟩ := next?_ok h
      rw [hblock]
      omega
    match body r x with
    | none => none
    | some (.done x') => some (x', none, w')
    | some (.yield x') => loop? word body w' x'
termination_by w.block.stop - w.address

section

variable {α : Type} {word : Nat → Word} {body : Record → α → Option (ForInStep α)} {w w' : Walk}
  {x : α}

theorem loop?_of_fault (h : w.next? word = none) : w.loop? word body x = none := by
  rw [loop?]
  split <;> simp_all

theorem loop?_of_end (h : w.next? word = some (none, w')) :
    w.loop? word body x = some (x, none, w') := by
  rw [loop?]
  split <;> simp_all

theorem loop?_of_error {e : StoreError} (h : w.next? word = some (some (.error e), w')) :
    w.loop? word body x = some (x, some e, w') := by
  rw [loop?]
  split <;> simp_all

theorem loop?_of_ok {r : Record} (h : w.next? word = some (some (.ok r), w')) :
    w.loop? word body x =
      match body r x with
      | none => none
      | some (.done x') => some (x', none, w')
      | some (.yield x') => w'.loop? word body x' := by
  rw [loop?]
  split <;> simp_all

end

end Walk

/-! ### Loops over the records of a block -/

namespace Record

/-- The span in 32 bits, the largest word if it does not fit. -/
def span32 (r : Record) : Nat := ((recordSpan? r.length).map UInt32.toNat).getD 0xFFFFFFFF

/-- The first address past the record in 32 bits, the largest word if it does not fit. -/
def stop32 (r : Record) : Nat := saturated (r.address + r.span32)

end Record

namespace Chain

variable (word : Nat → Word) (block : Block)

/-- The result of a loop, unless the chain has broken. -/
def resultOf {α : Type} (x : α) : Option StoreError → Except StoreError α
  | none => .ok x
  | some e => .error e

/-- The first record with an id from a walk on. -/
def findFrom? (w : Walk) (id : Word) : Option (Except StoreError (Option Record)) := do
  let (found, error, _) ← w.loop? word
    (fun r _ => some (if r.id = id then .done (some r) else .yield none)) none
  return resultOf found error

/-- The first record with an id. -/
def find? (id : Word) : Option (Except StoreError (Option Record)) := do
  findFrom? word (← Walk.start? block) id

/-- The next record with the id of a record. -/
def findNewer? (r : Record) : Option (Except StoreError (Option Record)) :=
  findFrom? word (Walk.startingAt block r.stop32) r.id

/-- Where records are appended, `none` if the records fill the block. -/
def findEnd? : Option (Except StoreError (Option Nat)) := do
  let (_, error, w) ← (← Walk.start? block).loop? word (fun _ _ => some (.yield ())) ()
  return resultOf w.endMarker error

/-- Bytes held by removed records. -/
def removedBytes? : Option (Except StoreError Nat) := do
  let (total, error, _) ← (← Walk.start? block).loop? word (fun r total =>
    if r.isLive then some (.yield total) else (ranged (total + r.span32)).map .yield) 0
  return resultOf total error

/-- The records with a property, and the error where the chain breaks. -/
def filter? (p : Record → Bool) : Option (List Record × Option StoreError) := do
  let (records, error, _) ← (← Walk.start? block).loop? word
    (fun r records => some (.yield (if p r then records ++ [r] else records))) []
  return (records, error)

/-- Keep a live record unless there is a newer one. The chain may break after it. -/
def keepSurvivor? (r : Record) (records : List Record) : Option (ForInStep (List Record)) := do
  if !r.isLive then
    return .yield records
  match ← findNewer? word block r with
  | .ok (some _) => return .yield records
  | _ => return .yield (records ++ [r])

/-- The live records that no later one supersedes. -/
def survivors? : Option (List Record) := do
  let (records, _) ← (← Walk.start? block).loop? word (keepSurvivor? word block) []
  return records

/-- Keep a live record if there is a newer one. The chain must not break after it. -/
def keepSuperseded? (r : Record) (records : Except StoreError (List Record)) :
    Option (ForInStep (Except StoreError (List Record))) := do
  if !r.isLive then
    return .yield records
  match ← findNewer? word block r with
  | .ok (some _) => return .yield (records.map (· ++ [r]))
  | .ok none => return .yield records
  | .error e => return .done (.error e)

/-- The live records that a later one supersedes. -/
def superseded? : Option (Except StoreError (List Record)) := do
  let (records, error, _) ← (← Walk.start? block).loop? word (keepSuperseded? word block) (.ok [])
  return (resultOf records error).bind id

end Chain

end FlashStore
