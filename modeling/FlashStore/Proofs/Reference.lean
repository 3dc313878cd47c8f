import Mathlib.Tactic.Common
import FlashStore.Contents
import FlashStore.Store.Error

/-!
# Reference behaviour

What a store answers, said of its contents alone: a value is found under its id or it is not, and is
stored unless its id is reserved, it is too short, or the entries present leave no room for it.
-/

namespace FlashStore.Contents

variable {id : Word} {data : List UInt8} {c : Contents} {capacity : Nat} {e : StoreError}

/-- The value under an id, or why there is none. -/
def lookup (id : Word) (c : Contents) : Except StoreError (List UInt8) :=
  if isUsableId id then
    match c.get? id with
    | some data => .ok data
    | none => .error .notFound
  else .error .reservedId

/-- Whether a value can be stored next to all entries present, or why not. -/
def checkPut (capacity : Nat) (id : Word) (data : List UInt8) (c : Contents) :
    Except StoreError Unit :=
  if !isUsableId id then .error .reservedId
  else if data.length < minPayload then .error .tooShort
  else if capacity < span c + recordSpan data.length then .error .full
  else .ok ()

/-- The value under an id copied to the start of a buffer, or why it is not. -/
def readInto (id : Word) (buffer : List UInt8) (c : Contents) :
    Except StoreError (Nat × List UInt8) := do
  let data ← c.lookup id
  if buffer.length < data.length then throw .bufferTooSmall
  return (data.length, data ++ buffer.drop data.length)

/-- Whether there is a value under an id. -/
def contains (id : Word) (c : Contents) : Except StoreError Bool :=
  if isUsableId id then .ok (c.get? id).isSome else .error .reservedId

/-- The ids with the lengths of their values, in order. -/
def listing (c : Contents) : List (Word × Nat) := c.map fun e => (e.id, e.data.length)

lemma lookup_eq_ok_iff : c.lookup id = .ok data ↔ isUsableId id = true ∧ c.get? id = some data := by
  unfold lookup
  split
  · rename_i h
    cases c.get? id <;> simp [h]
  · rename_i h
    simp [h]

lemma checkPut_eq_ok_iff : checkPut capacity id data c = .ok () ↔
    isUsableId id = true ∧ minPayload ≤ data.length ∧
      span c + recordSpan data.length ≤ capacity := by
  unfold checkPut
  split
  · rename_i h
    simp at h
    simp [h]
  · rename_i h
    simp at h
    split
    · simp
      omega
    · split
      · simp
        omega
      · simp [h]
        omega

lemma checkPut_of_lt (hid : isUsableId id = true) (hmin : minPayload ≤ data.length)
    (h : capacity < span c + recordSpan data.length) :
    checkPut capacity id data c = .error .full := by
  simp [checkPut, hid, Nat.not_lt.2 hmin, h]

/-- A value that is long enough, under a usable id, is refused only for want of room. -/
lemma eq_full_of_checkPut (hid : isUsableId id = true) (hmin : minPayload ≤ data.length)
    (h : checkPut capacity id data c = .error e) : e = .full := by
  by_cases hroom : span c + recordSpan data.length ≤ capacity
  · rw [checkPut_eq_ok_iff.2 ⟨hid, hmin, hroom⟩] at h
    cases h
  · rw [checkPut_of_lt hid hmin (Nat.lt_of_not_le hroom)] at h
    exact (Except.error.inj h).symm

lemma checkPut_error (h : checkPut capacity id data c = .error e) :
    e = .reservedId ∨ e = .tooShort ∨ e = .full := by
  unfold checkPut at h
  split at h
  · exact Or.inl (Except.error.inj h).symm
  · split at h
    · exact Or.inr (Or.inl (Except.error.inj h).symm)
    · split at h
      · exact Or.inr (Or.inr (Except.error.inj h).symm)
      · cases h

end FlashStore.Contents
