import FlashStore.Layout

/-!
# Contents of a store

What is stored, apart from how: a list of entries in the order of their last write. A value
replaced or removed leaves no trace, so an id has one entry at most as long as entries come from
`Contents.put`.
-/

namespace FlashStore

/-- A value under its id. -/
structure Entry where
  id : Word
  data : List UInt8
  deriving DecidableEq, Repr

/-- The stored values in order. -/
abbrev Contents := List Entry

namespace Contents

/-- The value stored under an id. -/
def get? (c : Contents) (id : Word) : Option (List UInt8) :=
  (List.find? (·.id == id) c).map Entry.data

/-- The contents without the entries of an id. -/
def remove (id : Word) (c : Contents) : Contents := List.filter (·.id != id) c

/-- The contents with a value stored last, in place of the one there was. -/
def put (id : Word) (data : List UInt8) (c : Contents) : Contents := remove id c ++ [⟨id, data⟩]

/-- Bytes taken by the records of all entries. -/
def span : Contents → Nat
  | [] => 0
  | e :: c => recordSpan e.data.length + span c

@[simp] theorem span_nil : span [] = 0 := rfl

@[simp] theorem span_cons (e : Entry) (c : Contents) :
    span (e :: c) = recordSpan e.data.length + span c := rfl

@[simp] theorem get?_remove_self (id : Word) (c : Contents) : (remove id c).get? id = none := by
  simp [get?, remove]

theorem get?_remove_of_ne {id id' : Word} (h : id' ≠ id) (c : Contents) :
    (remove id c).get? id' = c.get? id' := by
  simp only [get?, remove, List.find?_filter]
  congr 2
  funext e
  by_cases he : e.id = id' <;> simp_all

@[simp] theorem get?_put_self (id : Word) (data : List UInt8) (c : Contents) :
    (put id data c).get? id = some data := by
  have := get?_remove_self id c
  simp only [get?, Option.map_eq_none_iff] at this
  simp [get?, put, List.find?_append, this]

theorem get?_put_of_ne {id id' : Word} (h : id' ≠ id) (data : List UInt8) (c : Contents) :
    (put id data c).get? id' = c.get? id' := by
  rw [← get?_remove_of_ne h c]
  simp [get?, put, List.find?_append, Ne.symm h]

end Contents

end FlashStore
