import FlashStore.Layout

/-!
# Records

A `Record` is the header of a record found on flash: where it stands, its id and the length of its
payload. What a device holds is seen here as a function from addresses to words.
-/

namespace FlashStore

/-- The header of a record at an address. -/
structure Record where
  address : Nat
  id : Word
  length : Word
  deriving DecidableEq, Repr

namespace Record

/-- A removed record keeps its length and loses its id. -/
def isLive (r : Record) : Bool := r.id != removedId

def idAddress (r : Record) : Nat := r.address + idOffset

def lengthAddress (r : Record) : Nat := r.address + lengthOffset

def payloadAddress (r : Record) : Nat := r.address + payloadOffset

/-- Bytes taken by the record, header and padding included. -/
def span (r : Record) : Nat := recordSpan r.length.toNat

/-- The first address past the record. -/
def stop (r : Record) : Nat := r.address + r.span

/-- Bytes taken by records. -/
def totalSpan : List Record → Nat
  | [] => 0
  | r :: rs => r.span + totalSpan rs

/-- Words taken by the payload. -/
def wordCount (r : Record) : Nat := (r.span - payloadOffset) / 4

/-- The payload words, padding included, on a device that reads `word`. -/
def words (word : Nat → Word) (r : Record) : List Word :=
  (List.range r.wordCount).map fun i => word (r.payloadAddress + 4 * i)

/-- The payload on a device that reads `word`. -/
def payload (word : Nat → Word) (r : Record) : List UInt8 :=
  (unpackWords (r.words word)).take r.length.toNat

@[simp] theorem totalSpan_nil : totalSpan [] = 0 := rfl

@[simp] theorem totalSpan_cons (r : Record) (rs : List Record) :
    totalSpan (r :: rs) = r.span + totalSpan rs := rfl

/-- The records with a property and those without it take what all of them take. -/
theorem totalSpan_filter_add (p : Record → Bool) (rs : List Record) :
    totalSpan (rs.filter p) + totalSpan (rs.filter (!p ·)) = totalSpan rs := by
  induction rs with
  | nil => rfl
  | cons r rs ih => cases h : p r <;> simp [h] <;> omega

@[simp] theorem isLive_iff {r : Record} : r.isLive = true ↔ r.id ≠ removedId := by simp [isLive]

theorem address_lt_stop (r : Record) : r.address < r.stop := by
  have := payloadOffset_le_recordSpan r.length.toNat
  simp only [stop, span, payloadOffset] at *
  omega

theorem wordCount_eq (r : Record) : r.wordCount = (r.length.toNat + 3) / 4 := by
  simp only [wordCount, span, recordSpan, roundToWords]
  omega

@[simp] theorem length_words (word : Nat → Word) (r : Record) :
    (r.words word).length = r.wordCount := by
  simp [words]

@[simp] theorem length_payload (word : Nat → Word) (r : Record) :
    (r.payload word).length = r.length.toNat := by
  rw [payload, List.length_take, length_unpackWords, length_words, wordCount_eq]
  omega

/-- The payload words read the same on devices that agree on the payload. -/
theorem words_congr {word word' : Nat → Word} {r : Record}
    (h : ∀ i < r.wordCount, word (r.payloadAddress + 4 * i) = word' (r.payloadAddress + 4 * i)) :
    r.words word = r.words word' :=
  List.map_congr_left fun i hi => h i (List.mem_range.1 hi)

end Record

end FlashStore
