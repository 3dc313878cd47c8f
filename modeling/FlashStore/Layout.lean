import FlashStore.Word

/-!
# Layout on flash

A store lives in two blocks used in alternation. A block starts with a magic word and a generation
counter; records follow one after another, each a header of id and length and a payload padded to
whole words. The first record whose id is still erased ends them.

```text
[ magic ] [ counter ]
[ id    ] [ length  ] [ payload … ]
[ id    ] [ length  ] [ payload … ]
[ erased words up to the end of the block ]
```
-/

namespace FlashStore

/-! ### Ids -/

/-- The magic word of a block in use, four letters in ASCII. -/
def magic : Word := 0x50617374

/-- The id of a removed record. -/
def removedId : Word := 0

/-- The id read where no record has been written. -/
def vacantId : Word := Word.erased

/-- Whether records may carry an id: the removed and vacant ids are reserved. -/
def isUsableId (id : Word) : Bool := id != removedId && id != vacantId

theorem isUsableId_iff {id : Word} : isUsableId id = true ↔ id ≠ removedId ∧ id ≠ vacantId := by
  simp [isUsableId]

/-! ### Offsets and spans -/

/-! A block holds its magic word, its counter and then its records. -/

def magicOffset : Nat := 0

def counterOffset : Nat := 4

def firstRecordOffset : Nat := 8

/-! A record holds its id, the length of its payload and then the payload. -/

def idOffset : Nat := 0

def lengthOffset : Nat := 4

def payloadOffset : Nat := 8

/-- The shortest payload that can be written. -/
def minPayload : Nat := 4

/-- A length rounded up to whole words. -/
def roundToWords (n : Nat) : Nat := (n + 3) / 4 * 4

/-- Bytes taken by a record with a payload of `n` bytes, header and padding included. -/
def recordSpan (n : Nat) : Nat := payloadOffset + roundToWords n

/-- `roundToWords` in 32 bits, `none` if a sum does not fit. -/
def roundToWords? (n : Word) : Option Word :=
  if n.toNat + 3 < 0x100000000 then some (UInt32.ofNat (roundToWords n.toNat)) else none

/-- `recordSpan` in 32 bits, `none` if a sum does not fit. -/
def recordSpan? (n : Word) : Option Word :=
  (roundToWords? n).bind fun m =>
    if m.toNat + payloadOffset < 0x100000000 then some (m + UInt32.ofNat payloadOffset) else none

theorem le_roundToWords (n : Nat) : n ≤ roundToWords n := by
  unfold roundToWords
  omega

theorem roundToWords_lt (n : Nat) : roundToWords n < n + 4 := by
  unfold roundToWords
  omega

@[simp] theorem roundToWords_mod (n : Nat) : roundToWords n % 4 = 0 := by simp [roundToWords]

theorem payloadOffset_le_recordSpan (n : Nat) : payloadOffset ≤ recordSpan n :=
  Nat.le_add_right _ _

/-- Where the span exists in 32 bits it is the exact span. -/
theorem toNat_of_recordSpan? {n m : Word} (h : recordSpan? n = some m) :
    m.toNat = recordSpan n.toNat := by
  unfold recordSpan? roundToWords? at h
  split at h
  · rename_i hn
    have hle := roundToWords_lt n.toNat
    have hw : (UInt32.ofNat (roundToWords n.toNat)).toNat = roundToWords n.toNat := by
      rw [UInt32.toNat_ofNat', Nat.mod_eq_of_lt]
      simp only [roundToWords]
      omega
    simp only [Option.bind_some, hw] at h
    split at h
    · rename_i hs
      obtain rfl := Option.some.inj h
      rw [UInt32.toNat_add, hw]
      simp only [payloadOffset, recordSpan] at hs ⊢
      simp
      omega
    · simp at h
  · simp at h

/-- The span exists in 32 bits if the exact span fits. -/
theorem exists_recordSpan? {n : Word} (h : recordSpan n.toNat < 0x100000000) :
    ∃ span, recordSpan? n = some span := by
  simp only [recordSpan, payloadOffset] at h
  have hround : (UInt32.ofNat (roundToWords n.toNat)).toNat = roundToWords n.toNat := by
    rw [UInt32.toNat_ofNat', Nat.mod_eq_of_lt (by omega)]
  have hn : n.toNat + 3 < 0x100000000 := by
    have hle := le_roundToWords n.toNat
    omega
  refine ⟨UInt32.ofNat (roundToWords n.toNat) + UInt32.ofNat payloadOffset, ?_⟩
  rw [recordSpan?, roundToWords?, if_pos hn, Option.bind_some, hround, if_pos]
  rw [payloadOffset]
  omega

/-! ### Blocks -/

/-- The two blocks of a store. -/
inductive Side where
  | a
  | b
  deriving DecidableEq, Repr

namespace Side

/-- The other block. -/
def other : Side → Side
  | a => b
  | b => a

/-- The number a block is reported by. -/
def index : Side → Nat
  | a => 0
  | b => 1

/-- The block of a number: even numbers name the first, odd ones the second. -/
def ofIndex (n : Nat) : Side := if n % 2 = 0 then a else b

@[simp] theorem other_other (s : Side) : s.other.other = s := by cases s <;> rfl

@[simp] theorem ofIndex_index (s : Side) : ofIndex s.index = s := by cases s <;> rfl

end Side

/-- A region of the device that holds a header and records. -/
structure Block where
  base : Nat
  size : Nat
  deriving DecidableEq, Repr

namespace Block

def magicAddress (block : Block) : Nat := block.base + magicOffset

def counterAddress (block : Block) : Nat := block.base + counterOffset

/-- Address of the first record. -/
def first (block : Block) : Nat := block.base + firstRecordOffset

/-- The first address past the block. -/
def stop (block : Block) : Nat := block.base + block.size

/-- The largest span of records the block can hold. -/
def capacity (block : Block) : Nat := block.size - firstRecordOffset

/-- The word addresses from `start` to the end of the block. -/
def wordsFrom (block : Block) (start : Nat) : List Nat :=
  (List.range ((block.stop - start + 3) / 4)).map fun i => start + 4 * i

/-- The addresses of the erase pages of the block. -/
def pages (block : Block) (pageSize : Nat) : List Nat :=
  (List.range ((block.size + pageSize - 1) / pageSize)).map fun i => block.base + pageSize * i

theorem mem_wordsFrom {block : Block} {start a : Nat} :
    a ∈ block.wordsFrom start ↔ start ≤ a ∧ a < block.stop ∧ (a - start) % 4 = 0 := by
  simp only [wordsFrom, List.mem_map, List.mem_range]
  constructor
  · rintro ⟨i, hi, rfl⟩
    omega
  · intro h
    exact ⟨(a - start) / 4, by omega, by omega⟩

theorem mem_pages {block : Block} {pageSize a : Nat} (hp : pageSize ∣ block.size)
    (hpos : 0 < pageSize) :
    a ∈ block.pages pageSize ↔
      block.base ≤ a ∧ a < block.stop ∧ pageSize ∣ a - block.base := by
  obtain ⟨k, hk⟩ := hp
  have hn : (block.size + pageSize - 1) / pageSize = k := by
    rw [hk, Nat.add_sub_assoc hpos, Nat.mul_add_div hpos, Nat.div_eq_of_lt (by omega),
      Nat.add_zero]
  rw [pages, hn]
  simp only [stop, hk, List.mem_map, List.mem_range]
  constructor
  · rintro ⟨i, hi, rfl⟩
    refine ⟨Nat.le_add_right _ _, Nat.add_lt_add_left (Nat.mul_lt_mul_of_pos_left hi hpos) _, ?_⟩
    exact ⟨i, Nat.add_sub_cancel_left _ _⟩
  · rintro ⟨hle, hlt, i, hi⟩
    refine ⟨i, Nat.lt_of_mul_lt_mul_left (a := pageSize) (by omega), by omega⟩

end Block

end FlashStore
