import FlashStore.Contents
import FlashStore.Proofs.Linked

/-!
# Records as words

A record is spelled on flash by its id, its length and the words of its payload. Whoever spells
records back to back has linked them, and reads the payloads back; this holds for copies of records
(`linked_relocated`, `entries_relocated`) and for a value (`payload_of_spells`).
-/

namespace FlashStore

variable {m m' : Memory} {stop a : Nat} {us vs ws : List Word} {r : Record} {rs : List Record}

/-! ### Spelled words -/

/-- The words from `a` on are these. -/
def Spells (m : Memory) (a : Nat) (ws : List Word) : Prop :=
  ∀ i (hi : i < ws.length), m (a + 4 * i) = ws[i]

lemma spells_writeWords (m : Memory) (a : Nat) (ws : List Word) :
    Spells (writeWords m a ws) a ws := fun _ hi => writeWords_getElem m hi

lemma Spells.congr (h : Spells m a ws) (hm : AgreeOn a (a + 4 * ws.length) m m') :
    Spells m' a ws :=
  fun i hi => (hm _ (by omega) (by omega)).trans (h i hi)

lemma Spells.left (h : Spells m a (us ++ vs)) : Spells m a us := by
  intro i hi
  rw [h i (by rw [List.length_append]; omega), List.getElem_append_left hi]

lemma Spells.right (h : Spells m a (us ++ vs)) : Spells m (a + 4 * us.length) vs := by
  intro i hi
  have h' := h (us.length + i) (by rw [List.length_append]; omega)
  rw [List.getElem_append_right (by omega)] at h'
  simp only [Nat.add_sub_cancel_left] at h'
  rw [← h']
  congr 1
  omega

/-! ### Records -/

namespace Record

/-- The words of a record on flash: its id, its length and its payload. -/
def image (m : Memory) (r : Record) : List Word := r.id :: r.length :: r.words m

@[simp] lemma four_mul_length_image (m : Memory) (r : Record) :
    4 * (r.image m).length = r.span := by
  simp only [image, List.length_cons, length_words, wordCount_eq, span, recordSpan, roundToWords,
    payloadOffset]
  omega

lemma address_add_eight (r : Record) : r.address + 8 = r.payloadAddress := rfl

/-- The payload words of a record end where the record does. -/
lemma payload_stop (r : Record) : r.payloadAddress + 4 * r.wordCount = r.stop := by
  have h := r.four_mul_length_image fun _ => 0
  simp only [image, List.length_cons, length_words] at h
  simp only [payloadAddress, payloadOffset, stop]
  omega

lemma words_eq_of_agreeOn (h : AgreeOn r.payloadAddress r.stop m m') : r.words m' = r.words m := by
  have hstop := r.payload_stop
  exact words_congr fun i hi => h _ (by omega) (by omega)

/-- A record that can stand in a block where its span fits. -/
structure WellFormed (r : Record) : Prop where
  id_ne : r.id ≠ vacantId
  length_ne_zero : r.length ≠ 0
  length_ne_erased : r.length ≠ Word.erased

lemma WellFormed.of_recordAt (h : recordAt m stop a = .ok r) : r.WellFormed :=
  have h' := (recordAt_eq_ok_iff.1 h).2
  ⟨h'.1, h'.2.1, h'.2.2.1⟩

end Record

/-- A header that is spelled at an address makes a record stand there. -/
lemma recordAt_of_spells {id length : Word} (h : Spells m a (id :: length :: ws))
    (hr : Record.WellFormed ⟨a, id, length⟩) (hs : Record.stop ⟨a, id, length⟩ ≤ stop) :
    recordAt m stop a = .ok ⟨a, id, length⟩ := by
  have h₀ : m a = id := h 0 (by simp)
  have h₄ : m (a + 4) = length := h 1 (by simp)
  rw [recordAt_eq_ok_iff, h₀, h₄]
  exact ⟨rfl, hr.id_ne, hr.length_ne_zero, hr.length_ne_erased, hs⟩

lemma words_of_spells {id length : Word} (h : Spells m a (id :: length :: ws))
    (hw : Record.wordCount ⟨a, id, length⟩ = ws.length) :
    Record.words m ⟨a, id, length⟩ = ws := by
  refine List.ext_getElem (by rw [Record.length_words, hw]) fun i hi hi' => ?_
  have h' := h (i + 2) (by simpa using hi')
  simp only [List.getElem_cons_succ] at h'
  simp only [Record.words, List.getElem_map, List.getElem_range, Record.payloadAddress,
    payloadOffset, ← h']
  congr 1
  omega

/-! ### Copies -/

/-- The records with the addresses they have back to back from `a` on. -/
def relocated : Nat → List Record → List Record
  | _, [] => []
  | a, r :: rs => { r with address := a } :: relocated (a + r.span) rs

@[simp] lemma totalSpan_relocated (a : Nat) (rs : List Record) :
    Record.totalSpan (relocated a rs) = Record.totalSpan rs := by
  induction rs generalizing a with
  | nil => rfl
  | cons r rs ih => rw [relocated, Record.totalSpan_cons, Record.totalSpan_cons, ih]; rfl

@[simp] lemma map_id_relocated (a : Nat) (rs : List Record) :
    (relocated a rs).map Record.id = rs.map Record.id := by
  induction rs generalizing a with
  | nil => rfl
  | cons r rs ih => rw [relocated, List.map_cons, List.map_cons, ih]

/-- The entries stored in records. -/
def entries (m : Memory) (rs : List Record) : Contents := rs.map fun r => ⟨r.id, r.payload m⟩

@[simp] lemma entries_nil (m : Memory) : entries m [] = [] := rfl

@[simp] lemma entries_cons (m : Memory) (r : Record) (rs : List Record) :
    entries m (r :: rs) = ⟨r.id, r.payload m⟩ :: entries m rs := rfl

lemma entries_append (m : Memory) (rs rs' : List Record) :
    entries m (rs ++ rs') = entries m rs ++ entries m rs' := List.map_append

/-- Payloads that read the same make the same entries. -/
lemma entries_congr (h : ∀ r ∈ rs, AgreeOn r.payloadAddress r.stop m m') :
    entries m' rs = entries m rs := by
  refine List.map_congr_left fun r hr => ?_
  rw [Record.payload, Record.payload, Record.words_eq_of_agreeOn (h r hr)]

/-- Payloads that read the same are copied alike. -/
lemma images_congr (h : ∀ r ∈ rs, AgreeOn r.payloadAddress r.stop m m') :
    (rs.flatMap fun r => r.image m') = rs.flatMap fun r => r.image m := by
  rw [List.flatMap, List.flatMap]
  congr 1
  refine List.map_congr_left fun r hr => ?_
  rw [Record.image, Record.image, Record.words_eq_of_agreeOn (h r hr)]

/-- Copies that are spelled back to back are linked. -/
lemma linked_relocated (hs : Spells m' a (rs.flatMap fun r => r.image m))
    (hr : ∀ r ∈ rs, r.WellFormed) (hstop : a + Record.totalSpan rs ≤ stop) :
    Linked m' stop a (relocated a rs) (a + Record.totalSpan rs) := by
  induction rs generalizing a with
  | nil => rfl
  | cons r rs ih =>
    rw [List.flatMap_cons] at hs
    rw [Record.totalSpan_cons] at hstop ⊢
    have hrest := hs.right
    rw [r.four_mul_length_image] at hrest
    have hwf := hr r List.mem_cons_self
    refine ⟨recordAt_of_spells hs.left ⟨hwf.id_ne, hwf.length_ne_zero, hwf.length_ne_erased⟩ ?_, ?_⟩
    · show a + r.span ≤ stop
      omega
    · have htail := ih hrest (fun r' hr' => hr r' (List.mem_cons_of_mem _ hr')) (by omega)
      rwa [Nat.add_assoc] at htail

/-- Copies that are spelled back to back hold the same entries. -/
lemma entries_relocated (hs : Spells m' a (rs.flatMap fun r => r.image m)) :
    entries m' (relocated a rs) = entries m rs := by
  induction rs generalizing a with
  | nil => rfl
  | cons r rs ih =>
    rw [List.flatMap_cons] at hs
    have hrest := hs.right
    rw [r.four_mul_length_image] at hrest
    have hw : Record.words m' { r with address := a } = r.words m :=
      words_of_spells hs.left (by rw [Record.length_words]; rfl)
    rw [relocated, entries_cons, entries_cons, ih hrest, Record.payload, Record.payload, hw]

/-! ### Values -/

/-- The words of a record that is written from a value. -/
def valueImage (id : Word) (data : List UInt8) : List Word :=
  id :: UInt32.ofNat data.length :: packWords data

@[simp] lemma four_mul_length_valueImage (id : Word) (data : List UInt8) :
    4 * (valueImage id data).length = recordSpan data.length := by
  simp only [valueImage, List.length_cons, length_packWords, recordSpan, roundToWords,
    payloadOffset]
  omega

lemma toNat_ofNat_length {data : List UInt8} (h : data.length < 2 ^ 32) :
    (UInt32.ofNat data.length).toNat = data.length := by
  rw [UInt32.toNat_ofNat', Nat.mod_eq_of_lt h]

/-- A value that is spelled reads back. -/
lemma payload_of_spells {id : Word} {data : List UInt8} (hlen : data.length < 2 ^ 32)
    (h : Spells m a (valueImage id data)) :
    Record.payload m ⟨a, id, UInt32.ofNat data.length⟩ = data := by
  have hcount : Record.wordCount ⟨a, id, UInt32.ofNat data.length⟩ = (packWords data).length := by
    rw [Record.wordCount_eq, toNat_ofNat_length hlen, length_packWords]
  rw [Record.payload, words_of_spells h hcount, toNat_ofNat_length hlen, unpackWords_packWords,
    List.take_left]

/-! ### Removal -/

/-- The memory with the payload and the id of a record cleared. -/
def cleared (m : Memory) (r : Record) : Memory :=
  Function.update (writeWords m r.payloadAddress (List.replicate r.wordCount 0)) r.idAddress
    removedId

end FlashStore
