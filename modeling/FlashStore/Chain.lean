import FlashStore.Record.Basic
import FlashStore.Store.Error

/-!
# Chains of records

The records of a block form a chain: each starts where the one before it ends. `Chain.scan` walks
it to the first vacant place, to the end of the block, or to a place that no record of the block
can stand at, and never leaves the block.

Of several live records with one id the last one counts. `survivors` are the records that count.
-/

namespace FlashStore

/-- How a chain ends. -/
inductive Stop where
  /-- Nothing has been written at this address: records are appended here. -/
  | vacant (address : Nat)
  /-- The records fill the block. -/
  | full
  /-- No record of the block can stand at this address. -/
  | broken (address : Nat)
  deriving DecidableEq, Repr

/-- The records of a block in order, and how they end. -/
structure Chain where
  records : List Record
  stop : Stop
  deriving DecidableEq, Repr

/-- The record that stands at `a` in a block that ends at `stop`, or how the chain ends there.

A length is never erased or zero, and a record never reaches past the block. -/
def recordAt (word : Nat → Word) (stop a : Nat) : Except Stop Record :=
  let r : Record := ⟨a, word (a + idOffset), word (a + lengthOffset)⟩
  if stop ≤ a then .error .full
  else if r.id = vacantId then .error (.vacant a)
  else if stop < r.payloadAddress then .error (.broken a)
  else if r.length = 0 ∨ r.length = Word.erased ∨ stop < r.stop then .error (.broken a)
  else .ok r

theorem recordAt_eq_ok {word : Nat → Word} {stop a : Nat} {r : Record}
    (h : recordAt word stop a = .ok r) :
    r = ⟨a, word a, word (a + 4)⟩ ∧ r.id ≠ vacantId ∧ r.length ≠ 0 ∧ r.length ≠ Word.erased ∧
      r.stop ≤ stop := by
  simp only [recordAt] at h
  split at h
  · simp at h
  · split at h
    · simp at h
    · split at h
      · simp at h
      · split at h
        · simp at h
        · rename_i hid _ hlen
          obtain rfl := Except.ok.inj h
          simp only [not_or, Nat.not_lt] at hlen
          exact ⟨rfl, hid, hlen.1, hlen.2.1, hlen.2.2⟩

theorem lt_stop_of_recordAt {word : Nat → Word} {stop a : Nat} {r : Record}
    (h : recordAt word stop a = .ok r) : a < r.stop := by
  obtain ⟨rfl, -⟩ := recordAt_eq_ok h
  exact Record.address_lt_stop ⟨a, word a, word (a + 4)⟩

namespace Chain

/-- Walk the chain of a block that ends at `stop` from the record at `a`. -/
def scan (word : Nat → Word) (stop a : Nat) : Chain :=
  match h : recordAt word stop a with
  | .error e => ⟨[], e⟩
  | .ok r =>
    have : stop - r.stop < stop - a := by
      have := lt_stop_of_recordAt h
      have := (recordAt_eq_ok h).2.2.2.2
      omega
    let rest := scan word stop r.stop
    ⟨r :: rest.records, rest.stop⟩
termination_by stop - a

theorem scan_of_error {word : Nat → Word} {stop a : Nat} {e : Stop}
    (h : recordAt word stop a = .error e) : scan word stop a = ⟨[], e⟩ := by
  rw [scan]
  split <;> simp_all

theorem scan_of_ok {word : Nat → Word} {stop a : Nat} {r : Record}
    (h : recordAt word stop a = .ok r) :
    scan word stop a =
      ⟨r :: (scan word stop r.stop).records, (scan word stop r.stop).stop⟩ := by
  rw [scan]
  split <;> simp_all

/-- Walks read the same on devices that agree on the words up to the end of the block. -/
theorem scan_congr {word word' : Nat → Word} {stop a : Nat}
    (h : ∀ i, a ≤ i → i < stop → word i = word' i) :
    scan word stop a = scan word' stop a := by
  have hat : recordAt word stop a = recordAt word' stop a := by
    by_cases ha : stop ≤ a
    · simp [recordAt, ha]
    · have hid := h (a + idOffset) (Nat.le_add_right _ _) (by simp only [idOffset]; omega)
      by_cases hp : stop < a + payloadOffset
      · simp [recordAt, ha, hid, Record.payloadAddress, hp]
      · have hlen := h (a + lengthOffset) (Nat.le_add_right _ _)
          (by simp only [lengthOffset, payloadOffset] at *; omega)
        simp only [recordAt, hid, hlen]
  cases hr : recordAt word stop a with
  | error e =>
    have hr' : recordAt word' stop a = .error e := hat ▸ hr
    rw [scan_of_error hr, scan_of_error hr']
  | ok r =>
    have hr' : recordAt word' stop a = .ok r := hat ▸ hr
    have hlt := lt_stop_of_recordAt hr
    have hle := (recordAt_eq_ok hr).2.2.2.2
    have ih := scan_congr fun i hi hs => h i (Nat.le_trans (Nat.le_of_lt hlt) hi) hs
    rw [scan_of_ok hr, scan_of_ok hr', ih]
termination_by stop - a

/-- The chain of a block on a device that reads `word`. -/
def ofBlock (word : Nat → Word) (block : Block) : Chain := scan word block.stop block.first

/-- Succeeds unless the chain is broken. -/
def requireIntact (c : Chain) : Except StoreError Unit :=
  match c.stop with
  | .broken a => .error (.brokenChain a)
  | _ => .ok ()

@[simp] theorem requireIntact_eq_ok_iff {c : Chain} :
    c.requireIntact = .ok () ↔ ∀ a, c.stop ≠ .broken a := by
  unfold requireIntact
  cases c.stop <;> simp

/-- The error says where the chain breaks. -/
theorem eq_brokenChain_of_requireIntact {c : Chain} {e : StoreError}
    (h : c.requireIntact = .error e) : ∃ a, e = .brokenChain a := by
  unfold requireIntact at h
  split at h
  · rename_i a _
    exact ⟨a, (Except.error.inj h).symm⟩
  · cases h

/-- Where records are appended, the end of the block if there is no room for any. -/
def freeAddress (c : Chain) (block : Block) : Nat :=
  match c.stop with
  | .vacant a => a
  | _ => block.stop

/-- The first record with an id. A chain that breaks before one is found is an error. -/
def find (c : Chain) (id : Word) : Except StoreError (Option Record) :=
  match c.records.find? (·.id == id) with
  | some r => .ok (some r)
  | none => do
    c.requireIntact
    return none

theorem requireIntact_of_find {c : Chain} {id : Word} {e : StoreError}
    (h : c.find id = .error e) : c.requireIntact = .error e := by
  unfold find at h
  split at h
  · cases h
  · cases hintact : c.requireIntact with
    | ok u =>
      rw [hintact] at h
      cases h
    | error e' =>
      rw [hintact] at h
      rw [Except.error.inj h]

/-- The records that have not been removed. -/
def live (c : Chain) : List Record := c.records.filter Record.isLive

/-- Bytes held by removed records. -/
def removedBytes (c : Chain) : Nat := Record.totalSpan (c.records.filter (!·.isLive))

end Chain

/-! ### Records that count -/

/-- Whether a record is followed by another one with its id. -/
def isSuperseded (r : Record) (later : List Record) : Bool := later.any (·.id == r.id)

/-- The live records that no later record supersedes. -/
def survivors : List Record → List Record
  | [] => []
  | r :: rs => if r.isLive && !isSuperseded r rs then r :: survivors rs else survivors rs

/-- The live records that a later record supersedes. -/
def superseded : List Record → List Record
  | [] => []
  | r :: rs => if r.isLive && isSuperseded r rs then r :: superseded rs else superseded rs

@[simp] theorem survivors_nil : survivors [] = [] := rfl

@[simp] theorem superseded_nil : superseded [] = [] := rfl

theorem survivors_sublist (rs : List Record) : (survivors rs).Sublist rs := by
  induction rs with
  | nil => exact List.Sublist.refl _
  | cons r rs ih =>
    rw [survivors]
    split
    · exact ih.cons_cons r
    · exact ih.cons r

theorem superseded_sublist (rs : List Record) : (superseded rs).Sublist rs := by
  induction rs with
  | nil => exact List.Sublist.refl _
  | cons r rs ih =>
    rw [superseded]
    split
    · exact ih.cons_cons r
    · exact ih.cons r

/-- Survivors carry distinct ids. -/
theorem survivors_pairwise (rs : List Record) :
    (survivors rs).Pairwise fun r r' => r.id ≠ r'.id := by
  induction rs with
  | nil => exact List.Pairwise.nil
  | cons r rs ih =>
    rw [survivors]
    split
    · rename_i h
      refine List.Pairwise.cons (fun t ht => ?_) ih
      simp only [isSuperseded, Bool.and_eq_true, Bool.not_eq_true', List.any_eq_false] at h
      exact fun he => h.2 t ((survivors_sublist rs).subset ht) (by simp [he])
    · exact ih

/-- Without two live records of one id every live record counts. -/
theorem survivors_eq_filter {rs : List Record}
    (h : rs.Pairwise fun r r' => r.isLive → r.id ≠ r'.id) :
    survivors rs = rs.filter Record.isLive := by
  induction rs with
  | nil => rfl
  | cons r rs ih =>
    obtain ⟨hr, hrs⟩ := List.pairwise_cons.1 h
    rw [survivors, List.filter_cons, ih hrs]
    by_cases hl : r.isLive = true
    · have hs : isSuperseded r rs = false := by
        rw [isSuperseded, List.any_eq_false]
        exact fun t ht he => hr t ht hl (beq_iff_eq.1 he).symm
      simp [hl, hs]
    · simp [hl]

end FlashStore
