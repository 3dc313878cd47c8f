import FlashStore.Checked.Walk
import FlashStore.Proofs.Linked

/-!
# The grammar of chains

`Parses` says what a chain of records looks like, without saying how it is walked: records one after
another, and then a vacant place, the end of the block, or a place where no record can stand. Any
flash contents parse in exactly one way. A walk in 32 bits returns the records of that parse and
then how it ends, whatever it is called for, and so does `Chain.scan`.
-/

namespace FlashStore

variable {word : Nat → Word} {stop a : Nat} {r : Record} {records : List Record} {ending : Stop}

/-! ### Parses -/

/-- From `a` to the end of a block at `stop` there are these records, and they end this way. -/
inductive Parses (word : Nat → Word) (stop : Nat) : Nat → List Record → Stop → Prop where
  | full : Parses word stop stop [] .full
  | vacant {a : Nat} (ha : a < stop) (hid : word a = vacantId) : Parses word stop a [] (.vacant a)
  | broken {a : Nat} (ha : a < stop) (hid : word a ≠ vacantId)
      (hbroken : stop < a + 8 ∨ word (a + 4) = 0 ∨ word (a + 4) = Word.erased ∨
        stop < a + recordSpan (word (a + 4)).toNat) :
      Parses word stop a [] (.broken a)
  | record {a : Nat} {records : List Record} {ending : Stop} (hid : word a ≠ vacantId)
      (hzero : word (a + 4) ≠ 0) (herased : word (a + 4) ≠ Word.erased)
      (hstop : a + recordSpan (word (a + 4)).toNat ≤ stop)
      (hrest : Parses word stop (a + recordSpan (word (a + 4)).toNat) records ending) :
      Parses word stop a (⟨a, word a, word (a + 4)⟩ :: records) ending

namespace Parses

lemma le (h : Parses word stop a records ending) : a ≤ stop := by
  induction h with
  | full => exact Nat.le_refl _
  | vacant ha | broken ha => exact Nat.le_of_lt ha
  | record _ _ _ hstop => exact Nat.le_trans (Nat.le_add_right _ _) hstop

/-- What parses is what a scan finds. -/
lemma scan_eq (h : Parses word stop a records ending) :
    Chain.scan word stop a = ⟨records, ending⟩ := by
  induction h with
  | full => exact Chain.scan_of_error (recordAt_of_le (Nat.le_refl _))
  | vacant ha hid => exact Chain.scan_of_error (recordAt_of_vacant ha hid)
  | @broken a ha hid hbroken =>
    refine Chain.scan_of_error ?_
    rw [recordAt_def, if_neg (Nat.not_le.2 ha), if_neg hid]
    by_cases hroom : stop < a + 8
    · rw [if_pos hroom]
    · rw [if_neg hroom, if_pos (hbroken.resolve_left hroom)]
  | record hid hzero herased hstop _ ih =>
    have hok := recordAt_eq_ok_iff.2 ⟨rfl, hid, hzero, herased, hstop⟩
    rw [Chain.scan_of_ok hok]
    exact congrArg (fun c : Chain => (⟨_ :: c.records, c.stop⟩ : Chain)) ih

end Parses

/-- Where the records end in a block that ends at `stop`. -/
def Stop.address (stop : Nat) : Stop → Nat
  | .vacant a | .broken a => a
  | .full => stop

/-- Where no record stands the parse ends. -/
lemma parses_of_recordAt_error {e : Stop} (ha : a ≤ stop)
    (h : recordAt word stop a = .error e) : Parses word stop a [] e := by
  rw [recordAt_def] at h
  split at h
  · rename_i hle
    obtain rfl := Nat.le_antisymm ha hle
    obtain rfl := Except.error.inj h
    exact .full
  · rename_i hlt
    replace hlt := Nat.not_le.1 hlt
    split at h
    · rename_i hid
      obtain rfl := Except.error.inj h
      exact .vacant hlt hid
    · rename_i hid
      split at h
      · rename_i hroom
        obtain rfl := Except.error.inj h
        exact .broken hlt hid (Or.inl hroom)
      · split at h
        · rename_i hbroken
          obtain rfl := Except.error.inj h
          exact .broken hlt hid (Or.inr hbroken)
        · cases h

/-- The records end where none stands. -/
lemma Stop.address_eq (ha : a ≤ stop) (h : recordAt word stop a = .error ending) :
    ending.address stop = a := by
  cases parses_of_recordAt_error ha h <;> rfl

/-- Any flash contents parse. -/
lemma parses_scan (word : Nat → Word) {stop a : Nat} (ha : a ≤ stop) :
    Parses word stop a (Chain.scan word stop a).records (Chain.scan word stop a).stop := by
  cases hr : recordAt word stop a with
  | error e =>
    rw [Chain.scan_of_error hr]
    exact parses_of_recordAt_error ha hr
  | ok r =>
    have hlt := lt_stop_of_recordAt hr
    have hle := (recordAt_eq_ok_iff.1 hr).2.2.2.2
    have ih := parses_scan word hle
    rw [Chain.scan_of_ok hr]
    obtain ⟨rfl, hid, hzero, herased, hstop⟩ := recordAt_eq_ok_iff.1 hr
    exact .record hid hzero herased hstop ih
termination_by stop - a

/-- Flash contents parse in one way only, the one a scan finds. -/
theorem parses_iff : Parses word stop a records ending ↔
    a ≤ stop ∧ Chain.scan word stop a = ⟨records, ending⟩ := by
  constructor
  · intro h
    exact ⟨h.le, h.scan_eq⟩
  · rintro ⟨ha, hscan⟩
    have h := parses_scan word ha
    rwa [hscan] at h

/-! ### Steps of a walk -/

/-- What a step returns where no record stands. -/
def Stop.item : Stop → Walk.Item
  | .broken a => some (.error (.brokenChain a))
  | _ => none

/-- The vacant place that ends a chain. -/
def Stop.marker : Stop → Option Nat
  | .vacant a => some a
  | _ => none

namespace Block

/-- Where records of a block may start: at the first place, and from the end of the shortest record
there on. -/
def IsPlace (block : Block) (a : Nat) : Prop := a = block.first ∨ block.first + 12 ≤ a

/-- The sums of a walk along the block fit 32 bits: the end of the block, and the end of any header
that starts before it. -/
structure InRange (block : Block) : Prop where
  first_le : block.first ≤ block.stop
  stop_lt : block.stop < 0x100000000
  header_lt {a : Nat} : block.IsPlace a → a < block.stop → a + 8 < 0x100000000

lemma isPlace_first (block : Block) : block.IsPlace block.first := Or.inl rfl

/-- No record is shorter than twelve bytes. -/
lemma IsPlace.next {block : Block} (ha : block.IsPlace r.address) (hlength : r.length ≠ 0) :
    block.IsPlace r.stop := by
  have hpos : 0 < r.length.toNat := Nat.pos_of_ne_zero fun h => hlength (UInt32.toNat_inj.1 h)
  refine Or.inr ?_
  simp only [IsPlace, Record.stop, Record.span, recordSpan, roundToWords, payloadOffset] at ha ⊢
  omega

lemma inRange_of_le {block : Block} (hsize : 8 ≤ block.size)
    (h : block.stop + 8 ≤ 0x100000000) : block.InRange where
  first_le := Nat.add_le_add_left hsize _
  stop_lt := by omega
  header_lt _ _ := by omega

end Block

namespace Walk

variable {block : Block}

/-- The end of a record fits 32 bits if its exact end does. -/
lemma bind_recordSpan? (a : Nat) (length : Word) :
    ((recordSpan? length).bind fun span => ranged (a + span.toNat)) =
      ranged (a + recordSpan length.toNat) := by
  cases hspan : recordSpan? length with
  | some span => rw [Option.bind_some, toNat_of_recordSpan? hspan]
  | none =>
    have hle : 0x100000000 ≤ a + recordSpan length.toNat := by
      by_contra hlt
      obtain ⟨span, hspan'⟩ := exists_recordSpan? (n := length) (by omega)
      rw [hspan] at hspan'
      cases hspan'
    rw [Option.bind_none, ranged_of_le hle]

/-- A record is accepted if it ends in the block. -/
lemma accept_eq {w : Walk} {stop : Nat} (hstop : stop < 0x100000000) (id length : Word) :
    w.accept stop id length =
      if length = 0 ∨ length = Word.erased ∨ stop < w.address + recordSpan length.toNat then
        w.broken
      else (some (.ok ⟨w.address, id, length⟩),
        { w with address := w.address + recordSpan length.toNat }) := by
  unfold accept
  rw [bind_recordSpan?]
  by_cases hlength : length = 0 ∨ length = Word.erased
  · rw [if_pos hlength, if_pos (hlength.imp_right Or.inl)]
  · rw [if_neg hlength]
    by_cases hfits : w.address + recordSpan length.toNat < 0x100000000
    · rw [ranged_of_lt hfits]
      simp only [← or_assoc, hlength, false_or]
    · rw [ranged_of_le (Nat.not_lt.1 hfits), if_pos (Or.inr (Or.inr (by omega)))]

/-- A step from a place returns what stands there, if a header there fits 32 bits. -/
lemma next?_startingAt (hstop : block.stop < 0x100000000)
    (ha : a < block.stop → a + 8 < 0x100000000) : (startingAt block a).next? word =
    some (match recordAt word block.stop a with
      | .ok r => (some (.ok r), startingAt block r.stop)
      | .error e => (e.item, ⟨block, a, e.marker, true⟩)) := by
  unfold next?
  rw [startingAt, if_neg Bool.false_ne_true, Block.stop?_of_lt hstop]
  by_cases hend : block.stop ≤ a
  · simp [recordAt_of_le hend, hend, Stop.item, Stop.marker]
  · have hlt := ha (Nat.not_le.1 hend)
    have hid : ranged (a + idOffset) = some a := ranged_of_lt (by simp only [idOffset]; omega)
    have hpay : ranged (a + payloadOffset) = some (a + 8) := ranged_of_lt hlt
    have hlen : ranged (a + lengthOffset) = some (a + 4) :=
      ranged_of_lt (by simp only [lengthOffset]; omega)
    rw [recordAt_def]
    simp only [hend, if_false, hid, hpay, hlen, Option.bind_eq_bind, Option.bind_some,
      Option.pure_def]
    by_cases hvacant : word a = vacantId
    · rw [if_pos hvacant, if_pos hvacant]
      rfl
    · rw [if_neg hvacant, if_neg hvacant]
      by_cases hroom : block.stop < a + 8
      · rw [if_pos hroom, if_pos hroom]
        rfl
      · rw [if_neg hroom, if_neg hroom, accept_eq hstop]
        split <;> rfl

variable (hb : block.InRange)
include hb

lemma start?_eq : start? block = some (startingAt block block.first) := by
  have hlt := Nat.lt_of_le_of_lt hb.first_le hb.stop_lt
  rw [start?, Block.first?, ← Block.first, ranged_of_lt hlt, Option.map_some]

lemma next?_of_ok (hr : recordAt word block.stop a = .ok r) (ha : block.IsPlace a) :
    (startingAt block a).next? word = some (some (.ok r), startingAt block r.stop) ∧
      block.IsPlace r.stop := by
  refine ⟨by rw [next?_startingAt hb.stop_lt (hb.header_lt ha), hr], ?_⟩
  obtain ⟨rfl, -, hlength, -⟩ := recordAt_eq_ok_iff.1 hr
  exact ha.next hlength

lemma next?_of_error {e : Stop} (he : recordAt word block.stop a = .error e)
    (ha : block.IsPlace a) :
    (startingAt block a).next? word = some (e.item, ⟨block, a, e.marker, true⟩) := by
  rw [next?_startingAt hb.stop_lt (hb.header_lt ha), he]

omit hb in
lemma next?_of_finished {w : Walk} (h : w.finished = true) : w.next? word = some (none, w) := by
  unfold next?
  rw [if_pos h]
  rfl

omit hb in
/-- A walk that is over stays so. -/
lemma steps?_of_finished {w : Walk} (h : w.finished = true) (n : Nat) :
    w.steps? word n = some (List.replicate n none, w) := by
  induction n with
  | zero => rfl
  | succ n ih =>
    rw [steps?, next?_of_finished h]
    simp only [Option.bind_eq_bind, Option.bind_some, ih, Option.pure_def, List.replicate_succ]

/-- The steps of a walk return the records one after another, then how they end, then nothing. -/
lemma steps?_of_linked {z : Nat} (h : Linked word block.stop a records z)
    (hz : recordAt word block.stop z = .error ending) (ha : block.IsPlace a) (n : Nat) :
    (startingAt block a).steps? word (records.length + (n + 1)) =
      some (records.map (fun r => some (.ok r)) ++ ending.item :: List.replicate n none,
        ⟨block, z, ending.marker, true⟩) := by
  induction records generalizing a with
  | nil =>
    obtain rfl : a = z := h
    rw [List.length_nil, Nat.zero_add, steps?, next?_of_error hb hz ha]
    simp only [Option.bind_eq_bind, Option.bind_some, steps?_of_finished, Option.pure_def]
    rfl
  | cons r records ih =>
    obtain ⟨hr, hrest⟩ := h
    obtain ⟨hnext, ha'⟩ := next?_of_ok hb hr ha
    rw [List.length_cons, Nat.add_right_comm, steps?, hnext]
    simp only [Option.bind_eq_bind, Option.bind_some, ih hrest ha', Option.pure_def]
    rfl

end Walk

/-! ### Loops over the records -/

/-- The error of a chain that ends this way. -/
def Stop.error? : Stop → Option StoreError
  | .broken a => some (.brokenChain a)
  | _ => none

/-- The result of a loop that goes on to where the chain ends. -/
def Stop.outcome {α : Type} (x : α) (ending : Stop) : Except StoreError α :=
  Chain.resultOf x ending.error?

/-- A loop over records that end this way. -/
def visit {α : Type} (body : Record → α → Option (ForInStep α)) (ending : Stop) :
    List Record → α → Option (α × Option StoreError)
  | [], x => some (x, ending.error?)
  | r :: rs, x =>
    match body r x with
    | none => none
    | some (.done y) => some (y, none)
    | some (.yield y) => visit body ending rs y

section

variable {α : Type} {body : Record → α → Option (ForInStep α)} {x y : α}

lemma visit_of_yield (h : body r x = some (.yield y)) :
    visit body ending (r :: records) x = visit body ending records y := by
  rw [visit, h]

lemma visit_of_done (h : body r x = some (.done y)) :
    visit body ending (r :: records) x = some (y, none) := by
  rw [visit, h]

end

variable {block : Block} {z : Nat}

/-- A loop visits the records one after another, and one that is never left early walks on to where
they end. -/
lemma Walk.loop?_of_linked {α : Type} (hb : block.InRange)
    (h : Linked word block.stop a records z) (hz : recordAt word block.stop z = .error ending)
    (ha : block.IsPlace a) (body : Record → α → Option (ForInStep α)) (x : α) :
    ∃ w, (startingAt block a).loop? word body x =
        (visit body ending records x).map (fun (y, error) => (y, error, w)) ∧
      ((∀ r x, ∃ y, body r x = some (.yield y)) → w = ⟨block, z, ending.marker, true⟩) := by
  induction records generalizing a x with
  | nil =>
    obtain rfl : a = z := h
    refine ⟨⟨block, a, ending.marker, true⟩, ?_, fun _ => rfl⟩
    have hnext := next?_of_error hb hz ha
    cases ending with
    | broken b => exact loop?_of_error hnext
    | vacant b => exact loop?_of_end hnext
    | full => exact loop?_of_end hnext
  | cons r records ih =>
    obtain ⟨hr, hrest⟩ := h
    obtain ⟨hnext, ha'⟩ := next?_of_ok hb hr ha
    rw [loop?_of_ok hnext, visit]
    cases hbody : body r x with
    | none =>
      refine ⟨startingAt block r.stop, rfl, fun hyield => ?_⟩
      obtain ⟨y, hy⟩ := hyield r x
      cases hbody.symm.trans hy
    | some step =>
      cases step with
      | done y =>
        refine ⟨startingAt block r.stop, rfl, fun hyield => ?_⟩
        obtain ⟨y', hy⟩ := hyield r x
        cases hbody.symm.trans hy
      | yield y => exact ih hrest ha' y

/-! ### Searches and sums -/

/-- A loop that searches for an id finds the first record that has it. -/
lemma visit_find (ending : Stop) (id : Word) (records : List Record) :
    ∃ found error, visit (fun r _ => some (if r.id = id then .done (some r) else .yield none))
        ending records none = some (found, error) ∧
      Chain.resultOf found error = Chain.find ⟨records, ending⟩ id := by
  induction records with
  | nil => exact ⟨none, ending.error?, rfl, by cases ending <;> rfl⟩
  | cons r records ih =>
    by_cases hid : r.id = id
    · refine ⟨some r, none, by rw [visit, if_pos hid], ?_⟩
      rw [Chain.find, List.find?_cons_of_pos (by simpa using hid)]
      rfl
    · obtain ⟨found, error, hvisit, hfind⟩ := ih
      refine ⟨found, error, by rw [visit, if_neg hid]; exact hvisit, ?_⟩
      rw [hfind, Chain.find, Chain.find, List.find?_cons_of_neg (by simpa using hid)]
      rfl

/-- A loop that adds up removed records finds their sum, as long as it fits. -/
lemma visit_sum (hspan : ∀ r ∈ records, r.span32 = r.span) (total : Nat)
    (hfits : total + Record.totalSpan records < 0x100000000) :
    visit (fun r total => if r.isLive then some (.yield total)
        else (ranged (total + r.span32)).map .yield) ending records total =
      some (total + Chain.removedBytes ⟨records, ending⟩, ending.error?) := by
  induction records generalizing total with
  | nil => rfl
  | cons r records ih =>
    have hrest := fun r' hr' => hspan r' (List.mem_cons_of_mem _ hr')
    rw [Record.totalSpan_cons] at hfits
    rw [visit]
    cases hlive : r.isLive with
    | true =>
      simp only [if_true, ih hrest total (by omega), Chain.removedBytes, List.filter_cons, hlive]
      rfl
    | false =>
      have hnext := ih hrest (total + r.span) (by omega)
      simp only [Bool.false_eq_true, if_false, hspan r List.mem_cons_self,
        ranged_of_lt (show total + r.span < 0x100000000 by omega), Option.map_some, hnext,
        Chain.removedBytes, List.filter_cons, hlive, Bool.not_false, if_true,
        Record.totalSpan_cons, Nat.add_assoc]

lemma Record.span32_eq (h : r.span < 0x100000000) : r.span32 = r.span := by
  obtain ⟨span, hspan⟩ := exists_recordSpan? (n := r.length) h
  rw [span32, hspan, Option.map_some, Option.getD_some, toNat_of_recordSpan? hspan, Record.span]

/-- Records of a block that is in range have their ends in range. -/
lemma Record.stop32_eq (hstop : r.stop < 0x100000000) : r.stop32 = r.stop := by
  have hspan : r.span < 0x100000000 := by
    rw [Record.stop] at hstop
    omega
  rw [stop32, span32_eq hspan]
  exact saturated_of_lt hstop

/-- Records that start at a place where one may start end at one. -/
lemma Linked.isPlace (h : Linked word block.stop a records z) (ha : block.IsPlace a) :
    block.IsPlace z := by
  induction records generalizing a with
  | nil => exact h ▸ ha
  | cons r records ih =>
    obtain ⟨hr, hrest⟩ := h
    obtain ⟨rfl, -, hlength, -⟩ := recordAt_eq_ok_iff.1 hr
    exact ih hrest (ha.next hlength)

namespace Chain

lemma findFrom?_of_linked (hb : block.InRange) (h : Linked word block.stop a records z)
    (hz : recordAt word block.stop z = .error ending) (ha : block.IsPlace a) (id : Word) :
    findFrom? word (Walk.startingAt block a) id = some (find ⟨records, ending⟩ id) := by
  obtain ⟨w, hw, -⟩ := Walk.loop?_of_linked hb h hz ha
    (fun r _ => some (if r.id = id then .done (some r) else .yield none)) none
  obtain ⟨found, error, hvisit, hfind⟩ := visit_find ending id records
  rw [findFrom?, hw, hvisit, ← hfind]
  rfl

variable (hb : block.InRange) (h : Linked word block.stop block.first records z)
  (hz : recordAt word block.stop z = .error ending)
include hb h hz

lemma find?_of_linked (id : Word) :
    find? word block id = some (find ⟨records, ending⟩ id) := by
  rw [find?, Walk.start?_eq hb]
  exact findFrom?_of_linked hb h hz block.isPlace_first id

lemma findNewer?_of_linked {before after : List Record} (hr : records = before ++ r :: after) :
    findNewer? word block r = some (find ⟨after, ending⟩ r.id) := by
  rw [hr, linked_append] at h
  obtain ⟨y, hbefore, hat, hafter⟩ := h
  have hplace := hbefore.isPlace block.isPlace_first
  obtain ⟨rfl, -, hlength, -, hstop⟩ := recordAt_eq_ok_iff.1 hat
  rw [findNewer?, Record.stop32_eq (Nat.lt_of_le_of_lt hstop hb.stop_lt)]
  exact findFrom?_of_linked hb hafter hz (hplace.next hlength) _

lemma findEnd?_of_linked : findEnd? word block = some (ending.outcome ending.marker) := by
  obtain ⟨w, hw, hend⟩ := Walk.loop?_of_linked hb h hz block.isPlace_first
    (fun _ _ => some (.yield ())) ()
  obtain rfl := hend fun _ _ => ⟨(), rfl⟩
  have hvisit (rs : List Record) :
      visit (fun _ _ => some (.yield ())) ending rs () = some ((), ending.error?) := by
    induction rs with
    | nil => rfl
    | cons r rs ih => exact ih
  rw [findEnd?, Walk.start?_eq hb, Option.bind_eq_bind, Option.bind_some, hw, hvisit]
  rfl

lemma removedBytes?_of_linked :
    removedBytes? word block = some (ending.outcome (removedBytes ⟨records, ending⟩)) := by
  obtain ⟨w, hw, -⟩ := Walk.loop?_of_linked hb h hz block.isPlace_first
    (fun r total => if r.isLive then some (.yield total)
      else (ranged (total + r.span32)).map .yield) 0
  have hend := h.end_eq
  have hle := h.end_le hb.first_le
  have hlt := hb.stop_lt
  have hspan : ∀ r ∈ records, r.span32 = r.span := by
    intro r hr
    have hstop := (h.of_mem hr).2.2
    rw [Record.stop] at hstop
    exact r.span32_eq (by omega)
  rw [removedBytes?, Walk.start?_eq hb, Option.bind_eq_bind, Option.bind_some, hw,
    visit_sum hspan 0 (by omega), Nat.zero_add]
  rfl

end Chain

/-! ### What a walk returns -/

/-- A walk along any block with room for a header and a few bytes of 32 bits left past its end
returns the records that the contents parse to, each inside the block where the one before it ends,
then how they end, and then nothing. A search returns the first record with its id or how the walk
ends, from the start or past a record, and the sum over removed records is no more than the block
holds. -/
theorem walk_parses (word : Nat → Word) {block : Block} (hsize : 8 ≤ block.size)
    (hstop : block.stop + 8 ≤ 0x100000000) :
    ∃ records ending,
      (∀ records' ending', Parses word block.stop block.first records' ending' ↔
        records' = records ∧ ending' = ending) ∧
      Chain.ofBlock word block = ⟨records, ending⟩ ∧
      (∀ before r after, records = before ++ r :: after →
        r.address = block.first + Record.totalSpan before ∧ r.stop ≤ block.stop ∧
        r.id = word r.address ∧ r.length = word (r.address + 4) ∧ r.id ≠ 0xFFFFFFFF ∧
        1 ≤ r.length.toNat ∧ r.length.toNat < 0xFFFFFFFF ∧
        r.stop = r.address + (8 + (r.length.toNat + 3) / 4 * 4) ∧
        Chain.findNewer? word block r = some (Chain.find ⟨after, ending⟩ r.id)) ∧
      block.first + Record.totalSpan records = ending.address block.stop ∧
      (∀ n, (Walk.start? block).bind (Walk.steps? word (records.length + (n + 1))) =
        some (records.map (fun r => some (.ok r)) ++ ending.item :: List.replicate n none,
          ⟨block, ending.address block.stop, ending.marker, true⟩)) ∧
      (∀ id, Chain.find? word block id = some (Chain.find ⟨records, ending⟩ id)) ∧
      Chain.findEnd? word block = some (ending.outcome ending.marker) ∧
      Chain.removedBytes? word block =
        some (ending.outcome (Record.totalSpan (records.filter fun r => r.id = 0))) ∧
      Record.totalSpan (records.filter fun r => r.id = 0) ≤ block.size - 8 := by
  have hb := Block.inRange_of_le hsize hstop
  -- The chain that the scan finds is the only one that parses; everything else is read off it.
  obtain ⟨z, h, hz⟩ := linked_scan word block.stop block.first
  have hscan : Chain.ofBlock word block =
    Chain.scan word block.stop block.first := rfl
  generalize Chain.scan word block.stop block.first = c at h hz hscan
  obtain ⟨records, ending⟩ := c
  have hz_le : z ≤ block.stop := h.end_le hb.first_le
  have haddress := Stop.address_eq hz_le hz
  -- Removed records are those with the id zero.
  have hremoved : Chain.removedBytes ⟨records, ending⟩ =
      Record.totalSpan (records.filter fun r => r.id = 0) := by
    rw [Chain.removedBytes]
    congr 1
    exact List.filter_congr fun r _ => Bool.eq_iff_iff.2 (by simp [Record.isLive, removedId])
  refine ⟨records, ending, ?_, hscan, ?_, ?_, ?_, ?_, ?_, ?_, ?_⟩
  · intro records' ending'
    rw [parses_iff, ← Chain.ofBlock, hscan, Chain.mk.injEq]
    constructor
    · rintro ⟨-, rfl, rfl⟩
      exact ⟨rfl, rfl⟩
    · rintro ⟨rfl, rfl⟩
      exact ⟨hb.first_le, rfl, rfl⟩
  · intro before r after hr
    -- A record of the chain stands where the ones before it end, and its length is in range.
    have hnewer := Chain.findNewer?_of_linked hb h hz hr
    rw [hr, linked_append] at h
    obtain ⟨y, hbefore, hat, -⟩ := h
    obtain ⟨rfl, hid, hzero, herased, hle⟩ := recordAt_eq_ok_iff.1 hat
    have hlt : (word (y + 4)).toNat < 0x100000000 := UInt32.toNat_lt _
    have hzero' : (word (y + 4)).toNat ≠ 0 := fun h => hzero (UInt32.toNat_inj.1 h)
    have herased' : (word (y + 4)).toNat ≠ 0xFFFFFFFF := fun h => herased (UInt32.toNat_inj.1 h)
    refine ⟨hbefore.end_eq, hle, rfl, rfl, hid, ?_, ?_, rfl, hnewer⟩
    · exact Nat.pos_of_ne_zero hzero'
    · exact Nat.lt_of_le_of_ne (Nat.le_of_lt_succ hlt) herased'
  · rw [haddress, h.end_eq]
  · intro n
    rw [Walk.start?_eq hb, Option.bind_some, haddress]
    exact Walk.steps?_of_linked hb h hz block.isPlace_first n
  · exact Chain.find?_of_linked hb h hz
  · exact Chain.findEnd?_of_linked hb h hz
  · rw [← hremoved]
    exact Chain.removedBytes?_of_linked hb h hz
  · have hsum := Record.totalSpan_filter_add (fun r => decide (r.id = 0)) records
    have hend := h.end_eq
    simp only [Block.first, Block.stop, firstRecordOffset] at hend hz_le
    omega

/-- A walk along a block with one record. -/
theorem walk_parses_of_one_record :
    let word : Nat → Word := fun a => if a = 8 then 1 else if a = 12 then 5 else Word.erased
    (8 ≤ (Block.mk 0 32).size ∧ (Block.mk 0 32).stop + 8 ≤ 0x100000000) ∧
      (Walk.start? ⟨0, 32⟩).bind (Walk.steps? word 3) =
        some ([some (.ok ⟨8, 1, 5⟩), none, none], ⟨⟨0, 32⟩, 24, some 24, true⟩) := by
  intro word
  have hsize : 8 ≤ (Block.mk 0 32).size := by decide
  have hstop : (Block.mk 0 32).stop + 8 ≤ 0x100000000 := by decide
  obtain ⟨records, ending, hparses, -, -, -, hsteps, -⟩ := walk_parses word hsize hstop
  have hnext : 8 + recordSpan (word (8 + 4)).toNat = 24 := by decide
  have hparse : Parses word 32 8 [⟨8, word 8, word (8 + 4)⟩] (.vacant 24) := by
    refine .record (by decide) (by decide) (by decide) (by decide) ?_
    rw [hnext]
    exact .vacant (by decide) rfl
  obtain ⟨rfl, rfl⟩ := (hparses _ _).1 hparse
  exact ⟨⟨hsize, hstop⟩, hsteps 1⟩

end FlashStore
