import FlashStore.Chain
import FlashStore.Proofs.Memory

/-!
# Linked records

`Linked m stop a rs z` says that the records found from `a` on are `rs`, each where the one before
it ends, and that the last one ends at `z`. A walk of a chain is linked up to where it stops, and
whatever is linked up to a place where no record stands is what a walk finds. Links depend on the
headers of the records only, so they survive any change of payloads.
-/

namespace FlashStore

variable {m m' : Memory} {stop a y z : Nat} {r : Record} {rs rs' : List Record}

/-! ### One record -/

lemma recordAt_def (m : Memory) (stop a : Nat) : recordAt m stop a =
    if stop ≤ a then .error .full
    else if m a = vacantId then .error (.vacant a)
    else if stop < a + 8 then .error (.broken a)
    else if m (a + 4) = 0 ∨ m (a + 4) = Word.erased ∨ stop < a + recordSpan (m (a + 4)).toNat then
      .error (.broken a)
    else .ok ⟨a, m a, m (a + 4)⟩ := rfl

lemma recordAt_eq_ok_iff : recordAt m stop a = .ok r ↔
    r = ⟨a, m a, m (a + 4)⟩ ∧ r.id ≠ vacantId ∧ r.length ≠ 0 ∧ r.length ≠ Word.erased ∧
      r.stop ≤ stop := by
  constructor
  · exact recordAt_eq_ok
  · rintro ⟨rfl, hid, h0, he, hs⟩
    have hpos := payloadOffset_le_recordSpan (m (a + 4)).toNat
    simp only [Record.stop, Record.span, payloadOffset] at hs hpos
    rw [recordAt_def, if_neg (by omega), if_neg hid, if_neg (by omega), if_neg]
    rintro (h | h | h)
    · exact h0 h
    · exact he h
    · omega

lemma recordAt_of_le (h : stop ≤ a) : recordAt m stop a = .error .full := if_pos h

lemma recordAt_of_vacant (h : a < stop) (hm : m a = vacantId) :
    recordAt m stop a = .error (.vacant a) := by
  rw [recordAt_def, if_neg (by omega), if_pos hm]

lemma eq_of_recordAt_vacant {z : Nat} (h : recordAt m stop a = .error (.vacant z)) :
    a = z ∧ a < stop := by
  rw [recordAt_def] at h
  split at h
  · simp at h
  · rename_i ha
    split at h
    · exact ⟨by simpa using h, by omega⟩
    · split at h
      · simp at h
      · split at h <;> simp at h

lemma recordAt_congr (h₀ : m' a = m a) (h₄ : m' (a + 4) = m (a + 4)) :
    recordAt m' stop a = recordAt m stop a := by
  rw [recordAt_def, recordAt_def, h₀, h₄]

@[simp] lemma Record.span_mod (r : Record) : r.span % 4 = 0 := by
  simp only [Record.span, recordSpan, roundToWords, payloadOffset]
  omega

lemma Chain.mem_records_of_find {c : Chain} {id : Word} {r : Record}
    (h : c.find id = .ok (some r)) : r ∈ c.records := by
  unfold Chain.find at h
  split at h
  · rename_i hfind
    obtain rfl := Option.some.inj (Except.ok.inj h)
    exact List.mem_of_find?_eq_some hfind
  · cases hc : c.requireIntact with
    | error e =>
      rw [hc] at h
      cases h
    | ok u =>
      rw [hc] at h
      cases h

/-! ### Links -/

/-- The records from `a` on are `rs`, and they end at `z`. -/
def Linked (m : Memory) (stop : Nat) : Nat → List Record → Nat → Prop
  | a, [], z => a = z
  | a, r :: rs, z => recordAt m stop a = .ok r ∧ Linked m stop r.stop rs z

@[simp] lemma linked_nil : Linked m stop a [] z ↔ a = z := Iff.rfl

@[simp] lemma linked_cons : Linked m stop a (r :: rs) z ↔
    recordAt m stop a = .ok r ∧ Linked m stop r.stop rs z := Iff.rfl

lemma linked_append : Linked m stop a (rs ++ rs') z ↔
    ∃ y, Linked m stop a rs y ∧ Linked m stop y rs' z := by
  induction rs generalizing a with
  | nil => simp
  | cons r rs ih => simp only [List.cons_append, linked_cons, ih, and_assoc, exists_and_left]

namespace Linked

lemma end_eq (h : Linked m stop a rs z) : z = a + Record.totalSpan rs := by
  induction rs generalizing a with
  | nil => exact h.symm
  | cons r rs ih =>
    obtain ⟨hr, hrs⟩ := h
    obtain ⟨rfl, -⟩ := recordAt_eq_ok_iff.1 hr
    rw [ih hrs, Record.totalSpan_cons, Record.stop, Nat.add_assoc]

lemma le (h : Linked m stop a rs z) : a ≤ z := by
  rw [h.end_eq]
  exact Nat.le_add_right _ _

lemma end_le (h : Linked m stop a rs z) (ha : a ≤ stop) : z ≤ stop := by
  induction rs generalizing a with
  | nil => exact h ▸ ha
  | cons r rs ih =>
    obtain ⟨hr, hrs⟩ := h
    exact ih hrs (recordAt_eq_ok_iff.1 hr).2.2.2.2

/-- Every record stands on flash between the ends of the links. -/
lemma of_mem (h : Linked m stop a rs z) (hr : r ∈ rs) :
    recordAt m stop r.address = .ok r ∧ a ≤ r.address ∧ r.stop ≤ z := by
  induction rs generalizing a with
  | nil => simp at hr
  | cons r' rs ih =>
    obtain ⟨hr', hrs⟩ := h
    have hr'_eq := (recordAt_eq_ok_iff.1 hr').1
    rcases List.mem_cons.1 hr with rfl | hr
    · have ha : r.address = a := by rw [hr'_eq]
      exact ⟨ha ▸ hr', Nat.le_of_eq ha.symm, hrs.le⟩
    · obtain ⟨hat, hle, hz⟩ := ih hrs hr
      have ha : r'.address = a := by rw [hr'_eq]
      have := r'.address_lt_stop
      exact ⟨hat, by omega, hz⟩

lemma address_mod (h : Linked m stop a rs z) (ha : a % 4 = 0) (hr : r ∈ rs) :
    r.address % 4 = 0 := by
  induction rs generalizing a with
  | nil => simp at hr
  | cons r' rs ih =>
    obtain ⟨hr', hrs⟩ := h
    have haddr : r'.address = a := by rw [(recordAt_eq_ok_iff.1 hr').1]
    rcases List.mem_cons.1 hr with rfl | hr
    · exact haddr ▸ ha
    · have hmod := r'.span_mod
      exact ih hrs (by rw [Record.stop]; omega) hr

lemma end_mod (h : Linked m stop a rs z) (ha : a % 4 = 0) : z % 4 = 0 := by
  induction rs generalizing a with
  | nil => exact h ▸ ha
  | cons r rs ih =>
    obtain ⟨hr, hrs⟩ := h
    have haddr : r.address = a := by rw [(recordAt_eq_ok_iff.1 hr).1]
    have hmod := r.span_mod
    exact ih hrs (by rw [Record.stop]; omega)

/-- Later records stand behind earlier ones. -/
lemma pairwise (h : Linked m stop a rs z) : rs.Pairwise fun r r' => r.stop ≤ r'.address := by
  induction rs generalizing a with
  | nil => exact List.Pairwise.nil
  | cons r rs ih =>
    obtain ⟨-, hrs⟩ := h
    exact List.Pairwise.cons (fun r' hr' => (hrs.of_mem hr').2.1) (ih hrs)

/-- Links depend on the headers only. -/
lemma congr (h : Linked m stop a rs z)
    (hm : ∀ r ∈ rs, m' r.address = m r.address ∧ m' (r.address + 4) = m (r.address + 4)) :
    Linked m' stop a rs z := by
  induction rs generalizing a with
  | nil => exact h
  | cons r rs ih =>
    obtain ⟨hr, hrs⟩ := h
    have haddr : r.address = a := by rw [(recordAt_eq_ok_iff.1 hr).1]
    obtain ⟨h₀, h₄⟩ := hm r List.mem_cons_self
    rw [haddr] at h₀ h₄
    exact ⟨(recordAt_congr h₀ h₄).trans hr, ih hrs fun r' hr' => hm r' (List.mem_cons_of_mem _ hr')⟩

lemma congr_of_agreeOn (h : Linked m stop a rs z) (hm : AgreeOn a z m m') :
    Linked m' stop a rs z := by
  refine h.congr fun r hr => ?_
  obtain ⟨-, h₁, h₂⟩ := h.of_mem hr
  have hpos := payloadOffset_le_recordSpan r.length.toNat
  simp only [Record.stop, Record.span, payloadOffset] at h₂ hpos
  exact ⟨hm _ h₁ (by omega), hm _ (by omega) (by omega)⟩

/-- What is linked up to a place where no record stands is what a walk finds. -/
lemma scan_eq (h : Linked m stop a rs z) {e : Stop} (he : recordAt m stop z = .error e) :
    Chain.scan m stop a = ⟨rs, e⟩ := by
  induction rs generalizing a with
  | nil =>
    obtain rfl : a = z := h
    exact Chain.scan_of_error he
  | cons r rs ih =>
    obtain ⟨hr, hrs⟩ := h
    rw [Chain.scan_of_ok hr, ih hrs]

end Linked

/-- A walk is linked up to where it stops. -/
lemma linked_scan (m : Memory) (stop a : Nat) :
    ∃ z, Linked m stop a (Chain.scan m stop a).records z ∧
      recordAt m stop z = .error (Chain.scan m stop a).stop := by
  cases hr : recordAt m stop a with
  | error e => exact ⟨a, by rw [Chain.scan_of_error hr]; exact ⟨rfl, hr⟩⟩
  | ok r =>
    have hlt := lt_stop_of_recordAt hr
    have hle := (recordAt_eq_ok hr).2.2.2.2
    obtain ⟨z, hz, he⟩ := linked_scan m stop r.stop
    rw [Chain.scan_of_ok hr]
    exact ⟨z, ⟨hr, hz⟩, he⟩
termination_by stop - a

end FlashStore
