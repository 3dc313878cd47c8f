import FlashStore.Proofs.Writing

/-!
# Erasing values

An erase that runs to its end removes the value of its id. One that is cut has cleared some words of
the payload and not yet the id, and nothing on flash tells such a record from a sound one: the value
stays, with its first bytes zeroed (`Contents.blank`).
-/

namespace FlashStore

open LawfulFlash Store

variable {δ : Type} [FlashDevice δ] [LawfulFlash δ] {s : Store δ} {m m' : Memory} {p : Placement}
  {side : Side} {g : Word} {cursor k : Nat} {c : Contents} {id : Word} {data : List UInt8}
  {r : Record} {rs pre post : List Record}

/-! ### Blanked values -/

/-- The bytes with the first `n` of them zeroed. -/
def zeroed (n : Nat) (data : List UInt8) : List UInt8 :=
  List.replicate (min n data.length) 0 ++ data.drop n

/-- The contents with the first bytes under an id zeroed. -/
def Contents.blank (id : Word) (n : Nat) (c : Contents) : Contents :=
  c.map fun e => if e.id = id then ⟨e.id, zeroed n e.data⟩ else e

lemma zeroed_zero (data : List UInt8) : zeroed 0 data = data := by
  simp [zeroed]

lemma Contents.blank_zero (id : Word) (c : Contents) : c.blank id 0 = c := by
  simp only [blank, zeroed_zero, ite_self, List.map_id']

lemma Contents.find?_blank (id id' : Word) (n : Nat) (c : Contents) :
    List.find? (·.id == id') (c.blank id n) = (List.find? (·.id == id') c).map fun e =>
      if e.id = id then ⟨e.id, zeroed n e.data⟩ else e := by
  have hkeep : ((fun e : Entry => e.id == id') ∘ fun e =>
      if e.id = id then ⟨e.id, zeroed n e.data⟩ else e) = fun e => e.id == id' := by
    funext e
    simp only [Function.comp]
    split <;> rfl
  rw [blank, List.find?_map, hkeep]

lemma Contents.get?_blank_self {data : List UInt8} (h : c.get? id = some data) (n : Nat) :
    (c.blank id n).get? id = some (zeroed n data) := by
  obtain ⟨e, he, rfl⟩ := Option.map_eq_some_iff.1 h
  have hid : e.id = id := by simpa using List.find?_some he
  rw [get?, find?_blank, he]
  simp only [Option.map_some, if_pos hid]

lemma Contents.get?_blank_of_ne {id' : Word} (h : id' ≠ id) (n : Nat) (c : Contents) :
    (c.blank id n).get? id' = c.get? id' := by
  rw [get?, get?, find?_blank]
  cases hfind : List.find? (·.id == id') c with
  | none => rfl
  | some e =>
    have hid : e.id = id' := by simpa using List.find?_some hfind
    simp only [Option.map_some, hid, if_neg h]

lemma Contents.get?_blank_of_none (h : c.get? id = none) (id' : Word) (n : Nat) :
    (c.blank id' n).get? id = none := by
  rw [get?, Option.map_eq_none_iff] at h
  rw [get?, find?_blank, h]
  rfl

/-- Zeroing changes nothing exactly if the bytes are zero already. -/
lemma zeroed_eq_iff {n : Nat} : zeroed n data = data ↔ ∀ b ∈ data.take n, b = 0 := by
  have hsplit : zeroed n data = data ↔ List.replicate (min n data.length) 0 = data.take n := by
    rw [zeroed]
    nth_rewrite 3 [← List.take_append_drop n data]
    exact List.append_left_inj _
  rw [hsplit, eq_comm, List.eq_replicate_iff, List.length_take, and_iff_right rfl]

lemma unpackWords_append (us vs : List Word) :
    unpackWords (us ++ vs) = unpackWords us ++ unpackWords vs := List.flatMap_append

lemma unpackWords_replicate {w : Word} {b : UInt8} (hw : w.toBytes = List.replicate 4 b)
    (k : Nat) : unpackWords (List.replicate k w) = List.replicate (4 * k) b := by
  induction k with
  | zero => rfl
  | succ k ih =>
    rw [List.replicate_succ, unpackWords_cons, ih, hw, List.replicate_append_replicate, Nat.mul_add,
      Nat.add_comm]

lemma unpackWords_drop (k : Nat) (ws : List Word) :
    unpackWords (ws.drop k) = (unpackWords ws).drop (4 * k) := by
  induction k generalizing ws with
  | zero => rfl
  | succ k ih =>
    cases ws with
    | nil => simp
    | cons w ws =>
      rw [List.drop_succ_cons, ih, unpackWords_cons, Nat.mul_add, Nat.add_comm,
        ← List.drop_drop, List.drop_left' (Word.length_toBytes w)]

/-- The first words of a payload that has been cleared in part are zero. -/
lemma words_clearing (m : Memory) (hk : k ≤ r.wordCount) :
    r.words (writeWords m r.payloadAddress (List.replicate k 0)) =
      List.replicate k 0 ++ (r.words m).drop k := by
  refine List.ext_getElem ?_ fun i h₁ h₂ => ?_
  · simp only [Record.length_words, List.length_append, List.length_replicate, List.length_drop]
    omega
  · simp only [Record.words, List.getElem_map, List.getElem_range]
    by_cases hi : i < k
    · rw [writeWords_getElem _ (by rw [List.length_replicate]; exact hi),
        List.getElem_append_left (by rw [List.length_replicate]; exact hi)]
    · rw [writeWords_of_le _ (by rw [List.length_replicate]; omega),
        List.getElem_append_right (by rw [List.length_replicate]; omega)]
      simp only [List.length_replicate, List.getElem_drop, List.getElem_map, List.getElem_range]
      rw [Nat.add_sub_cancel' (by omega)]

/-- So are the first bytes of its value. -/
lemma payload_clearing (m : Memory) (hk : k ≤ r.wordCount) :
    r.payload (writeWords m r.payloadAddress (List.replicate k 0)) =
      zeroed (4 * k) (r.payload m) := by
  rw [zeroed, Record.length_payload, Record.payload, words_clearing m hk, unpackWords_append,
    unpackWords_replicate (b := 0) rfl, unpackWords_drop, List.take_append, List.take_replicate,
    List.length_replicate, Record.payload, List.drop_take, Nat.min_comm]

/-! ### The record of an id -/

lemma Contents.get?_eq_some {data : List UInt8} (h : c.get? id = some data) :
    ⟨id, data⟩ ∈ c := by
  obtain ⟨e, he, rfl⟩ := Option.map_eq_some_iff.1 h
  have hid : e.id = id := by simpa using List.find?_some he
  rw [← hid]
  exact List.mem_of_find?_eq_some he

/-- Of distinct records one alone carries the id of a live one. -/
lemma Distinct.filter_id (h : Distinct (pre ++ r :: post)) (hr : r.isLive = true) :
    (pre ++ r :: post).filter (·.id == r.id) = [r] := by
  have hne : ∀ x ∈ pre ++ post, (x.id == r.id) = false := by
    intro x hx
    rw [beq_eq_false_iff_ne]
    intro he
    have hlive : x.isLive = true := by
      rw [Record.isLive_iff] at hr ⊢
      rwa [he]
    exact h.id_ne hr hx hlive he
  have hpre : pre.filter (·.id == r.id) = [] :=
    List.filter_eq_nil_iff.2 fun x hx => by simp [hne x (List.mem_append_left _ hx)]
  have hpost : post.filter (·.id == r.id) = [] :=
    List.filter_eq_nil_iff.2 fun x hx => by simp [hne x (List.mem_append_right _ hx)]
  rw [List.filter_append, List.filter_cons, hpre, hpost]
  simp

namespace Consistent

/-- A value that is found stands in one record. -/
lemma exists_record (h : Consistent p m side g cursor)
    (hget : (p.persisted m).get? id = some data) :
    ∃ pre r post, recordsOf m (p.block side) = pre ++ r :: post ∧ r.id = id ∧
      r.isLive = true ∧ r.payload m = data := by
  have hmem := Contents.get?_eq_some hget
  rw [h.persisted_eq_live] at hmem
  obtain ⟨r, hr, he⟩ := List.mem_map.1 hmem
  obtain ⟨hr, hlive⟩ := List.mem_filter.1 hr
  obtain ⟨pre, post, hrec⟩ := List.append_of_mem hr
  exact ⟨pre, r, post, hrec, congrArg Entry.id he, hlive, congrArg Entry.data he⟩

/-- Values are found under usable ids only. -/
lemma isUsableId_of_get? (h : Consistent p m side g cursor)
    (hget : (p.persisted m).get? id = some data) : isUsableId id = true := by
  obtain ⟨pre, r, post, hrec, rfl, hlive, -⟩ := h.exists_record hget
  have hmem : r ∈ recordsOf m (p.block side) := hrec ▸ List.mem_append_right pre List.mem_cons_self
  have hwf := Record.WellFormed.of_recordAt (h.linked.of_mem hmem).1
  exact isUsableId_iff.2 ⟨Record.isLive_iff.1 hlive, hwf.1⟩

/-- No record carries an id that no value is found under. -/
lemma id_ne_of_get? (h : Consistent p m side g cursor) (hid : isUsableId id = true)
    (hget : (p.persisted m).get? id = none) :
    ∀ r ∈ recordsOf m (p.block side), r.id ≠ id := by
  intro r hr he
  have hlive : r.isLive = true := Record.isLive_iff.2 (he ▸ (isUsableId_iff.1 hid).1)
  have hmem : (⟨r.id, r.payload m⟩ : Entry) ∈ p.persisted m := by
    rw [h.persisted_eq_live]
    exact List.mem_map.2 ⟨r, List.mem_filter.2 ⟨hr, hlive⟩, rfl⟩
  have hnone := List.find?_eq_none.1 (Option.map_eq_none_iff.1 hget) _ hmem
  exact hnone (beq_iff_eq.2 he)

variable (h : Consistent p m side g cursor) (hp : p.Regular)
  (hrec : recordsOf m (p.block side) = pre ++ r :: post) (hr : r.isLive = true)
include h hp hrec hr

/-- Removing the record of an id removes its value. -/
lemma cleared : Consistent p (cleared m r) side g cursor ∧
    p.persisted (FlashStore.cleared m r) = (p.persisted m).remove r.id := by
  have hl := hrec ▸ h.linked
  have hd := hrec ▸ h.distinct
  obtain ⟨ht, hrec'⟩ := h.toTracked.of_cleared hp hrec
  refine ⟨⟨ht, hrec' ▸ hd.removed⟩, ?_⟩
  rw [ht.persisted_eq, hrec', h.persisted_eq, hrec, remove_entries, ← hd.survivors_removed hr]
  exact hl.entries_eq (agreeOutside_cleared m r) fun x hx => Linked.mem_of_mem_survivors_removed hx

/-- Clearing some words of the record of an id zeroes the first bytes of its value. -/
lemma clearing (hk : k ≤ r.wordCount) :
    Consistent p (writeWords m r.payloadAddress (List.replicate k 0)) side g cursor ∧
      p.persisted (writeWords m r.payloadAddress (List.replicate k 0)) =
        (p.persisted m).blank r.id (4 * k) := by
  have hl := hrec ▸ h.linked
  have hd := hrec ▸ h.distinct
  have hout := agreeOutside_clearing m hk
  have hpay := r.address_add_eight
  obtain ⟨ht, hrec'⟩ := h.toTracked.of_payload hp hrec hout
  have hc : Consistent p (writeWords m r.payloadAddress (List.replicate k 0)) side g cursor :=
    ⟨ht, hrec' ▸ hd⟩
  refine ⟨hc, ?_⟩
  rw [hc.persisted_eq_live, hrec', h.persisted_eq_live, hrec, Contents.blank, entries, entries,
    List.map_map]
  refine List.map_congr_left fun x hx => ?_
  obtain ⟨hx, hlive⟩ := List.mem_filter.1 hx
  -- Of the live records only this one has its id, and the others lie apart from its payload.
  by_cases he : x.id = r.id
  · have hxr : x = r := by
      have hmem : x ∈ (pre ++ r :: post).filter (·.id == r.id) :=
        List.mem_filter.2 ⟨hx, beq_iff_eq.2 he⟩
      rw [hd.filter_id hr] at hmem
      exact List.mem_singleton.1 hmem
    simp only [Function.comp, hxr, if_true, payload_clearing m hk]
  · have hother : x ∈ pre ++ post := by
      rcases List.mem_append.1 hx with hx | hx
      · exact List.mem_append_left _ hx
      · rcases List.mem_cons.1 hx with rfl | hx
        · exact absurd rfl he
        · exact List.mem_append_right _ hx
    have hside := hl.separated x hother
    have hpay' := x.address_add_eight
    have hend' := x.payload_stop
    have hsame : x.words _ = x.words m :=
      Record.words_eq_of_agreeOn (hout.agreeOn (a := x.payloadAddress) (b := x.stop) (by omega))
    simp only [Function.comp, if_neg he, Record.payload, hsame]

end Consistent

/-! ### Erasing -/

omit [LawfulFlash δ] in
lemma find_eq (id : Word) (s : Store δ) : find id s =
    if !isUsableId id then .error .reservedId
    else if !s.inService then .error .outOfService
    else match s.chain.find id with
      | .ok (some r) => .ok r
      | .ok none => .error .notFound
      | .error e => .error e := by
  unfold find requireService
  cases isUsableId id
  · rfl
  · cases s.inService
    · rfl
    · cases s.chain.find id with
      | error e => rfl
      | ok found => cases found <;> rfl

/-- The record of a value that the contents hold is found, and is one of the distinct records. -/
lemma find_of_lookup (hs : s.Operable) (h : s.view.Serves s.placement c)
    (hl : c.lookup id = .ok data) :
    ∃ pre r post, find id s = .ok r ∧ recordsOf s.word s.block = pre ++ r :: post ∧
      r.id = id ∧ r.isLive = true ∧ r.payload s.word = data := by
  obtain ⟨hid, hget⟩ := Contents.lookup_eq_ok_iff.1 hl
  rw [← h.persisted] at hget
  obtain ⟨pre, r, post, hrec, rfl, hlive, hpay⟩ := h.consistent.exists_record hget
  have hd : Distinct (pre ++ r :: post) := hrec ▸ h.consistent.distinct
  refine ⟨pre, r, post, ?_, hrec, rfl, hlive, hpay⟩
  have hfind : (recordsOf s.word s.block).find? (·.id == r.id) = some r := by
    rw [← List.head?_filter, show recordsOf s.word s.block = _ from hrec, hd.filter_id hlive]
    rfl
  rw [find_eq, find_of_serves hs h, hfind, hid, show s.inService = true from h.inService]
  rfl

/-- An id is looked up in vain for the reason that the contents give. -/
lemma find_of_lookup_error {e : StoreError} (hs : s.Operable) (h : s.view.Serves s.placement c)
    (hl : c.lookup id = .error e) : find id s = .error e := by
  rw [find_eq, find_of_serves hs h, show s.inService = true from h.inService]
  unfold Contents.lookup at hl
  cases hid : isUsableId id with
  | false =>
    rw [hid] at hl
    obtain rfl := Except.error.inj hl
    rfl
  | true =>
    rw [hid, if_pos rfl] at hl
    cases hget : c.get? id with
    | some data => simp [hget] at hl
    | none =>
      rw [hget] at hl
      rw [← h.persisted] at hget
      have hnone : (recordsOf s.word s.block).find? (·.id == id) = none :=
        List.find?_eq_none.2 fun r hr he =>
          h.consistent.id_ne_of_get? hid hget r hr (beq_iff_eq.1 he)
      rw [hnone]
      obtain rfl := Except.error.inj hl
      rfl

/-- One record is removed for an id. -/
lemma acts_removeAll (hs : s.Operable) (hu : s.unlockDepth ≠ 0) (h : s.view.Serves s.placement c)
    (hrec : recordsOf s.word s.block = pre ++ r :: post) (hlive : r.isLive = true) :
    Acts (do
        let chain := (← get).chain
        (chain.records.filter (·.id == r.id)).forM fun r => onDevice (removeRecord r)
        query fun _ => chain.requireIntact) s
      (fun _ k v => k = r.wordCount + 1 ∧ v = s.view.reading (cleared s.word r))
      (fun e k v => e.FromDevice ∧ k ≤ r.wordCount ∧
        v = s.view.reading (writeWords s.word r.payloadAddress (List.replicate k 0))) := by
  have hd : Distinct (pre ++ r :: post) := hrec ▸ h.consistent.distinct
  have hmem : r ∈ recordsOf s.word s.block := hrec ▸ List.mem_append_right pre List.mem_cons_self
  refine Acts.get_bind ?_
  rw [chain_of_serves hs h, show recordsOf s.word s.block = _ from hrec]
  dsimp only
  rw [hd.filter_id hlive]
  refine Acts.bind (Q := fun _ k v => k = r.wordCount + 1 ∧ v = s.view.reading (cleared s.word r))
    (Acts.bind (acts_removeRecord hs hu h.consistent.toTracked hmem) ?_) ?_
  · rintro _ s₁ k hs₁ - h₁
    exact Acts.pure hs₁ h₁
  · rintro _ s₁ k hs₁ - h₁
    exact Acts.query hs₁ (requireIntact_endAt _ _ _) h₁

/-- An erase clears the record of its id. If the device fails on the way, it has cleared some words
of the payload. -/
lemma acts_eraseRecord (hs : s.Operable) (h : s.view.Serves s.placement c)
    (hfind : find r.id s = .ok r) (hrec : recordsOf s.word s.block = pre ++ r :: post)
    (hlive : r.isLive = true) :
    Acts (erase r.id) s
      (fun _ k v => k = r.wordCount + 1 ∧ v = s.view.reading (cleared s.word r))
      (fun e k v => e.FromDevice ∧ k ≤ r.wordCount ∧ v.inService = false ∧
        v.word = writeWords s.word r.payloadAddress (List.replicate k 0)) := by
  have hremove := acts_removeAll hs.beginUnlocked (Nat.succ_ne_zero _)
    ((view_beginUnlocked s).symm ▸ h) (by rw [word_beginUnlocked]; exact hrec) hlive
  rw [word_beginUnlocked, view_beginUnlocked] at hremove
  unfold erase
  refine Acts.query_bind hfind ((Acts.suspendOnFailure hremove.withUnlocked).mono ?_ ?_)
  · exact fun _ _ _ hv => hv
  · rintro e k v ⟨v', ⟨he, hk, rfl⟩, rfl⟩
    refine ⟨he, hk, ?_, rfl⟩
    simp only [he.isDisruptive, Bool.not_true, Bool.and_false]

/-- Erasing an id removes its value. If the device fails after some of the programs, as many words
of the value are zeroed. -/
theorem acts_erase (hs : s.Operable) (h : s.view.Serves s.placement c)
    (hl : c.lookup id = .ok data) :
    Acts (erase id) s
      (fun _ k v => k = (data.length + 3) / 4 + 1 ∧ v.Serves s.placement (c.remove id))
      (fun e k v => e.FromDevice ∧ k ≤ (data.length + 3) / 4 ∧
        v.Suspended s.placement (c.blank id (4 * k))) := by
  obtain ⟨pre, r, post, hfind, hrec, rfl, hlive, hpay⟩ := find_of_lookup hs h hl
  have hp := hs.regular
  have hcount : r.wordCount = (data.length + 3) / 4 := by
    rw [r.wordCount_eq, ← hpay, Record.length_payload]
  have hpers : s.placement.persisted s.word = c := h.persisted
  refine (acts_eraseRecord hs h hfind hrec hlive).mono ?_ ?_
  · rintro _ k v ⟨hk, rfl⟩
    obtain ⟨hc, hremoved⟩ := h.consistent.cleared hp hrec hlive
    exact ⟨hk.trans (by rw [hcount]), h.inService, hc, hpers ▸ hremoved⟩
  · rintro e k v ⟨he, hk, hin, hword⟩
    have hblank := (h.consistent.clearing hp hrec hlive hk).2
    exact ⟨he, hcount ▸ hk, hin, hword ▸ hpers ▸ hblank⟩

end FlashStore
