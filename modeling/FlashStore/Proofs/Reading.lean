import FlashStore.Proofs.Erasing
import FlashStore.Store.Read

/-!
# Reading values

A store in service answers every question by its contents, whichever way a payload is read: word by
word, or as a slice of a device whose slices agree with its words.
-/

namespace FlashStore

/-- A device whose slices hold the bytes of its words. -/
class LawfulAddressable (δ : Type) [FlashDevice δ] [Addressable δ] : Prop where
  slice_eq (d : δ) {a n : Nat} (ha : a % 4 = 0)
    (hs : a + 4 * ((n + 3) / 4) ≤ (FlashDevice.capacity d).toNat) :
    Addressable.slice d a n = some ((unpackWords ((List.range ((n + 3) / 4)).map fun i =>
      FlashDevice.readWord d (a + 4 * i))).take n)

namespace NorFlash

variable {size page : Nat}

lemma bytesFrom_add (d : NorFlash size page) (a m n : Nat) :
    d.bytesFrom a (m + n) = d.bytesFrom a m ++ d.bytesFrom (a + m) n := by
  simp only [bytesFrom, List.range_add, List.map_append, List.map_map, Function.comp_def,
    Nat.add_assoc]

lemma toBytes_readWord (d : NorFlash size page) {a : Nat} (ha : a % 4 = 0) (hs : a + 4 ≤ size) :
    (d.readWord a).toBytes = d.bytesFrom a 4 := by
  rw [readWord, if_pos ⟨ha, hs⟩]
  exact Word.toBytes_ofBytes _ _ _ _

/-- Consecutive words hold consecutive bytes. -/
lemma unpackWords_readWord (d : NorFlash size page) {a : Nat} (ha : a % 4 = 0) (n : Nat)
    (hs : a + 4 * n ≤ size) :
    unpackWords ((List.range n).map fun i => d.readWord (a + 4 * i)) = d.bytesFrom a (4 * n) := by
  induction n with
  | zero => rfl
  | succ n ih =>
    rw [List.range_succ, List.map_append, unpackWords_append, ih (by omega), Nat.mul_add,
      bytesFrom_add, List.map_singleton, unpackWords_cons, unpackWords_nil, List.append_nil,
      d.toBytes_readWord (by omega) (by omega)]

instance : LawfulAddressable (NorFlash size page) where
  slice_eq d a n ha hs := by
    have hcap := d.toNat_capacity_le
    show d.slice a n = _
    rw [slice, if_pos (by omega)]
    congr 1
    show d.bytesFrom a n = ((unpackWords ((List.range ((n + 3) / 4)).map fun i =>
      d.readWord (a + 4 * i))).take n)
    rw [d.unpackWords_readWord ha _ (by omega),
      show 4 * ((n + 3) / 4) = n + (4 * ((n + 3) / 4) - n) by omega, bytesFrom_add,
      List.take_left' (d.length_bytesFrom a n)]

end NorFlash

open LawfulFlash Store

variable {δ : Type} [FlashDevice δ] [LawfulFlash δ] {s : Store δ} {c : Contents} {id : Word}
  {data : List UInt8} {e : StoreError}

namespace Store

omit [LawfulFlash δ] in
/-- The slice of a record of the current block holds its payload. -/
lemma slice_of_mem [Addressable δ] [LawfulAddressable δ] (hp : s.placement.Regular)
    (hcap : s.block.stop ≤ (FlashDevice.capacity s.device).toNat) {r : Record}
    (hr : r ∈ recordsOf s.word s.block) :
    Addressable.slice s.device r.payloadAddress r.length.toNat = some (r.payload s.word) := by
  obtain ⟨z, hl, -⟩ := linked_recordsOf s.word s.block
  have haddr := hl.address_mod (hp.first_mod _) hr
  have hstop := (address_of_mem_recordsOf hr).2
  have hend := r.payload_stop
  have hbegin := r.address_add_eight
  rw [r.wordCount_eq] at hend
  rw [LawfulAddressable.slice_eq s.device (a := r.payloadAddress) (n := r.length.toNat) (by omega)
    (by omega), Record.payload, Record.words, r.wordCount_eq]
  rfl

lemma read_of_serves [Addressable δ] [LawfulAddressable δ] (hs : s.Operable)
    (h : s.view.Serves s.placement c) (id : Word) : s.read id = c.lookup id := by
  cases hl : c.lookup id with
  | error e =>
    rw [read, find_of_lookup_error hs h hl]
    rfl
  | ok data =>
    obtain ⟨pre, r, post, hfind, hrec, rfl, hlive, rfl⟩ := find_of_lookup hs h hl
    have hmem : r ∈ recordsOf s.word s.block := hrec ▸ List.mem_append_right pre List.mem_cons_self
    rw [read, hfind]
    simp only [bind, Except.bind, slice_of_mem hs.regular (hs.fits.stop_le s.current) hmem]
    rfl

lemma readInto_of_serves (hs : s.Operable) (h : s.view.Serves s.placement c) (id : Word)
    (buffer : List UInt8) : s.readInto id buffer = c.readInto id buffer := by
  cases hl : c.lookup id with
  | error e =>
    rw [readInto, find_of_lookup_error hs h hl, Contents.readInto, hl]
    rfl
  | ok data =>
    obtain ⟨pre, r, post, hfind, hrec, rfl, hlive, rfl⟩ := find_of_lookup hs h hl
    rw [readInto, hfind, Contents.readInto, hl]
    simp only [bind, Except.bind, Record.length_payload]

lemma contains_of_serves (hs : s.Operable) (h : s.view.Serves s.placement c) (id : Word) :
    s.contains id = c.contains id := by
  rw [contains, Contents.contains]
  cases hl : c.lookup id with
  | error e =>
    rw [find_of_lookup_error hs h hl]
    unfold Contents.lookup at hl
    split at hl
    · rename_i hid
      rw [if_pos hid]
      cases hget : c.get? id with
      | some data => simp [hget] at hl
      | none =>
        rw [hget] at hl
        obtain rfl := Except.error.inj hl
        rfl
    · rename_i hid
      rw [if_neg hid]
      obtain rfl := Except.error.inj hl
      rfl
  | ok data =>
    obtain ⟨pre, r, post, hfind, -⟩ := find_of_lookup hs h hl
    obtain ⟨hid, hget⟩ := Contents.lookup_eq_ok_iff.1 hl
    rw [hfind, if_pos hid, hget]
    rfl

lemma contents_of_serves (hs : s.Operable) (h : s.view.Serves s.placement c) :
    s.contents = c := by
  rw [← h.persisted, h.consistent.persisted_eq_live, contents, chain_of_serves hs h]
  rfl

/-- The live records are listed with the ids and lengths of the entries. -/
lemma list_of_serves (hs : s.Operable) (h : s.view.Serves s.placement c) :
    ∃ rs, s.list = .ok ⟨rs, none⟩ ∧ (rs.map fun r => (r.id, r.length.toNat)) = c.listing := by
  refine ⟨s.chain.live, ?_, ?_⟩
  · rw [list, requireService_of_serves h, requireIntact_of_serves hs h]
    rfl
  · rw [← h.persisted, h.consistent.persisted_eq_live, chain_of_serves hs h, Contents.listing,
      entries, List.map_map]
    refine List.map_congr_left fun r _ => ?_
    simp only [Function.comp, Record.length_payload]

/-! ### Why a question has no answer -/

omit [LawfulFlash δ]

omit [FlashDevice δ] in
lemma requireService_error (h : s.requireService = .error e) : e = .outOfService := by
  unfold requireService at h
  split at h
  · cases h
  · exact (Except.error.inj h).symm

/-- Out of service nothing is found under a usable id. -/
lemma find_of_outOfService (hin : s.inService = false) (hid : isUsableId id = true) :
    find id s = .error .outOfService := by
  rw [find_eq, hid, hin]
  rfl

lemma readInto_of_outOfService (hin : s.inService = false) (hid : isUsableId id = true)
    (buffer : List UInt8) : s.readInto id buffer = .error .outOfService := by
  rw [readInto, find_of_outOfService hin hid]
  rfl

lemma not_fromDevice_of_requireIntact {chain : Chain} (h : chain.requireIntact = .error e) :
    ¬ e.FromDevice := by
  obtain ⟨a, rfl⟩ := Chain.eq_brokenChain_of_requireIntact h
  rintro ⟨e', he⟩
  cases he

/-- Looking for a record never fails for the sake of the device. -/
lemma not_fromDevice_of_find (h : find id s = .error e) : ¬ e.FromDevice := by
  rw [find_eq] at h
  split at h
  · obtain rfl := Except.error.inj h
    rintro ⟨e', he⟩
    cases he
  · split at h
    · obtain rfl := Except.error.inj h
      rintro ⟨e', he⟩
      cases he
    · split at h
      · cases h
      · obtain rfl := Except.error.inj h
        rintro ⟨e', he⟩
        cases he
      · rename_i hf
        obtain rfl := Except.error.inj h
        unfold Chain.find at hf
        split at hf
        · cases hf
        · cases hc : s.chain.requireIntact with
          | ok u => simp [hc, bind, Except.bind, pure, Except.pure] at hf
          | error e' =>
            simp only [hc, bind, Except.bind] at hf
            exact Except.error.inj hf ▸ not_fromDevice_of_requireIntact hc

lemma not_fromDevice_of_read [Addressable δ] (h : s.read id = .error e) : ¬ e.FromDevice := by
  rw [read] at h
  cases hf : find id s with
  | error e' =>
    rw [hf] at h
    exact Except.error.inj h ▸ not_fromDevice_of_find hf
  | ok r =>
    rw [hf] at h
    simp only [bind, Except.bind] at h
    split at h
    · cases h
    · obtain rfl := Except.error.inj h
      rintro ⟨e', he⟩
      cases he

/-- A value that is found is copied unless the buffer is too small for it. -/
lemma readInto_error {buffer : List UInt8} (h : s.readInto id buffer = .error e) :
    s.find id = .error e ∨ e = .bufferTooSmall := by
  rw [readInto] at h
  cases hf : find id s with
  | error e' =>
    rw [hf] at h
    exact Or.inl (congrArg Except.error (Except.error.inj h))
  | ok r =>
    rw [hf] at h
    simp only [bind, Except.bind] at h
    split at h
    · exact Or.inr (Except.error.inj h).symm
    · cases h

lemma not_fromDevice_of_readInto {buffer : List UInt8} (h : s.readInto id buffer = .error e) :
    ¬ e.FromDevice := by
  obtain hf | rfl := readInto_error h
  · exact not_fromDevice_of_find hf
  · rintro ⟨e', he⟩
    cases he

/-- Only what keeps a value from being found keeps the answer whether there is one. -/
lemma contains_error (h : s.contains id = .error e) : s.find id = .error e := by
  unfold contains at h
  split at h
  · cases h
  · cases h
  · rename_i hf
    rw [hf, Except.error.inj h]

lemma not_fromDevice_of_contains (h : s.contains id = .error e) : ¬ e.FromDevice :=
  not_fromDevice_of_find (contains_error h)

lemma not_fromDevice_of_reclaimable (h : s.reclaimable = .error e) : ¬ e.FromDevice := by
  rw [reclaimable] at h
  cases hs : s.requireService with
  | error e' =>
    rw [hs] at h
    obtain rfl := requireService_error hs
    obtain rfl := Except.error.inj h
    rintro ⟨e', he⟩
    cases he
  | ok u =>
    cases hc : s.chain.requireIntact with
    | error e' =>
      rw [hs, hc] at h
      exact Except.error.inj h ▸ not_fromDevice_of_requireIntact hc
    | ok u => simp [hs, hc, bind, Except.bind, pure, Except.pure] at h

lemma not_fromDevice_of_list (h : s.list = .error e) : ¬ e.FromDevice := by
  rw [list] at h
  cases hs : s.requireService with
  | error e' =>
    rw [hs] at h
    obtain rfl := requireService_error hs
    obtain rfl := Except.error.inj h
    rintro ⟨e', he⟩
    cases he
  | ok u => simp [hs, bind, Except.bind, pure, Except.pure] at h

end Store

end FlashStore
