import FlashStore.Proofs.Reading

/-!
# Ways to read a value

A value is looked up, read as a slice, copied word by word and listed, each by code of its own. On
a store in service they agree whatever flash holds: on which ids have a value, on its length and
bytes, and on the error where the chain of records is broken. A lookup stops at the record it looks
for, where a listing goes on to the end.
-/

namespace FlashStore

open Store

/-! ### The search for an id -/

namespace Chain

variable {word : Nat → Word} {stop a : Nat} {id : Word}

/-- Search for an id from the record at `a` on, no further than the first record that has it. -/
def seek (word : Nat → Word) (stop : Nat) (id : Word) (a : Nat) :
    Except StoreError (Option Record) :=
  match h : recordAt word stop a with
  | .error (.broken a) => .error (.brokenChain a)
  | .error _ => .ok none
  | .ok r =>
    have : stop - r.stop < stop - a := by
      have := lt_stop_of_recordAt h
      have := (recordAt_eq_ok h).2.2.2.2
      omega
    if r.id = id then .ok (some r) else seek word stop id r.stop
termination_by stop - a

/-- A search that stops early finds what the whole chain has. -/
theorem find_scan : (scan word stop a).find id = seek word stop id a := by
  fun_induction seek word stop id a with
  | case1 a b h =>
    rw [scan_of_error h]
    rfl
  | case2 a e hbroken h =>
    rw [scan_of_error h]
    cases e with
    | broken b => exact absurd rfl (hbroken b)
    | vacant b => rfl
    | full => rfl
  | case3 a r h _ heq =>
    rw [scan_of_ok h, find, List.find?_cons_of_pos (by simpa using heq)]
  | case4 a r h _ hne ih =>
    rw [← ih, scan_of_ok h, find, List.find?_cons_of_neg (by simpa using hne)]
    rfl

end Chain

/-! ### The copy into a buffer -/

/-- Fill a buffer with the words at an address and after it. Of the last word it takes only as many
bytes as are left to fill. -/
def fillWords (word : Nat → Word) (a : Nat) : List UInt8 → List UInt8
  | _ :: _ :: _ :: _ :: rest => (word a).toBytes ++ fillWords word (a + 4) rest
  | tail => (word a).toBytes.take tail.length

lemma fillWords_eq (word : Nat → Word) (a : Nat) (buffer : List UInt8) :
    fillWords word a buffer = (unpackWords ((List.range ((buffer.length + 3) / 4)).map fun i =>
      word (a + 4 * i))).take buffer.length := by
  fun_induction fillWords word a buffer with
  | case1 a _ _ _ _ rest ih =>
    have hcount : (rest.length + 4 + 3) / 4 = (rest.length + 3) / 4 + 1 := by omega
    have hnext : ((List.range ((rest.length + 3) / 4)).map fun i => word (a + 4 * (i + 1))) =
        (List.range ((rest.length + 3) / 4)).map fun i => word (a + 4 + 4 * i) :=
      List.map_congr_left fun i _ => by congr 1; omega
    have hlength : rest.length + 4 = (word a).toBytes.length + rest.length := Nat.add_comm _ _
    simp only [List.length_cons, Nat.add_assoc, Nat.reduceAdd] at hcount ⊢
    rw [hcount, List.range_succ_eq_map, List.map_cons, List.map_map, unpackWords_cons, hlength]
    rw [show word (a + 4 * 0) = word a from rfl, List.take_length_add_append, ih, ← hnext]
    rfl
  | case2 a tail h =>
    match tail with
    | [] => rfl
    | [_] | [_, _] | [_, _, _] => simp
    | b₀ :: b₁ :: b₂ :: b₃ :: rest => exact absurd rfl (h b₀ b₁ b₂ b₃ rest)

/-- A buffer as long as the payload is filled with the payload. -/
lemma fillWords_payloadAddress (word : Nat → Word) {r : Record} {buffer : List UInt8}
    (h : buffer.length = r.length.toNat) :
    fillWords word r.payloadAddress buffer = r.payload word := by
  rw [fillWords_eq, h, Record.payload, Record.words, r.wordCount_eq]

namespace Store

variable {δ : Type} [FlashDevice δ] {s : Store δ} {id : Word} {r : Record} {e : StoreError}
  {buffer : List UInt8}

/-- Copy the value of an id word by word to the start of the buffer that is the state, and return
its length. -/
def copyInto (id : Word) (s : Store δ) : EStateM StoreError (List UInt8) Nat := do
  match s.find id with
  | .error e => throw e
  | .ok r =>
    let n := r.length.toNat
    if (← get).length < n then throw .bufferTooSmall
    modify fun buffer => fillWords s.word r.payloadAddress (buffer.take n) ++ buffer.drop n
    return n

lemma run_copyInto_of_find (h : s.find id = .ok r) : (copyInto id s).run buffer =
    if buffer.length < r.length.toNat then .error .bufferTooSmall buffer
    else .ok r.length.toNat (r.payload s.word ++ buffer.drop r.length.toNat) := by
  unfold copyInto
  rw [h]
  by_cases hroom : buffer.length < r.length.toNat
  · simp only [EStateM.run_bind, EStateM.run_get, hroom, reduceIte]
    rfl
  · have hfill : (buffer.take r.length.toNat).length = r.length.toNat := by
      rw [List.length_take, Nat.min_eq_left (Nat.le_of_not_lt hroom)]
    simp only [EStateM.run_bind, EStateM.run_get, hroom, reduceIte]
    rw [← fillWords_payloadAddress s.word hfill]
    rfl

lemma run_copyInto_of_error (h : s.find id = .error e) :
    (copyInto id s).run buffer = .error e buffer := by
  unfold copyInto
  rw [h]
  rfl

lemma readInto_of_find (h : s.find id = .ok r) : s.readInto id buffer =
    if buffer.length < r.length.toNat then .error .bufferTooSmall
    else .ok (r.length.toNat, r.payload s.word ++ buffer.drop r.length.toNat) := by
  rw [readInto, h]
  by_cases hroom : buffer.length < r.length.toNat
  · simp only [bind, Except.bind, hroom, reduceIte]
    rfl
  · simp only [bind, Except.bind, hroom, reduceIte]
    rfl

lemma readInto_of_error (h : s.find id = .error e) : s.readInto id buffer = .error e := by
  rw [readInto, h]
  rfl

/-- The copy gives what `readInto` answers, and leaves the buffer alone where that is an error. -/
theorem run_copyInto (id : Word) (s : Store δ) (buffer : List UInt8) :
    (copyInto id s).run buffer =
      match s.readInto id buffer with
      | .ok (n, buffer') => .ok n buffer'
      | .error e => .error e buffer := by
  cases h : s.find id with
  | error e => rw [run_copyInto_of_error h, readInto_of_error h]
  | ok r =>
    rw [run_copyInto_of_find h, readInto_of_find h]
    split <;> rfl

/-! ### Lookups and listings -/

omit [FlashDevice δ] in
/-- Among live records and among all of them the first one of a usable id is the same. -/
lemma find?_live (hid : id ≠ removedId) (rs : List Record) :
    (rs.filter Record.isLive).find? (·.id == id) = rs.find? (·.id == id) := by
  rw [List.find?_filter]
  congr 1
  funext r
  by_cases hr : r.id = id
  · simp [hr, hid]
  · simp [hr]

lemma isUsableId_of_mem_live (hr : r ∈ s.chain.live) : isUsableId r.id = true := by
  obtain ⟨hmem, hlive⟩ := List.mem_filter.1 hr
  obtain ⟨z, hl, -⟩ := linked_recordsOf s.word s.block
  have hat := (hl.of_mem hmem).1
  exact isUsableId_iff.2 ⟨Record.isLive_iff.1 hlive, (recordAt_eq_ok hat).2.1⟩

/-- A lookup finds the record that is listed first among those of its id. -/
lemma find_eq_ok_iff (hin : s.inService = true) :
    s.find id = .ok r ↔ s.chain.live.find? (·.id == id) = some r := by
  rw [find_eq, hin]
  cases hid : isUsableId id with
  | false =>
    refine ⟨nofun, fun h => ?_⟩
    obtain rfl : r.id = id := by simpa using List.find?_some h
    rw [isUsableId_of_mem_live (List.mem_of_find?_eq_some h)] at hid
    cases hid
  | true =>
    rw [Chain.live, find?_live (isUsableId_iff.1 hid).1, Chain.find]
    cases s.chain.records.find? (·.id == id) with
    | some r' => simp
    | none => cases s.chain.requireIntact <;> simp [bind, Except.bind, pure, Except.pure]

lemma isSome_find_iff (hin : s.inService = true) :
    (∃ r, s.find id = .ok r) ↔ ∃ r ∈ s.chain.live, r.id = id := by
  simp only [find_eq_ok_iff hin, ← Option.isSome_iff_exists, List.find?_isSome, beq_iff_eq]

/-- A lookup that finds nothing fails for the id, or as the chain ends. -/
lemma find_cases (hin : s.inService = true) (id : Word) :
    (∃ r, s.find id = .ok r) ∨
      (isUsableId id = false ∧ s.find id = .error .reservedId) ∨
      (∃ a, s.chain.requireIntact = .error (.brokenChain a) ∧
        s.find id = .error (.brokenChain a)) ∨
      s.chain.requireIntact = .ok () ∧ s.find id = .error .notFound := by
  rw [find_eq, hin]
  cases hid : isUsableId id with
  | false => exact Or.inr (Or.inl ⟨rfl, rfl⟩)
  | true =>
    rw [Chain.find]
    cases s.chain.records.find? (·.id == id) with
    | some r => exact Or.inl ⟨r, rfl⟩
    | none =>
      cases hintact : s.chain.requireIntact with
      | ok u => exact Or.inr (Or.inr (Or.inr ⟨rfl, rfl⟩))
      | error e =>
        obtain ⟨a, rfl⟩ := Chain.eq_brokenChain_of_requireIntact hintact
        exact Or.inr (Or.inr (Or.inl ⟨a, rfl, rfl⟩))

lemma list_of_inService (hin : s.inService = true) :
    s.list = .ok ⟨s.chain.live, match s.chain.requireIntact with
      | .ok _ => none
      | .error e => some e⟩ := by
  rw [list, requireService_eq_ok_iff.2 hin]
  rfl

/-! ### Agreement -/

lemma read_of_find [Addressable δ] (h : s.find id = .ok r)
    (hslice : Addressable.slice s.device r.payloadAddress r.length.toNat =
      some (r.payload s.word)) : s.read id = .ok (r.payload s.word) := by
  rw [read, h]
  simp only [bind, Except.bind, hslice]
  rfl

lemma read_of_error [Addressable δ] (h : s.find id = .error e) : s.read id = .error e := by
  rw [read, h]
  rfl

lemma contains_of_error (h : s.find id = .error e) (he : e ≠ .notFound) :
    s.contains id = .error e := by
  rw [contains, h]
  cases e <;> first | rfl | exact absurd rfl he

/-- Whatever flash holds, a store in service is read alike in every way. The lookup is the search
that stops early, an id has a value if it is listed, and the copy is what `readInto` answers. For
each id there is one of three outcomes: every way fails alike, for a reserved id or where the
listing is cut short; every way finds nothing; or every way finds the same bytes, as many as are
listed first for the id, and the copy takes them over if there is room, leaves the rest of the
buffer alone, and leaves all of it alone if there is not. -/
theorem read_paths_agree {size page : Nat} (hpage : 4 ∣ page) {s : Store (NorFlash size page)}
    (hplacement : s.placement.accepts (UInt32.ofNat page) (UInt32.ofNat size) = true)
    (hin : s.inService = true) (id : Word) :
    ∃ l, s.list = .ok l ∧
      s.chain.find id = Chain.seek s.word s.block.stop id s.block.first ∧
      (s.contains id = .ok true ↔ ∃ r ∈ l.records, r.id = id) ∧
      (∀ buffer, (copyInto id s).run buffer =
        match s.readInto id buffer with
        | .ok (n, buffer') => .ok n buffer'
        | .error e => .error e buffer) ∧
      ((∃ e, (e = .reservedId ∧ isUsableId id = false ∨
            (∃ a, e = .brokenChain a) ∧ l.error = some e) ∧
          s.read id = .error e ∧ s.contains id = .error e ∧
          ∀ buffer, (copyInto id s).run buffer = .error e buffer) ∨
        (l.error = none ∧ s.read id = .error .notFound ∧ s.contains id = .ok false ∧
          ∀ buffer, (copyInto id s).run buffer = .error .notFound buffer) ∨
        ∃ data, s.read id = .ok data ∧ s.contains id = .ok true ∧
          (∃ r, l.records.find? (·.id == id) = some r ∧ r.length.toNat = data.length) ∧
          ∀ buffer, (copyInto id s).run buffer =
            if buffer.length < data.length then .error .bufferTooSmall buffer
            else .ok data.length (data ++ buffer.drop data.length)) := by
  have hfits := Placement.fits_of_accepts hplacement
  have hregular : s.placement.Regular := hfits.regular (by
    rw [UInt32.toNat_ofNat']
    omega)
  refine ⟨_, list_of_inService hin, Chain.find_scan, ?_, run_copyInto id s, ?_⟩
  · rw [contains_eq_true_iff, isSome_find_iff hin]
  obtain ⟨r, hfind⟩ | ⟨hid, hfind⟩ | ⟨a, hintact, hfind⟩ | ⟨hintact, hfind⟩ := find_cases hin id
  · have hlisted := (find_eq_ok_iff hin).1 hfind
    have hmem : r ∈ recordsOf s.word s.block :=
      (List.mem_filter.1 (List.mem_of_find?_eq_some hlisted)).1
    have hslice := slice_of_mem hregular (hfits.stop_le s.current) hmem
    refine .inr (.inr ⟨_, read_of_find hfind hslice, contains_eq_true_iff.2 ⟨r, hfind⟩,
      ⟨r, hlisted, (Record.length_payload _ _).symm⟩, fun buffer => ?_⟩)
    rw [Record.length_payload]
    exact run_copyInto_of_find hfind
  · exact .inl ⟨_, .inl ⟨rfl, hid⟩, read_of_error hfind, contains_of_error hfind nofun,
      fun _ => run_copyInto_of_error hfind⟩
  · refine .inl ⟨_, .inr ⟨⟨a, rfl⟩, ?_⟩, read_of_error hfind, contains_of_error hfind nofun,
      fun _ => run_copyInto_of_error hfind⟩
    rw [hintact]
  · refine .inr (.inl ⟨?_, read_of_error hfind, contains_eq_false_iff.2 hfind,
      fun _ => run_copyInto_of_error hfind⟩)
    rw [hintact]

/-- A chain of a value of five bytes and a removed one that breaks at the third record: the value is
read in every way, and every other id is lost to the damage. -/
theorem read_paths_agree_of_broken_chain :
    let image := unpackWords [magic, 0, 1, 5, 0x04030201, 5, 0, 4, 0, 7, 100, 0]
    let s : Store (NorFlash 96 24) := ⟨NorFlash.ofImage image, ⟨0, 48, 48, 20⟩, .a, 0, 8, true, 0⟩
    s.read 1 = .ok [1, 2, 3, 4, 5] ∧ s.contains 1 = .ok true ∧
      (copyInto 1 s).run (List.replicate 7 9) = .ok 5 [1, 2, 3, 4, 5, 9, 9] ∧
      (copyInto 1 s).run [9, 9] = .error .bufferTooSmall [9, 9] ∧
      s.read 2 = .error (.brokenChain 36) ∧ s.contains 2 = .error (.brokenChain 36) ∧
      (copyInto 2 s).run [9, 9] = .error (.brokenChain 36) [9, 9] := by
  intro image s
  have hagree := read_paths_agree (by decide : 4 ∣ 24) (s := s) (by decide) rfl
  have hread : s.read 1 = .ok [1, 2, 3, 4, 5] := by decide +kernel
  have hlost : s.contains 2 = .error (.brokenChain 36) := by decide +kernel
  obtain ⟨l, -, -, -, -, ⟨e, -, he, -⟩ | ⟨-, he, -⟩ | ⟨data, hdata, hcontains, -, hcopy⟩⟩ :=
    hagree 1
  · cases hread.symm.trans he
  · cases hread.symm.trans he
  obtain rfl : data = [1, 2, 3, 4, 5] := Except.ok.inj (hdata.symm.trans hread)
  obtain ⟨l', -, -, -, -, ⟨e, -, hread', he, hcopy'⟩ | ⟨-, -, he, -⟩ | ⟨data', -, he, -⟩⟩ :=
    hagree 2
  · obtain rfl : e = .brokenChain 36 := Except.error.inj (he.symm.trans hlost)
    exact ⟨hread, hcontains, hcopy _, hcopy _, hread', hlost, hcopy' _⟩
  · cases hlost.symm.trans he
  · cases hlost.symm.trans he

end Store

end FlashStore
