import Mathlib.Data.List.Forall2
import FlashStore.Proofs.CompactImages
import FlashStore.Proofs.ReadPaths
import FlashStore.Proofs.Simulation
import FlashStore.Proofs.Tracing

/-!
# Reading back what was written

Entries that are written one after another to an erased block are read back as they were written,
whatever bytes they hold: the chain has their ids and lengths in order, a copy and a slice give
their bytes, and what is not taken stays erased. Records removed from such a chain, in any order,
leave the others as they are.

None of this erases anything, so the size of the erase pages does not matter: programs on a device
are mirrored by those on a device with pages of a word, which is lawful.
-/

namespace FlashStore

open LawfulFlash

variable {size page page' : Nat} {m m' : Memory} {stop a z : Nat} {r : Record} {rs : List Record}
  {c : Contents} {e : Entry}

/-! ### Erase pages of another size -/

/-- Writing entries reads and programs only. -/
lemma Relays.writeEntries {δ δ' : Type} [FlashDevice δ] [FlashDevice δ'] {f : δ → δ'}
    (hf : Relays f) (c : Contents) (a : Nat) :
    Mirrors f (writeEntries c a) (writeEntries c a) := by
  induction c generalizing a with
  | nil => exact .pure _
  | cons e c ih => exact (hf.writeRecord a e.id e.data).bind fun _ => ih _

namespace NorFlash

/-- The device with erase pages of another size. -/
def repage (d : NorFlash size page) : NorFlash size page' :=
  ⟨d.bytes, d.locked, d.budget, d.programs, d.erases⟩

lemma relays_repage : Relays (repage : NorFlash size page → NorFlash size page') where
  readWord_eq _ := rfl
  programWord a w := by
    intro d
    have hrefusal : (repage d : NorFlash size page').refusal 4 a = d.refusal 4 a := rfl
    show Ensures (NorFlash.programWord a w) d
      (fun u d' => (NorFlash.programWord a w).run (repage d) = .ok u (repage d'))
      (fun e d' => (NorFlash.programWord a w).run (repage d) = .error e (repage d'))
    unfold Ensures
    rw [run_programWord, run_programWord, hrefusal]
    cases d.refusal 4 a with
    | none => rfl
    | some e => rfl

/-- While power stays on, programs that run on a lawful device succeed whatever the erase pages
are. -/
lemma exists_run_of_mirrors {α : Type} {x : ProgramM (NorFlash size page) α}
    {y : ProgramM (NorFlash size 4) α} {d : NorFlash size page} {Q : α → Nat → Memory → Prop}
    {E : Nat → Memory → Prop} (hxy : Mirrors repage x y) (hpower : d.budget = none)
    (h : Runs y (repage d) Q E) :
    ∃ v d' k, x.run d = .ok v d' ∧ d'.locked = false ∧ d'.budget = none ∧ Q v k d'.readWord := by
  cases hx : x.run d with
  | ok v d' =>
    obtain ⟨hunlocked, k, hspent, hQ⟩ := h.of_ok ((hxy d).of_ok hx)
    exact ⟨v, d', k, rfl, hunlocked, hspent.budget_eq_none hpower, hQ⟩
  | error e d' =>
    obtain ⟨-, k, hspent, ⟨e', -, -, hbudget⟩, -⟩ := h.of_error ((hxy d).of_error hx)
    cases (hspent.budget_eq_none hpower).symm.trans hbudget

end NorFlash

/-! ### Written entries -/

/-- A record can be made of every one of the entries. -/
def Contents.Writable (c : Contents) : Prop :=
  ∀ e ∈ c, isUsableId e.id = true ∧ minPayload ≤ e.data.length

/-- The records that entries written from an address on have. -/
def Contents.recordsFrom : Nat → Contents → List Record
  | _, [] => []
  | a, e :: c => recordOf a e.id e.data :: recordsFrom (a + recordSpan e.data.length) c

lemma recordSpan_lt_of_span (hstop : a + c.span ≤ stop) (hlt : stop < 2 ^ 32) (he : e ∈ c) :
    recordSpan e.data.length < 2 ^ 32 := by
  induction c generalizing a with
  | nil => simp at he
  | cons e' c ih =>
    rw [Contents.span_cons] at hstop
    rcases List.mem_cons.1 he with rfl | he
    · omega
    · exact ih (a := a + recordSpan e'.data.length) (by omega) he

/-- Entries that are spelled one after another are linked. -/
lemma linked_recordsFrom (hc : c.Writable) (hstop : a + c.span ≤ stop) (hlt : stop < 2 ^ 32)
    (h : Spells m a c.image) : Linked m stop a (c.recordsFrom a) (a + c.span) := by
  induction c generalizing a with
  | nil => rfl
  | cons e c ih =>
    obtain ⟨hid, hmin⟩ := hc e List.mem_cons_self
    have hspan := recordSpan_lt_of_span hstop hlt List.mem_cons_self
    have hlen := length_lt_of_fit hspan
    have hend : (recordOf a e.id e.data).stop = a + recordSpan e.data.length := by
      rw [Record.stop, span_recordOf a e.id (by omega)]
      rfl
    rw [Contents.span_cons] at hstop ⊢
    rw [Contents.image_cons] at h
    have hrest := h.right
    rw [four_mul_length_valueImage] at hrest
    have htail := ih (fun e' he' => hc e' (List.mem_cons_of_mem _ he')) (by omega) hrest
    refine ⟨recordAt_of_spells h.left (wellFormed_recordOf a hid hmin hspan) ?_, ?_⟩
    · rw [← recordOf, hend]
      omega
    · rw [hend, ← Nat.add_assoc]
      exact htail

/-- Each record of entries that are spelled one after another spells its entry. -/
lemma forall₂_recordsFrom (h : Spells m a c.image) : List.Forall₂
    (fun r e => r = recordOf r.address e.id e.data ∧ Spells m r.address (valueImage e.id e.data))
    (c.recordsFrom a) c := by
  induction c generalizing a with
  | nil => exact .nil
  | cons e c ih =>
    rw [Contents.image_cons] at h
    have hrest := h.right
    rw [four_mul_length_valueImage] at hrest
    exact .cons ⟨rfl, h.left⟩ (ih hrest)

/-! ### Entries read back -/

/-- A record carries an entry: its id and its length, its bytes whichever way they are read, and
zeros up to the next record. -/
structure NorFlash.Carries (d : NorFlash size page) (r : Record) (e : Entry) : Prop where
  id_eq : r.id = e.id
  length_eq : r.length.toNat = e.data.length
  copy_eq : ∀ buffer : List UInt8, e.data.length ≤ buffer.length →
    fillWords d.readWord r.payloadAddress (buffer.take e.data.length) = e.data
  slice_eq : Addressable.slice d r.payloadAddress r.length.toNat = some e.data
  padding_eq : d.bytesFrom (r.payloadAddress + e.data.length)
      (r.stop - (r.payloadAddress + e.data.length)) =
    List.replicate (r.stop - (r.payloadAddress + e.data.length)) 0

/-- A record that spells an entry carries it. -/
lemma NorFlash.carries_of_spells {d : NorFlash size page} (hr : r = recordOf r.address e.id e.data)
    (hmod : r.address % 4 = 0) (hsize : r.stop ≤ size) (hlen : e.data.length < 2 ^ 32)
    (h : Spells d.readWord r.address (valueImage e.id e.data)) : d.Carries r e := by
  have hlength : r.length.toNat = e.data.length := by
    rw [hr]
    exact toNat_ofNat_length hlen
  have hid : r.id = e.id := congrArg Record.id hr
  have hbegin := r.address_add_eight
  have hend := r.payload_stop
  rw [r.wordCount_eq, hlength] at hend
  have hsplit : Spells d.readWord r.address
      ([e.id, UInt32.ofNat e.data.length] ++ packWords e.data) := h
  have hpayload : Spells d.readWord r.payloadAddress (packWords e.data) := hsplit.right
  -- the bytes of the payload and its padding in one piece, then taken apart
  have hbytes := d.bytesFrom_of_spells (a := r.payloadAddress) (by omega)
    (by rw [length_packWords]; omega) hpayload
  rw [length_packWords, unpackWords_packWords,
    show 4 * ((e.data.length + 3) / 4) =
      e.data.length + (r.stop - (r.payloadAddress + e.data.length)) by omega,
    Nat.add_sub_cancel_left, bytesFrom_add] at hbytes
  obtain ⟨hdata, hpadding⟩ := List.append_inj hbytes (d.length_bytesFrom _ _)
  refine ⟨hid, hlength, ?_, ?_, hpadding⟩
  · intro buffer hroom
    have htake : (buffer.take e.data.length).length = r.length.toNat := by
      rw [List.length_take, Nat.min_eq_left hroom, hlength]
    rw [fillWords_payloadAddress d.readWord htake, hr]
    exact payload_of_spells hlen h
  · show d.slice r.payloadAddress r.length.toNat = some e.data
    rw [slice, if_pos (by omega), hlength, hdata]

/-- Records of entries that were spelled one after another carry them on any device on which they
still read the same. -/
lemma NorFlash.forall₂_carries {d : NorFlash size page} {P : Record → Prop}
    (hl : Linked m stop a (c.recordsFrom a) z) (ha : a % 4 = 0) (hz : z ≤ size)
    (hlen : ∀ e ∈ c, e.data.length < 2 ^ 32) (h : Spells m a c.image)
    (hkept : ∀ r ∈ c.recordsFrom a, P r → AgreeOn r.address r.stop m d.readWord) :
    List.Forall₂ (fun r e => P r → d.Carries r e) (c.recordsFrom a) c := by
  obtain ⟨hlength, hspelled⟩ := List.forall₂_iff_zip.1 (forall₂_recordsFrom h)
  refine List.forall₂_iff_zip.2 ⟨hlength, fun {r e} hmem hP => ?_⟩
  obtain ⟨hr, he⟩ := List.of_mem_zip hmem
  obtain ⟨heq, hspells⟩ := hspelled hmem
  obtain ⟨-, -, hstop⟩ := hl.of_mem hr
  have hspan : r.stop = r.address + 4 * (valueImage e.id e.data).length := by
    rw [four_mul_length_valueImage, heq, Record.stop, span_recordOf _ _ (hlen e he)]
  refine carries_of_spells heq (hl.address_mod ha hr) (by omega) (hlen e he) (hspells.congr ?_)
  rw [← hspan]
  exact hkept r hr hP

/-! ### Removed records -/

/-- The record as it is once these have been removed. -/
def Record.without (removed : List Record) (r : Record) : Record :=
  if r ∈ removed then r.removed else r

@[simp] lemma Record.without_nil (r : Record) : r.without [] = r := rfl

/-- Removing a record again changes what removing it once does. -/
lemma cleared_without (m : Memory) (removed : List Record) (r : Record) :
    cleared m (r.without removed) = cleared m r := by
  unfold Record.without
  split <;> rfl

/-- Different linked records stand apart. -/
lemma Linked.apart {r' : Record} (h : Linked m stop a rs z) (hr : r ∈ rs) (hr' : r' ∈ rs)
    (hne : r ≠ r') : r.stop ≤ r'.address ∨ r'.stop ≤ r.address := by
  obtain ⟨pre, post, rfl⟩ := List.append_of_mem hr'
  exact h.separated r (by simpa [hne] using hr)

/-- One more record is removed from linked ones. -/
lemma Linked.cleared_cons {done : List Record} (h : Linked m stop a rs z)
    (hdone : Linked m' stop a (rs.map (Record.without done)) z) (hr : r ∈ rs) :
    Linked (FlashStore.cleared m' r) stop a (rs.map (Record.without (r :: done))) z := by
  obtain ⟨pre, post, rfl⟩ := List.append_of_mem hr
  have hapart : ∀ x ∈ pre ++ post, x.without (r :: done) = x.without done := by
    intro x hx
    have hside := h.separated x hx
    have hlt := r.address_lt_stop
    have hlt' := x.address_lt_stop
    have hne : x ≠ r := by
      rintro rfl
      omega
    simp [Record.without, hne]
  have hself : r.without (r :: done) = (r.without done).removed := by
    rw [Record.without, if_pos List.mem_cons_self]
    unfold Record.without
    split <;> rfl
  rw [List.map_append, List.map_cons] at hdone ⊢
  have hat := (hdone.of_mem (List.mem_append_right _ List.mem_cons_self)).1
  have hnext := hdone.cleared (.of_recordAt hat)
  rw [cleared_without] at hnext
  rw [hself, List.map_congr_left fun x hx => hapart x (List.mem_append_left _ hx),
    List.map_congr_left fun x hx => hapart x (List.mem_append_right _ hx)]
  exact hnext

/-- Records are removed one after another, those that have been removed before included. -/
lemma runs_removeRecords {δ : Type} [FlashDevice δ] [LawfulFlash δ] {removed done : List Record}
    {d : δ} (hd : Unlocked d) (ha : a % 4 = 0) (hz : z ≤ (FlashDevice.capacity d).toNat)
    (h : Linked m stop a rs z)
    (hdone : Linked (FlashDevice.readWord d) stop a (rs.map (Record.without done)) z)
    (hm : ∀ r ∈ removed, r ∈ rs) :
    Runs (removed.forM removeRecord) d
      (fun _ _ m' => Linked m' stop a (rs.map (Record.without (removed.reverse ++ done))) z ∧
        ∀ i, (∀ r ∈ removed, i < r.address ∨ r.stop ≤ i) → m' i = FlashDevice.readWord d i)
      (fun _ _ => True) := by
  induction removed generalizing d done with
  | nil => exact Runs.pure hd ⟨hdone, fun _ _ => rfl⟩
  | cons r removed ih =>
    have hr : r ∈ rs := hm r List.mem_cons_self
    obtain ⟨-, -, hstop⟩ := h.of_mem hr
    have hmod := h.address_mod ha hr
    refine Runs.bind ((runs_removeRecord hd hmod (by omega)).mono (fun _ _ _ h => h)
      fun _ _ _ => trivial) ?_
    rintro _ d' k hd' hk ⟨-, hcleared⟩
    have hcap := capacity_of_reaches hk
    have hnext : Linked (FlashDevice.readWord d') stop a
        (rs.map (Record.without (r :: done))) z := by
      rw [hcleared]
      exact h.cleared_cons hdone hr
    refine (ih hd' (by rw [hcap]; exact hz) hnext fun r' hr' =>
      hm r' (List.mem_cons_of_mem _ hr')).mono ?_ fun _ _ _ => trivial
    rintro _ j m' ⟨hlinked, hkept⟩
    refine ⟨?_, fun i hi => ?_⟩
    · rw [List.reverse_cons, List.append_assoc]
      exact hlinked
    · rw [hkept i fun r' hr' => hi r' (List.mem_cons_of_mem _ hr'), hcleared]
      exact agreeOutside_cleared _ r i (hi r List.mem_cons_self)

namespace NorFlash

/-- Records are removed from a chain in any order, and the others are still there. -/
lemma exists_run_removeRecords {d : NorFlash size page} {removed : List Record}
    (hunlocked : d.locked = false) (hpower : d.budget = none) (ha : a % 4 = 0)
    (hz : z ≤ (FlashDevice.capacity d).toNat) (h : Linked d.readWord stop a rs z)
    (hrest : ∀ i, z ≤ i → i < stop → i % 4 = 0 → d.readWord i = Word.erased)
    (hremoved : ∀ r ∈ removed, r ∈ rs) :
    ∃ d' : NorFlash size page, (removed.forM removeRecord).run d = .ok () d' ∧
      Chain.scan d'.readWord stop a = ⟨rs.map (Record.without removed), endAt stop z⟩ ∧
      ∀ r ∈ rs, r ∉ removed → AgreeOn r.address r.stop d.readWord d'.readWord := by
  have hnone : Linked d.readWord stop a (rs.map (Record.without [])) z := by
    rwa [List.map_congr_left fun r _ => Record.without_nil r, List.map_id']
  obtain ⟨_, d', -, hrun, -, -, hl, hkept⟩ :=
    exists_run_of_mirrors (.forM relays_repage.removeRecord removed) hpower
      (runs_removeRecords (d := (repage d : NorFlash size 4)) hunlocked ha hz h hnone hremoved)
  have hset : ∀ r : Record, r.without (removed.reverse ++ []) = r.without removed := by
    intro r
    simp [Record.without]
  rw [List.map_congr_left fun r _ => hset r] at hl
  -- behind the last record there is none to remove
  have hrest' : ∀ i, z ≤ i → i < stop → i % 4 = 0 → d'.readWord i = Word.erased := by
    intro i h₁ h₂ h₃
    refine (hkept i fun r hr => Or.inr ?_).trans (hrest i h₁ h₂ h₃)
    exact Nat.le_trans (h.of_mem (hremoved r hr)).2.2 h₁
  refine ⟨d', hrun, hl.scan_eq (recordAt_endAt (hl.end_mod ha) hrest'), ?_⟩
  intro r hr hother i h₁ h₂
  refine hkept i fun r' hr' => ?_
  have hne : r ≠ r' := fun heq => hother (heq ▸ hr')
  have hside := h.apart hr (hremoved r' hr') hne
  omega

/-! ### Chains read back -/

/-- Entries written one after another to an erased block while power stays on, at any word aligned
place on the device and whatever the size of its erase pages, are read back. Every write succeeds,
and the last one ends behind the spans of all. The chain is then a record for each entry, in order,
each carrying its entry, and ends where the last write did; from there on the block is still erased.

Removing any of the records after that, in any order, succeeds and leaves every record in its place
and at its length, and the others carrying their entries. -/
theorem read_back_as_written {d : NorFlash size page} (block : Block) (c : Contents)
    (hunlocked : d.locked = false) (hpower : d.budget = none) (hbase : block.base % 4 = 0)
    (hsize : block.size % 4 = 0) (hheader : firstRecordOffset ≤ block.size)
    (hstop : block.stop ≤ (FlashDevice.capacity d).toNat)
    (herased : ∀ i, block.base ≤ i → i < block.stop → d.byte i = 0xFF) (hc : c.Writable)
    (hfit : c.span ≤ block.capacity) :
    let records := c.recordsFrom block.first
    let z := block.first + c.span
    ∃ d', (writeEntries c block.first).run d = .ok z d' ∧
      Chain.ofBlock d'.readWord block = ⟨records, endAt block.stop z⟩ ∧
      List.Forall₂ d'.Carries records c ∧
      d'.bytesFrom z (block.stop - z) = List.replicate (block.stop - z) 0xFF ∧
      ∀ removed, (∀ r ∈ removed, r ∈ records) →
        ∃ d'', (removed.forM removeRecord).run d' = .ok () d'' ∧
          Chain.ofBlock d''.readWord block =
            ⟨records.map (Record.without removed), endAt block.stop z⟩ ∧
          List.Forall₂ (fun r e => r ∉ removed → d''.Carries r e) records c := by
  intro records z
  have hfirst := block.first_eq
  have hend := block.stop_eq
  have hcapacity : block.capacity = block.size - 8 := rfl
  have hroom : 8 ≤ block.size := hheader
  have hmod : block.first % 4 = 0 := by omega
  have hspan := c.four_mul_length_image
  have hcap := d.toNat_capacity_le
  have hlt : block.stop < 2 ^ 32 := Nat.lt_of_le_of_lt hstop (UInt32.toNat_lt _)
  have hblank : ∀ i, block.base ≤ i → i < block.stop → i % 4 = 0 →
      d.readWord i = Word.erased := fun i h₁ h₂ h₃ =>
    readWord_of_bytes_erased fun k hk => herased (i + k) (by omega) (by omega)
  -- The writes run as they do on a device of four-byte pages, which is lawful.
  obtain ⟨_, d', -, hrun, hunlocked', hpower', rfl, hword⟩ :=
    exists_run_of_mirrors (relays_repage.writeEntries c block.first) hpower
      (runs_writeEntries (d := (repage d : NorFlash size 4)) c hunlocked hmod
        (Nat.le_trans (by omega) hstop) fun i h₁ h₂ h₃ => hblank i (by omega) (by omega) h₃)
  have hspells : Spells d'.readWord block.first c.image := by
    rw [hword]
    exact spells_writeWords _ _ _
  have hrest : ∀ i, z ≤ i → i < block.stop → i % 4 = 0 → d'.readWord i = Word.erased := by
    intro i h₁ h₂ h₃
    rw [hword, writeWords_of_le _ (by omega)]
    exact hblank i (by omega) h₂ h₃
  -- The words written link up to the records, and what follows is still erased.
  have hl : Linked d'.readWord block.stop block.first records z :=
    linked_recordsFrom hc (by omega) hlt hspells
  have hlen : ∀ e ∈ c, e.data.length < 2 ^ 32 := fun e he => by
    have := length_lt_of_fit (recordSpan_lt_of_span (a := block.first) (by omega) hlt he)
    omega
  have hmodEnd := hl.end_mod hmod
  refine ⟨d', hrun, hl.scan_eq (recordAt_endAt hmodEnd hrest), ?_, ?_, ?_⟩
  · have hcarries := forall₂_carries (d := d') (P := fun _ => True) hl hmod (by omega) hlen hspells
      fun _ _ _ _ _ _ => rfl
    exact hcarries.imp fun _ _ h => h trivial
  · refine d'.bytesFrom_of_erased hmodEnd (by omega) (by omega) fun i h₁ h₂ => ?_
    exact hrest i h₁ (by omega)
  · intro removed hremoved
    obtain ⟨d'', hrun', hchain, hothers⟩ := exists_run_removeRecords hunlocked' hpower' hmod
      (Nat.le_trans (by omega) hstop) hl hrest hremoved
    exact ⟨d'', hrun', hchain, forall₂_carries hl hmod (by omega) hlen hspells hothers⟩

/-- Two values of one id in a block behind the first word of a device with pages of ten bytes. One
is all erased bytes, the other ends in the middle of a word. The block is full then. The first is
removed, which leaves the second. -/
theorem read_back_as_written_of_two_values :
    let block : Block := ⟨4, 36⟩
    let c : Contents := [⟨7, [0xFF, 0xFF, 0xFF, 0xFF]⟩, ⟨7, [1, 2, 3, 4, 5]⟩]
    ∃ d' d'' : NorFlash 40 10, (writeEntries c 12).run blank.unlock = .ok 40 d' ∧
      Chain.ofBlock d'.readWord block = ⟨[⟨12, 7, 4⟩, ⟨24, 7, 5⟩], .full⟩ ∧
      ([⟨12, 7, 4⟩].forM removeRecord).run d' = .ok () d'' ∧
      Chain.ofBlock d''.readWord block = ⟨[⟨12, 0, 4⟩, ⟨24, 7, 5⟩], .full⟩ ∧
      Addressable.slice d'' 32 5 = some [1, 2, 3, 4, 5] := by
  intro block c
  have hspan : block.first + c.span = 40 := by decide
  have hrecords : c.recordsFrom block.first = [⟨12, 7, 4⟩, ⟨24, 7, 5⟩] := by decide
  have hc : c.Writable := by
    unfold Contents.Writable
    decide
  have herased : ∀ i, block.base ≤ i → i < block.stop →
      (blank.unlock : NorFlash 40 10).byte i = 0xFF := by
    intro i _ _
    exact (byte_blank i : (blank : NorFlash 40 10).byte i = 0xFF)
  have h := read_back_as_written (d := (blank.unlock : NorFlash 40 10)) block c rfl rfl
    (by decide) (by decide) (by decide) (by decide) herased hc (by decide)
  rw [hspan, hrecords] at h
  obtain ⟨d', hrun, hchain, -, -, hremove⟩ := h
  obtain ⟨d'', hrun', hchain', hothers⟩ := hremove [⟨12, 7, 4⟩] (by simp)
  have hsecond := (List.forall₂_cons.1 (List.forall₂_cons.1 hothers).2).1
  exact ⟨d', d'', hrun, hchain, hrun', hchain', (hsecond (by decide)).slice_eq⟩

end NorFlash

end FlashStore
