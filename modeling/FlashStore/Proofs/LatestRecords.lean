import FlashStore.Proofs.Simulation

/-!
# The latest records

What a recovery makes of a flash image, said of the image: of the blocks that carry the magic word
the one of the higher counter is walked up to where no record stands, and of the records of one id
the last one counts. `Placement.persisted` is that, read off the words; the bytes of a value are
those that the image has behind the record.
-/

namespace FlashStore

open LawfulFlash Store

variable {m : Memory} {p : Placement} {rs : List Record} {r : Record}

/-! ### Last copies -/

/-- The records with an id that no record behind them carries as well. -/
def lastCopies (rs : List Record) : List Record :=
  rs.filter fun r => r.id ≠ removedId ∧ ∀ r' ∈ rs, r'.id = r.id → r'.address ≤ r.address

/-- Records in the order of their addresses survive if they are last copies. -/
lemma survivors_eq_lastCopies (h : rs.Pairwise fun r r' => r.address < r'.address) :
    survivors rs = lastCopies rs := by
  induction rs with
  | nil => rfl
  | cons r rs ih =>
    obtain ⟨hr, hrs⟩ := List.pairwise_cons.1 h
    -- The first record is behind none of the others, so it takes none of them out.
    have hrest : rs.filter (fun x => x.id ≠ removedId ∧
        ∀ r' ∈ r :: rs, r'.id = x.id → r'.address ≤ x.address) = lastCopies rs := by
      refine List.filter_congr fun x hx => ?_
      have hle := Nat.le_of_lt (hr x hx)
      simp [hle]
    have hfirst : (r.isLive && !isSuperseded r rs) = true ↔
        r.id ≠ removedId ∧ ∀ r' ∈ r :: rs, r'.id = r.id → r'.address ≤ r.address := by
      rw [Bool.and_eq_true, Record.isLive_iff, Bool.not_eq_true', isSuperseded, List.any_eq_false]
      refine and_congr_right fun _ => ?_
      constructor
      · intro hnone r' hr' hid
        rcases List.mem_cons.1 hr' with rfl | hr'
        · exact Nat.le_refl _
        · exact absurd (beq_iff_eq.2 hid) (hnone r' hr')
      · intro hlast r' hr' hid
        have hle := hlast r' (List.mem_cons_of_mem _ hr') (beq_iff_eq.1 hid)
        exact absurd (hr r' hr') (Nat.not_lt.2 hle)
    rw [survivors, lastCopies, List.filter_cons, hrest, ih hrs]
    simp only [hfirst, decide_eq_true_eq]

lemma Linked.address_lt {stop a z : Nat} (h : Linked m stop a rs z) :
    rs.Pairwise fun r r' => r.address < r'.address := by
  refine h.pairwise.imp ?_
  intro r r' hle
  exact Nat.lt_of_lt_of_le r.address_lt_stop hle

/-! ### The block in use -/

namespace Placement

/-- The second block is in use if it carries the magic word and the first one does not or has a
smaller counter. -/
def usedSide (p : Placement) (m : Memory) : Side :=
  if m (p.block .b).magicAddress = magic ∧ (m (p.block .a).magicAddress ≠ magic ∨
      m (p.block .a).counterAddress < m (p.block .b).counterAddress) then .b
  else .a

lemma newest_of_unused (h : ∀ side, m (p.block side).magicAddress ≠ magic) :
    p.newest m = none :=
  newest_eq_none_iff.2 fun side => if_neg (h side)

lemma newest_of_used (h : ∃ side, m (p.block side).magicAddress = magic) :
    ∃ g, p.newest m = some (p.usedSide m, g) := by
  by_cases ha : m (p.block .a).magicAddress = magic
  · by_cases hb : m (p.block .b).magicAddress = magic
    · by_cases hlt : m (p.block .a).counterAddress < m (p.block .b).counterAddress
      · simp [newest, Store.newest, header, usedSide, ha, hb, hlt]
      · simp [newest, Store.newest, header, usedSide, ha, hb, hlt]
    · simp [newest, Store.newest, header, usedSide, ha, hb]
  · have hb : m (p.block .b).magicAddress = magic := by
      obtain ⟨side, hside⟩ := h
      cases side with
      | a => exact absurd hside ha
      | b => exact hside
    simp [newest, Store.newest, header, usedSide, ha, hb]

/-- What is persisted are the last copies in the block in use. -/
lemma persisted_of_used (h : ∃ side, m (p.block side).magicAddress = magic) :
    p.persisted m = entries m (lastCopies (recordsOf m (p.block (p.usedSide m)))) := by
  obtain ⟨g, hn⟩ := newest_of_used h
  obtain ⟨z, hl, -⟩ := linked_recordsOf m (p.block (p.usedSide m))
  rw [persisted_of_newest hn, retained, survivors_eq_lastCopies hl.address_lt]

end Placement

/-! ### Recovery of an image -/

namespace NorFlash

variable {size page : Nat}

/-- The words of a payload hold the bytes there are behind its record. -/
lemma payload_eq_bytesFrom (d : NorFlash size page) (ha : r.address % 4 = 0)
    (hs : r.stop ≤ (FlashDevice.capacity d).toNat) :
    r.payload d.readWord = d.bytesFrom r.payloadAddress r.length.toNat := by
  have hcap := d.toNat_capacity_le
  have hbegin := r.address_add_eight
  have hend := r.payload_stop
  rw [r.wordCount_eq] at hend
  have hslice := LawfulAddressable.slice_eq d (a := r.payloadAddress) (n := r.length.toNat)
    (by omega) (by omega)
  have hbytes : Addressable.slice d r.payloadAddress r.length.toNat =
      some (d.bytesFrom r.payloadAddress r.length.toNat) := if_pos (by omega)
  rw [Record.payload, Record.words, r.wordCount_eq]
  exact Option.some.inj (hslice.symm.trans hbytes)

/-- The entries of records in a block of an image. -/
lemma entries_eq_bytesFrom (d : NorFlash size page) {block : Block} (hfirst : block.first % 4 = 0)
    (hstop : block.stop ≤ (FlashDevice.capacity d).toNat)
    (hrs : ∀ r ∈ rs, r ∈ recordsOf d.readWord block) :
    entries d.readWord rs = rs.map fun r => ⟨r.id, d.bytesFrom r.payloadAddress r.length.toNat⟩ := by
  obtain ⟨z, hl, -⟩ := linked_recordsOf d.readWord block
  refine List.map_congr_left fun r hr => ?_
  have haddr := hl.address_mod hfirst (hrs r hr)
  have hle := (address_of_mem_recordsOf (hrs r hr)).2
  rw [d.payload_eq_bytesFrom haddr (Nat.le_trans hle hstop)]

end NorFlash

namespace Session

variable {size page : Nat} [NorFlash.WordPages page]

/-- A store that is mounted on an image without a block in use starts empty. -/
lemma mount_of_unused {d : NorFlash size page} (hb : d.budget = none)
    (h : p.accepts (UInt32.ofNat page) (UInt32.ofNat size) = true)
    (hunused : ∀ side, d.readWord (p.block side).magicAddress ≠ magic) :
    ∃ s, ((start d p).step (.opening .mount none)).2.store? = some s ∧
      s.current = .a ∧ s.generation = 0 := by
  have hhow : Opening.mount ≠ .attach := nofun
  obtain ⟨s, ha⟩ := attach_of_accepts (d := d) h
  obtain ⟨hsound, rfl⟩ := sound_of_attach ha
  obtain ⟨rfl, -, hs, -⟩ := hsound s rfl
  obtain ⟨_, s', hrun, -, -, -, -, hcurrent, hgeneration⟩ :=
    answer_of_healthy (healthy_of_budget hb)
      (acts_recover_of_none hs (Placement.newest_of_unused hunused)) (fun _ _ _ he => he.1)
      fun _ => .done
  rw [step_opening_of_attach (x := start s.device s.placement) hhow ha, step_call rfl,
    StoreCommand.run, hrun]
  exact ⟨s', rfl, hcurrent, hgeneration⟩

/-- On any image, in pages of whole words, a store is mounted. It is empty, on the first block and
at generation 0, if neither block carries the magic word. Otherwise it holds the last copy of every
id in the block in use, in the order of these copies and with their bytes unchanged. -/
theorem mounts_latest_records (d : NorFlash size page) (p : Placement) (hb : d.budget = none)
    (h : p.accepts (UInt32.ofNat page) (UInt32.ofNat size) = true) :
    let r := (start d p).step (.opening .mount none)
    let block := p.block (p.usedSide d.readWord)
    r.1 = .done ∧ ∃ s, r.2.store? = some s ∧ s.inService = true ∧
      ((∀ side, d.readWord (p.block side).magicAddress ≠ magic) →
        s.contents = [] ∧ s.current = .a ∧ s.generation = 0) ∧
      ((∃ side, d.readWord (p.block side).magicAddress = magic) →
        s.contents = (lastCopies (Chain.ofBlock d.readWord block).records).map
          fun r => ⟨r.id, d.bytesFrom r.payloadAddress r.length.toNat⟩) := by
  intro r block
  have hfits : p.Fits (FlashDevice.pageSize (NorFlash size page)).toNat
      (FlashDevice.capacity d).toNat := Placement.fits_of_accepts h
  have hp : p.Regular := hfits.regular pageSize_mod
  have hhow : Opening.mount ≠ .attach := nofun
  obtain ⟨hdone, -, ⟨s, hs, hin, hcontents⟩, -⟩ := simulated_opening (x := start d p) hhow hb h
  change s.contents = p.persisted d.readWord at hcontents
  refine ⟨hdone, s, hs, hin, ?_, ?_⟩
  · intro hunused
    obtain ⟨s', hs', hcurrent, hgeneration⟩ := mount_of_unused hb h hunused
    obtain rfl := Option.some.inj (hs.symm.trans hs')
    rw [hcontents, Placement.persisted_of_none (Placement.newest_of_unused hunused)]
    exact ⟨rfl, hcurrent, hgeneration⟩
  · intro hused
    rw [hcontents, Placement.persisted_of_used hused]
    exact d.entries_eq_bytesFrom (hp.first_mod _) (hfits.stop_le _)
      fun r hr => List.filter_sublist.subset hr

/-- Of two copies the second one is held, and damage behind them does not matter. -/
theorem mounts_latest_records_of_two_copies :
    let d : NorFlash 80 20 := NorFlash.ofImage [0x74, 0x73, 0x61, 0x50, 9, 0, 0, 0,
      1, 0, 0, 0, 4, 0, 0, 0, 1, 2, 3, 4, 1, 0, 0, 0, 4, 0, 0, 0, 5, 6, 7, 8, 2, 0, 0, 0, 0, 0, 0, 0]
    let r := (start d ⟨0, 40, 40, 0⟩).step (.opening .mount none)
    r.1 = .done ∧ r.2.Holds [⟨1, [5, 6, 7, 8]⟩] := by
  intro d r
  have hused : ∃ side, d.readWord ((⟨0, 40, 40, 0⟩ : Placement).block side).magicAddress = magic :=
    ⟨.a, by decide +kernel⟩
  obtain ⟨hdone, s, hs, hin, -, hcontents⟩ :=
    mounts_latest_records d ⟨0, 40, 40, 0⟩ rfl (by decide)
  refine ⟨hdone, s, hs, hin, ?_⟩
  rw [hcontents hused]
  decide +kernel

end Session

end FlashStore
