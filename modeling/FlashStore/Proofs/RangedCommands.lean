import FlashStore.Proofs.Persisted
import FlashStore.Proofs.RangedStores
import FlashStore.Proofs.Simulation

/-!
# Commands in range

On blocks in range every operation of a store does in 32 bits what it does over exact numbers,
whatever the device makes of programs and erases and whatever flash holds on the way. The only fact
that an operation hands on is the placement, which none of them changes.

An accepted block is out of range only if it ends at the last word of the 32-bit addresses. There a
walk may come to a header that does not fit them.
-/

namespace FlashStore

open Store

variable {δ α : Type} [FlashDevice δ] {p : Placement} {s : Store δ} {id : Word}
  {data : List UInt8}

/-! ### Headers -/

/-- The sums over the header of a block fit 32 bits if the block does. -/
structure Block.HeaderInRange (block : Block) : Prop where
  first_le : block.first ≤ block.stop
  stop_lt : block.stop < 0x100000000

lemma Block.InRange.header {block : Block} (hb : block.InRange) : block.HeaderInRange :=
  ⟨hb.first_le, hb.stop_lt⟩

namespace Block.HeaderInRange

variable {block : Block} (hb : block.HeaderInRange)
include hb

lemma magicAddress?_eq : block.magicAddress? = some block.magicAddress := by
  have hfirst := hb.first_le
  have hstop := hb.stop_lt
  rw [Block.first_eq] at hfirst
  exact ranged_of_lt (by simp only [magicOffset]; omega)

lemma counterAddress?_eq : block.counterAddress? = some block.counterAddress := by
  have hfirst := hb.first_le
  have hstop := hb.stop_lt
  rw [Block.first_eq] at hfirst
  exact ranged_of_lt (by simp only [counterOffset]; omega)

lemma first?_eq : block.first? = some block.first :=
  ranged_of_lt (Nat.lt_of_le_of_lt hb.first_le hb.stop_lt)

end Block.HeaderInRange

lemma Store.readHeader?_eq (side : Side) (hb : (s.placement.block side).HeaderInRange) :
    s.readHeader? side = some (s.header? side) := by
  rw [Store.readHeader?, hb.magicAddress?_eq, Store.header?]
  simp only [Option.bind_eq_bind, Option.bind_some]
  split
  · rw [hb.counterAddress?_eq]
    rfl
  · rfl

/-- Records are copied to a block in range that has room for them. -/
lemma agreesOn_fill {new : Block} (hn : new.InRange) {rs : List Record} {g : Word}
    (hrs : ∀ r ∈ rs, r.stop < 0x100000000) (hroom : new.first + Record.totalSpan rs ≤ new.stop)
    (d : δ) : AgreesOn
      (do
        let cursor ← copyRecords? rs new.first
        .lift <| programVerified (← new.counterAddress?) g
        .lift <| programVerified (← new.magicAddress?) magic
        return cursor)
      (do
        let cursor ← copyRecords rs new.first
        programVerified new.counterAddress g
        programVerified new.magicAddress magic
        return cursor) d := by
  have hstop := hn.stop_lt
  refine (agreesOn_copyRecords hrs (by omega) d).bind fun cursor d₁ _ _ => ?_
  refine .sum_bind hn.header.counterAddress?_eq <| (agreesOn_lift _ d₁).bind fun _ d₂ _ _ => ?_
  refine .sum_bind hn.header.magicAddress?_eq <| (agreesOn_lift _ d₂).bind fun _ d₃ _ _ => ?_
  exact agreesOn_pure cursor d₃

/-- The copies end behind their spans. -/
lemma ensures_fill {new : Block} {rs : List Record} {g : Word} (d : δ) : Ensures
    (do
      let cursor ← copyRecords rs new.first
      programVerified new.counterAddress g
      programVerified new.magicAddress magic
      return cursor) d (fun cursor _ => cursor = new.first + Record.totalSpan rs)
    (fun _ _ => True) := by
  refine ((Ensures.self _ _).mono (fun _ _ h => eq_of_copyRecords h) fun _ _ _ => trivial).bind ?_
  rintro _ d₁ rfl
  have hany (x : ProgramM δ Unit) (d : δ) : Ensures x d (fun _ _ => True) (fun _ _ => True) :=
    (Ensures.self x d).mono (fun _ _ _ => trivial) fun _ _ _ => trivial
  exact (hany _ d₁).bind fun _ d₂ _ => (hany _ d₂).bind fun _ _ _ => .pure rfl

section Operations

variable (hp : p.InRange) (hs : s.placement = p)
include hp hs

/-! ### Compaction -/

lemma agreesAt_moveToSpare : AgreesAt p moveToSpare? moveToSpare s := by
  have hb : s.block.InRange := inRange_block hp hs
  have hn : s.spare.InRange := by
    rw [Store.spare, hs]
    exact hp _
  refine .get_bind <| .get_bind ?_
  refine (AgreesAt.onDevice hs (agreesOn_wipeBlock hn.stop_lt _)).bind fun _ s₁ _ hs₁ => ?_
  have hb₁ : s₁.block.InRange := inRange_block hp hs₁
  -- The survivors fit, so no address of a copy leaves the spare block.
  have hroom : s.spare.first + Record.totalSpan (survivors s₁.chain.records) ≤ s.spare.stop := by
    have hle : Record.totalSpan (survivors s₁.chain.records) ≤ s₁.block.size - 8 :=
      Chain.totalSpan_survivors_le hb₁
    have hsize : s₁.block.size = s.spare.size := by
      rw [Store.block, Store.spare, hs, hs₁]
      rfl
    have hfirst := hn.first_le
    rw [Block.first_eq, Block.stop_eq] at hfirst ⊢
    omega
  have hrecords : ∀ r ∈ survivors s₁.chain.records, r.stop < 0x100000000 :=
    fun r hr => Chain.stop_lt_of_mem hb₁ ((survivors_sublist _).subset hr)
  refine .get_bind <| .of_get_bind <| .sum_bind hn.header.first?_eq <|
    .sum_bind (Chain.survivors?_eq hb₁) ?_
  refine (AgreesAt.onDevice hs₁ (agreesOn_fill hn hrecords hroom _)).bind
    fun cursor s₂ hrun hs₂ => ?_
  have hcursor : cursor = s.spare.first + Record.totalSpan (survivors s₁.chain.records) :=
    (Ensures.onDevice (ensures_fill _) : Ensures (onDevice _) s₁
      (fun cursor _ => cursor = _) fun _ _ => True).of_ok hrun
  refine .sum_bind hb.header.first?_eq <| .sum_bind hn.header.first?_eq <|
    .sum_bind (difference_of_le (by omega)) ?_
  refine (Agrees.modify hs₂).bind fun _ s₃ _ hs₃ => ?_
  exact AgreesAt.onDevice hs₃ (agreesOn_wipeBlock hb.stop_lt _)

lemma agreesAt_compactNow : AgreesAt p compactNow? compactNow s :=
  .withUnlocked (agreesAt_moveToSpare hp hs)

lemma agreesAt_compact : AgreesAt p compact? compact s :=
  (agreesAt_query hs).bind fun _ _ _ hs₁ =>
    AgreesAt.suspendOnFailure (agreesAt_compactNow hp hs₁)

lemma agreesAt_compactIfLow : AgreesAt p compactIfLow? compactIfLow s := by
  refine (agreesAt_query hs).bind fun _ s₁ _ hs₁ => ?_
  have hb₁ : s₁.block.InRange := inRange_block hp hs₁
  refine .get_bind <| .of_get_bind <| .sum_bind (free?_eq hb₁) ?_
  refine .ite (fun _ => .pure hs₁) fun _ => ?_
  refine (AgreesAt.suspendOnFailure (.query hs₁ (reclaimable?_eq hb₁))).bind fun _ s₂ _ hs₂ => ?_
  refine .ite (fun _ => .pure hs₂) fun _ => ?_
  exact (AgreesAt.suspendOnFailure (agreesAt_compactNow hp hs₂)).bind fun _ _ _ hs₃ => .pure hs₃

/-! ### Starting -/

lemma agreesAt_format : AgreesAt p format? format s := by
  refine (Agrees.modify hs).bind fun _ s₁ _ hs₁ => .get_bind <| .get_bind ?_
  have ha : (s₁.placement.block .a).InRange := hs₁ ▸ hp .a
  have hb : (s₁.placement.block .b).InRange := hs₁ ▸ hp .b
  refine (AgreesAt.withUnlocked (.onDevice hs₁ ?_)).bind fun _ s₂ _ hs₂ => ?_
  · refine (agreesOn_wipeBlock ha.stop_lt _).bind fun _ d₁ _ _ => ?_
    refine (agreesOn_wipeBlock hb.stop_lt d₁).bind fun _ d₂ _ _ => ?_
    refine .sum_bind ha.header.counterAddress?_eq <| (agreesOn_lift _ d₂).bind fun _ d₃ _ _ => ?_
    exact .sum_bind ha.header.magicAddress?_eq (agreesOn_lift _ d₃)
  · exact .sum_bind ha.header.first?_eq (.modify hs₂)

/-- A block is made current in 32 bits as it is over exact numbers. -/
lemma Store.resume?_eq (side : Side) (g : Word) :
    resume? side g s = some (.ok (s.resume side g).needsRepair (s.resume side g)) := by
  have hb : (s.placement.block side).InRange := hs ▸ hp side
  have hend : Chain.findEnd? s.word (s.placement.block side) = _ := Chain.findEnd?_eq hb
  have hstop := Block.stop?_of_lt hb.stop_lt
  have hresume : s.resume side g = { s with
      current := side
      generation := g
      cursor := (Chain.ofBlock s.word (s.placement.block side)).freeAddress
        (s.placement.block side) } := rfl
  have hchain : (s.resume side g).chain = Chain.ofBlock s.word (s.placement.block side) := rfl
  rw [needsRepair, hchain, hresume]
  refine (CheckedM.bind_of_ok rfl).trans <| (CheckedM.bind_of_ok rfl).trans ?_
  refine (CheckedM.sum_bind hend).trans ?_
  obtain ⟨records, stop⟩ := Chain.ofBlock s.word (s.placement.block side)
  cases stop with
  | vacant a => exact (CheckedM.bind_of_ok rfl).trans (CheckedM.sum_bind hstop)
  | full => exact CheckedM.sum_bind hstop
  | broken a => exact CheckedM.sum_bind hstop

lemma agreesAt_removeSuperseded : AgreesAt p removeSuperseded? removeSuperseded s := by
  have hb : s.block.InRange := inRange_block hp hs
  refine .of_get_bind <| AgreesAt.query_return_bind hs
    ((Chain.superseded?_eq hb).trans (congrArg some (Chain.outcome_eq _ _))) ?_
  refine .forM hs fun r hr s₁ hs₁ => ?_
  have hlt := Chain.stop_lt_of_mem hb ((superseded_sublist _).subset hr)
  exact AgreesAt.withUnlocked (AgreesAt.onDevice hs₁ (agreesOn_removeRecord hlt _))

lemma agreesAt_recover : AgreesAt p recover? recover s := by
  refine (Agrees.modify hs).bind fun _ s₁ _ hs₁ => .get_bind ?_
  have hheader (side : Side) : s₁.readHeader? side = some (s₁.header? side) :=
    readHeader?_eq side (hs₁ ▸ (hp side).header)
  refine .sum_bind (hheader .a) <| .sum_bind (hheader .b) ?_
  unfold newest?
  cases hnewest : newest (s₁.header? .a) (s₁.header? .b) with
  | none => exact agreesAt_format hp hs₁
  | some found =>
    obtain ⟨side, g⟩ := found
    have hg : s₁.header? side = some g :=
      Placement.header_of_newest (p := s₁.placement) (m := s₁.word) hnewest
    refine .sum_bind (hheader side) ?_
    rw [hg, Option.getD_some]
    have hsettle {s₂ : Store δ} (hs₂ : s₂.placement = p) : AgreesAt p
        (do removeSuperseded?; modify fun s => { s with inService := true })
        (do removeSuperseded; modify fun s => { s with inService := true }) s₂ :=
      (agreesAt_removeSuperseded hp hs₂).bind fun _ _ _ hs₃ => .modify hs₃
    have hs₂ : (s₁.resume side g).placement = p := hs₁
    refine .ok_bind (resume?_eq hp hs₁ side g) rfl <| .of_get_bind <| .ite (fun _ => ?_) fun _ => ?_
    · exact (agreesAt_compactNow hp hs₂).bind fun _ _ _ hs₃ => hsettle hs₃
    · exact hsettle hs₂

/-! ### Writing and erasing -/

/-- A record is put where there is room for it. -/
lemma agreesAt_placeRecord (id : Word) (data : List UInt8)
    (hroom : recordSpan data.length ≤ s.free) :
    AgreesAt p (placeRecord? id data) (placeRecord id data) s := by
  have hb : s.block.InRange := inRange_block hp hs
  have hstop := hb.stop_lt
  have hpos := payloadOffset_le_recordSpan data.length
  rw [payloadOffset] at hpos
  rw [Store.free] at hroom
  refine AgreesAt.query_bind hs (Chain.find?_eq hb id) fun previous hfound => .get_bind ?_
  refine (AgreesAt.onDevice hs (agreesOn_writeRecord (by omega) _)).bind fun cursor s₁ _ hs₁ => ?_
  refine (Agrees.modify hs₁).bind fun _ s₂ _ hs₂ => ?_
  cases previous with
  | none => exact .pure hs₂
  | some r =>
    have hlt := Chain.stop_lt_of_mem hb (Chain.mem_records_of_find hfound)
    exact AgreesAt.onDevice hs₂ (agreesOn_removeRecord hlt _)

lemma agreesAt_append (id : Word) (data : List UInt8) :
    AgreesAt p (append? id data (recordSpan data.length)) (append id data) s := by
  have hfree {s₁ : Store δ} (hs₁ : s₁.placement = p) : s₁.free? = some s₁.free :=
    free?_eq (inRange_block hp hs₁)
  refine .get_bind <| .sum_bind (hfree hs) <| .ite (fun _ => ?_) fun hroom => ?_
  · refine (agreesAt_compactNow hp hs).bind fun _ s₁ _ hs₁ => ?_
    refine .get_bind <| .sum_bind (hfree hs₁) <| .ite (fun _ => .throw hs₁) fun hroom => ?_
    exact agreesAt_placeRecord hp hs₁ id data (Nat.not_lt.1 hroom)
  · exact agreesAt_placeRecord hp hs id data (Nat.not_lt.1 hroom)

lemma agreesAt_write (id : Word) (data : List UInt8) :
    AgreesAt p (write? id data) (write id data) s := by
  have hb : s.block.InRange := inRange_block hp hs
  refine AgreesAt.query_return_bind hs (checkWrite?_eq hb id data) ?_
  have hbegin : s.beginUnlocked.placement = p := hs
  refine (AgreesAt.suspendOnFailure (.withUnlocked (agreesAt_append hp hbegin id data))).bind
    fun _ s₁ _ hs₁ => ?_
  exact .tryCatch (.discard (agreesAt_compactIfLow hp hs₁)) fun _ _ hs₂ => .pure hs₂

lemma agreesAt_erase (id : Word) : AgreesAt p (erase? id) (erase id) s := by
  have hb : s.block.InRange := inRange_block hp hs
  refine AgreesAt.query_bind hs (find?_eq hb id) fun _ _ => ?_
  have hbegin : s.beginUnlocked.block.InRange := hb
  refine AgreesAt.suspendOnFailure (AgreesAt.withUnlocked (.get_bind ?_))
  refine .sum_bind (Chain.filter?_eq hbegin _) ?_
  refine Agrees.bind (.forM hs fun r hr s₁ hs₁ => ?_) fun _ s₁ _ hs₁ => ?_
  · have hlt := Chain.stop_lt_of_mem hbegin (List.mem_filter.1 hr).1
    exact AgreesAt.onDevice hs₁ (agreesOn_removeRecord hlt _)
  · unfold Store.chain
    obtain ⟨records, stop⟩ := Chain.ofBlock s.beginUnlocked.word s.beginUnlocked.block
    cases stop with
    | vacant a => exact .pure hs₁
    | full => exact .pure hs₁
    | broken a => exact .throw hs₁

end Operations

/-! ### Commands -/

omit [FlashDevice δ] in
lemma AgreesAt.answer_eq {y : CheckedM StoreError (Store δ) α} {x : StoreM δ α}
    (h : AgreesAt p y x s) (f : α → Answer) :
    CheckedM.answer y f s = some (StoreM.answer x f s) := by
  rw [CheckedM.answer, h.run_eq, StoreM.answer]
  cases x.run s <;> rfl

variable [Addressable δ]

lemma StoreCommand.run?_of_inRange (hp : s.placement.InRange) (command : StoreCommand) :
    command.run? s = some (command.run s) := by
  have hb : s.block.InRange := inRange_block hp rfl
  cases command with
  | recover => exact (agreesAt_recover hp rfl).answer_eq _
  | format => exact (agreesAt_format hp rfl).answer_eq _
  | compact => exact (agreesAt_compact hp rfl).answer_eq _
  | compactIfLow => exact (agreesAt_compactIfLow hp rfl).answer_eq _
  | write id data => exact (agreesAt_write hp rfl id data).answer_eq _
  | erase id => exact (agreesAt_erase hp rfl id).answer_eq _
  | read id => exact congrArg (Option.map _) (read?_eq hb id)
  | readInto id buffer => exact congrArg (Option.map _) (readInto?_eq hb id buffer)
  | contains id => exact congrArg (Option.map _) (contains?_eq hb id)
  | reclaimable => exact congrArg (Option.map _) (reclaimable?_eq hb)
  | list => exact congrArg (Option.map _) (list?_eq hb)

/-- Blocks of whole words are in range, except that one that ends at the last word of the 32-bit
addresses has a place where a header does not fit them. With room for a single record it has not. -/
lemma Placement.inRange_of_accepts {pageSize capacity : Word} (h4 : pageSize.toNat % 4 = 0)
    (h : p.accepts pageSize capacity = true)
    (hend : ∀ side, (p.block side).stop ≠ 0xFFFFFFFC ∨ p.blockSize = 20) : p.InRange := by
  intro side
  have hfits := fits_of_accepts h
  have hregular := hfits.regular h4
  have hle := hfits.stop_le side
  have hcapacity := capacity.toNat_lt
  have hbase := hregular.base_mod side
  have hsize := hregular.size_mod
  have hfirst := hregular.first_add_le side
  rw [Block.first_eq, Block.stop_eq, size_block] at hfirst
  rw [Block.stop_eq, size_block] at hle
  refine ⟨?_, ?_, fun {a} ha hlt => ?_⟩
  · rw [Block.first_eq, Block.stop_eq, size_block]
    omega
  · rw [Block.stop_eq, size_block]
    omega
  · rw [Block.IsPlace, Block.first_eq] at ha
    obtain hend | hend := hend side
    · rw [Block.stop_eq, size_block] at hend hlt
      omega
    · have h20 : p.blockSize.toNat = 20 := by
        rw [hend]
        rfl
      rw [Block.stop_eq, size_block] at hlt
      omega

/-! ### Blocks that end with the addresses -/

variable {word : Nat → Word} {block : Block} {a z : Nat} {rs : List Record} {side : Side} {g : Word}

/-- Where a header does not fit 32 bits a walk faults, unless it ends there. -/
lemma Walk.next?_of_overhang (hstop : block.stop < 0x100000000) (ha : a < block.stop)
    (hid : word a ≠ vacantId) (hover : 0x100000000 ≤ a + 8) :
    (startingAt block a).next? word = none := by
  have haddress : ranged (a + idOffset) = some a := ranged_of_lt (by simp only [idOffset]; omega)
  have hpay : ranged (a + payloadOffset) = none := ranged_of_le hover
  unfold next?
  rw [startingAt, if_neg Bool.false_ne_true, Block.stop?_of_lt hstop]
  simp only [Nat.not_le.2 ha, if_false, haddress, hid, hpay, Option.bind_eq_bind, Option.bind_some,
    Option.bind_none]

/-- A walk over the records before such a place faults there. -/
lemma Walk.loop?_of_overhang (hstop : block.stop < 0x100000000)
    (h : Linked word block.stop a rs z) (hz : z < block.stop) (hid : word z ≠ vacantId)
    (hover : 0x100000000 ≤ z + 8) :
    (startingAt block a).loop? word (fun _ _ => some (.yield ())) () = none := by
  induction rs generalizing a with
  | nil =>
    obtain rfl : a = z := h
    exact loop?_of_fault (next?_of_overhang hstop hz hid hover)
  | cons r rs ih =>
    obtain ⟨hr, hrest⟩ := h
    have hheader : a + 8 ≤ r.stop := by
      obtain ⟨rfl, -⟩ := recordAt_eq_ok_iff.1 hr
      exact Nat.add_le_add_left (payloadOffset_le_recordSpan _) a
    have hle := (recordAt_eq_ok_iff.1 hr).2.2.2.2
    rw [loop?_of_ok (by rw [next?_startingAt hstop fun _ => by omega, hr])]
    exact ih hrest

/-- A recovery faults if the chain of the block in use reaches such a place. -/
lemma StoreCommand.recover_run?_of_overhang
    (hheaders : ∀ side, (s.placement.block side).HeaderInRange)
    (hnewest : s.newest? = some (side, g))
    (h : Linked s.word (s.placement.block side).stop (s.placement.block side).first rs z)
    (hz : z < (s.placement.block side).stop) (hid : s.word z ≠ vacantId)
    (hover : 0x100000000 ≤ z + 8) : StoreCommand.recover.run? s = none := by
  obtain ⟨-, hstop⟩ := hheaders side
  have hread (side : Side) : s.readHeader? side = some (s.header? side) :=
    readHeader?_eq side (hheaders side)
  have hend : Chain.findEnd? s.word (s.placement.block side) = none := by
    rw [Chain.findEnd?, Walk.start?, (hheaders side).first?_eq, Option.map_some,
      Option.bind_eq_bind, Option.bind_some, Walk.loop?_of_overhang hstop h hz hid hover]
    rfl
  have hresume (s' : Store δ) (hp : s'.placement = s.placement) (hw : s'.word = s.word) :
      resume? side g s' = none := by
    refine (CheckedM.bind_of_ok rfl).trans <| (CheckedM.bind_of_ok rfl).trans ?_
    refine CheckedM.sum_bind_of_fault ?_
    show Chain.findEnd? s'.word (s'.placement.block side) = none
    rw [hp, hw, hend]
  have hrecover : (recover? : CheckedM StoreError (Store δ) Unit) s = none := by
    refine (CheckedM.bind_of_ok rfl).trans <| (CheckedM.bind_of_ok rfl).trans ?_
    refine (CheckedM.sum_bind (hread .a)).trans <| (CheckedM.sum_bind (hread .b)).trans ?_
    rw [show newest (s.header? .a) (s.header? .b) = some (side, g) from hnewest]
    refine (CheckedM.sum_bind (hread side)).trans ?_
    rw [show s.header? side = some g from Placement.header_of_newest (p := s.placement) hnewest]
    exact CheckedM.bind_of_fault (hresume _ rfl rfl)
  show (recover? s).map _ = none
  rw [hrecover]
  rfl

namespace NorFlash

variable {size page : Nat}

/-- Erased flash but for a block of one record, which leaves its last word, and that is cleared. -/
def crammed (block : Block) : NorFlash size page :=
  (((blank.put block.base magic.toBytes).put block.first (Word.toBytes 1)).put
    (block.first + 4) (Word.toBytes (UInt32.ofNat (block.size - 20)))).put
    (block.stop - 4) (Word.toBytes 0)

section

variable (page) (hbase : block.base % 4 = 0) (hmod : block.size % 4 = 0) (hmin : 24 ≤ block.size)
  (hstop : block.stop ≤ size)
include hbase hmod hmin hstop

lemma readWord_crammed (a : Nat) : (crammed block : NorFlash size page).readWord a =
    if a = block.base + block.size - 4 then 0
    else if a = block.base + 8 + 4 then UInt32.ofNat (block.size - 20)
    else if a = block.base + 8 then 1
    else if a = block.base then magic
    else Word.erased := by
  rw [Block.stop_eq] at hstop
  rw [crammed, Block.first_eq, Block.stop_eq, readWord_put_word _ _ (by omega) (by omega),
    readWord_put_word _ _ (by omega) (by omega), readWord_put_word _ _ (by omega) (by omega),
    readWord_put_word _ _ (by omega) (by omega)]
  simp only [Function.update_apply, readWord_blank]

lemma linked_crammed (hlt : block.size < 0x100000000) :
    Linked (crammed block : NorFlash size page).readWord block.stop block.first
      [⟨block.first, 1, UInt32.ofNat (block.size - 20)⟩] (block.stop - 4) := by
  have hread := readWord_crammed page hbase hmod hmin hstop
  have hnat : (UInt32.ofNat (block.size - 20)).toNat = block.size - 20 := by
    rw [UInt32.toNat_ofNat', Nat.mod_eq_of_lt (by omega)]
  have hend : Record.stop ⟨block.first, 1, UInt32.ofNat (block.size - 20)⟩ = block.stop - 4 := by
    rw [Block.first_eq, Block.stop_eq]
    simp only [Record.stop, Record.span, hnat, recordSpan, roundToWords, payloadOffset]
    omega
  have hvacant : (1 : Word) ≠ vacantId := by decide
  refine ⟨recordAt_eq_ok_iff.2 ⟨?_, hvacant, ?_, ?_, by omega⟩, hend⟩
  · have hid : (crammed block : NorFlash size page).readWord block.first = 1 := by
      rw [hread, Block.first_eq, if_neg (by omega), if_neg (by omega), if_pos rfl]
    have hlength : (crammed block : NorFlash size page).readWord (block.first + 4) =
        UInt32.ofNat (block.size - 20) := by
      rw [hread, Block.first_eq, if_neg (by omega), if_pos rfl]
    rw [hid, hlength]
  · intro h0
    have hzero := congrArg UInt32.toNat h0
    rw [hnat, UInt32.toNat_zero] at hzero
    omega
  · intro herased
    have hall : (UInt32.ofNat (block.size - 20)).toNat = 0xFFFFFFFF := congrArg UInt32.toNat herased
    omega

end

end NorFlash

/-- A block that ends at the last word of the 32-bit addresses and has room for more than one record
can hold what no recovery gets past. -/
lemma StoreCommand.recover_run?_of_crammed {pageSize capacity : Word} {size : Nat} (page : Nat)
    (h4 : pageSize.toNat % 4 = 0) (h : p.accepts pageSize capacity = true)
    (hcapacity : capacity.toNat = size) (hstop : (p.block side).stop = 0xFFFFFFFC)
    (hsize : p.blockSize ≠ 20) :
    StoreCommand.recover.run? (⟨NorFlash.crammed (p.block side), p, .a, 0, (p.block .a).first,
      false, 0⟩ : Store (NorFlash size page)) = none := by
  subst hcapacity
  have hfits := Placement.fits_of_accepts h
  have hregular := hfits.regular h4
  have hbase := hregular.base_mod side
  have hmod : (p.block side).size % 4 = 0 := hregular.size_mod
  have hroom := hregular.first_add_le side
  have hsum : (p.block side).base + (p.block side).size = 0xFFFFFFFC := hstop
  have hmin : 24 ≤ (p.block side).size := by
    have h20 : (p.block side).size ≠ 20 := fun h20 => hsize (UInt32.toNat_inj.1 h20)
    rw [Block.first_eq, Block.stop_eq] at hroom
    omega
  have hend := hfits.stop_le side
  have hread := NorFlash.readWord_crammed page hbase hmod hmin hend
  have hlinked := NorFlash.linked_crammed page hbase hmod hmin hend (by omega)
  -- From here on only the words of the device matter.
  generalize (NorFlash.crammed (p.block side) : NorFlash capacity.toNat page) = d
    at hread hlinked ⊢
  have hnewest : p.newest d.readWord = some (side, d.readWord ((p.block side).base + 4)) := by
    refine Placement.newest_of_header (header_eq_some ?_ rfl) (header_eq_none ?_)
    · rw [hread, if_neg (by omega), if_neg (by omega), if_neg (by omega), if_pos rfl]
    · have hapart := hregular.apart side
      have hother := hregular.first_add_le side.other
      rw [Block.stop_eq, Block.stop_eq] at hapart
      rw [Block.first_eq, Block.stop_eq] at hother
      rw [hread, if_neg (by omega), if_neg (by omega), if_neg (by omega), if_neg (by omega)]
  -- The last word of the block reads as no vacant id, so the recovery looks for a length behind it.
  have hcleared : d.readWord ((p.block side).stop - 4) = 0 := by
    rw [hread, Block.stop_eq, if_pos rfl]
  have hheaders (t : Side) : (p.block t).HeaderInRange := by
    have hfirst := hregular.first_add_le t
    have hle := hfits.stop_le t
    have hlt := capacity.toNat_lt
    exact ⟨by omega, by omega⟩
  have hlt : (p.block side).stop - 4 < (p.block side).stop := by omega
  refine recover_run?_of_overhang hheaders hnewest hlinked hlt ?_ (by omega)
  show d.readWord ((p.block side).stop - 4) ≠ vacantId
  rw [hcleared]
  decide

/-- No address or size that a command computes leaves 32 bits, on any device and whatever flash
holds and becomes of it, exactly if neither block ends at the last word of the 32-bit addresses with
room for more than one record. -/
theorem StoreCommand.runs_in_range_iff {pageSize capacity : Word} (h4 : pageSize.toNat % 4 = 0)
    (h : p.accepts pageSize capacity = true) :
    (∀ {δ : Type} [FlashDevice δ] [Addressable δ] (s : Store δ),
      FlashDevice.pageSize δ = pageSize → FlashDevice.capacity s.device = capacity →
        s.placement = p → ∀ command : StoreCommand, command.run? s = some (command.run s)) ↔
      ∀ side, (p.block side).stop ≠ 0xFFFFFFFC ∨ p.blockSize = 20 := by
  constructor
  · intro hruns side
    by_contra hover
    obtain ⟨hstop, hsize⟩ := not_or.1 hover
    have hfault := recover_run?_of_crammed pageSize.toNat h4 h rfl (not_not.1 hstop) hsize
    have hrun := hruns (⟨NorFlash.crammed (p.block side), p, .a, 0, (p.block .a).first, false, 0⟩ :
      Store (NorFlash capacity.toNat pageSize.toNat)) UInt32.ofNat_toNat UInt32.ofNat_toNat rfl
      .recover
    cases hrun.symm.trans hfault
  · intro hend δ _ _ s _ _ hs command
    exact command.run?_of_inRange (hs ▸ Placement.inRange_of_accepts h4 h hend)

/-- The last block that fits holds one record, and has no place for a header behind it. -/
theorem StoreCommand.runs_in_range_iff_of_last_block :
    let p : Placement := ⟨0, 4294967272, 20, 0⟩
    let s : Store (NorFlash 4294967292 4) := ⟨NorFlash.blank, p, .b, 7, 4294967280, true, 0⟩
    ((4 : Word).toNat % 4 = 0 ∧ p.accepts 4 4294967292 = true) ∧
      (StoreCommand.write 1 [1, 2, 3, 4]).run? s =
        some ((StoreCommand.write 1 [1, 2, 3, 4]).run s) := by
  intro p s
  have h4 : (4 : Word).toNat % 4 = 0 := by decide
  have h : p.accepts 4 4294967292 = true := by decide
  have hend (side : Side) : (p.block side).stop ≠ 0xFFFFFFFC ∨ p.blockSize = 20 := Or.inr rfl
  exact ⟨⟨h4, h⟩, (StoreCommand.runs_in_range_iff h4 h).2 hend s rfl rfl rfl _⟩

/-- A block at the end of the largest device holds a record of a word and then a word that is not
erased: the end of a header there does not fit 32 bits, and a recovery faults. -/
theorem StoreCommand.recover_faults_at_last_word :
    let d : NorFlash 4294967292 4 := (((NorFlash.blank.put 4294967268 magic.toBytes).put
      4294967276 (Word.toBytes 1)).put 4294967280 (Word.toBytes 4)).put 4294967288 (Word.toBytes 0)
    (FlashDevice.pageSize (NorFlash 4294967292 4)).toNat % 4 = 0 ∧
      ∃ s, Store.attach d ⟨0, 4294967268, 24, 0⟩ = .ok s ∧ StoreCommand.recover.run? s = none := by
  intro d
  have h4 : (FlashDevice.pageSize (NorFlash 4294967292 4)).toNat % 4 = 0 := by decide
  have h : Placement.accepts ⟨0, 4294967268, 24, 0⟩ (FlashDevice.pageSize (NorFlash 4294967292 4))
    (FlashDevice.capacity d) = true := by decide
  refine ⟨h4, ⟨d, ⟨0, 4294967268, 24, 0⟩, .a, 0, 8, false, 0⟩, ?_, ?_⟩
  · rw [Store.attach, Placement.check_eq_ok_iff.2 h]
    rfl
  · have hblock : Placement.block ⟨0, 4294967268, 24, 0⟩ .b = ⟨4294967268, 24⟩ := by decide
    have hd : d = NorFlash.crammed (Placement.block ⟨0, 4294967268, 24, 0⟩ .b) := by
      have hlength : (Block.mk 4294967268 24).first + 4 = 4294967280 := by decide
      have hfirst : (Block.mk 4294967268 24).first = 4294967276 := by decide
      have hlast : (Block.mk 4294967268 24).stop - 4 = 4294967288 := by decide
      rw [hblock, NorFlash.crammed, hlength, hfirst, hlast]
      rfl
    rw [hd]
    exact recover_run?_of_crammed 4 h4 h (by decide) (by rw [hblock]; decide) (by decide)

end FlashStore
