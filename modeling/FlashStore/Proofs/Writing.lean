import FlashStore.Proofs.Recovery
import FlashStore.Proofs.Reference
import FlashStore.Store.Update

/-!
# Writing values

A write appends the record of a value and removes the one it replaces. Until the id of the new
record is programmed nothing has been written as far as the contents go; from then on the value is
stored, since of two records the later one counts.
-/

namespace FlashStore

open LawfulFlash Store

variable {δ : Type} [FlashDevice δ] [LawfulFlash δ] {s : Store δ} {m m' : Memory} {p : Placement}
  {side : Side} {g : Word} {cursor : Nat} {c : Contents} {id : Word} {data : List UInt8}
  {r : Record} {rs pre post : List Record}

/-! ### Appended records -/

/-- The record of a value at an address. -/
def recordOf (a : Nat) (id : Word) (data : List UInt8) : Record :=
  ⟨a, id, UInt32.ofNat data.length⟩

lemma span_recordOf (a : Nat) (id : Word) (hlen : data.length < 2 ^ 32) :
    (recordOf a id data).span = recordSpan data.length := by
  rw [Record.span, recordOf, toNat_ofNat_length hlen]

lemma isLive_recordOf (a : Nat) (hid : isUsableId id = true) :
    (recordOf a id data).isLive = true := Record.isLive_iff.2 (isUsableId_iff.1 hid).1

/-- A value that fits a block has a length that a record can carry. -/
lemma length_lt_of_fit (hfit : recordSpan data.length < 2 ^ 32) : data.length + 8 < 2 ^ 32 := by
  have h := le_roundToWords data.length
  simp only [recordSpan, payloadOffset] at hfit
  omega

lemma wellFormed_recordOf (a : Nat) (hid : isUsableId id = true) (hmin : minPayload ≤ data.length)
    (hfit : recordSpan data.length < 2 ^ 32) : (recordOf a id data).WellFormed := by
  have hlen := length_lt_of_fit hfit
  have hnat : (UInt32.ofNat data.length).toNat = data.length := toNat_ofNat_length (by omega)
  simp only [minPayload] at hmin
  refine ⟨(isUsableId_iff.1 hid).2, ?_, ?_⟩
  · intro h
    have h0 : (UInt32.ofNat data.length).toNat = 0 := congrArg UInt32.toNat h
    omega
  · intro h
    have he : (UInt32.ofNat data.length).toNat = 0xFFFFFFFF := congrArg UInt32.toNat h
    omega

/-- A record that has no id yet is not one of the records. -/
lemma Tracked.recordsOf_of_partial (ht : Tracked p m side g cursor) (hp : p.Regular) {hi : Nat}
    (hout : AgreeOutside (cursor + 4) hi m m') :
    recordsOf m' (p.block side) = recordsOf m (p.block side) := by
  have hend : recordAt m' (p.block side).stop cursor =
      .error (endAt (p.block side).stop cursor) := by
    by_cases h : cursor < (p.block side).stop
    · rw [endAt, if_pos h]
      refine recordAt_of_vacant h ?_
      rw [hout _ (by omega), ht.erased _ (Nat.le_refl _) h (ht.cursor_mod hp)]
      rfl
    · rw [endAt, if_neg h, recordAt_of_le (by omega)]
  have hbefore : AgreeOn (p.block side).first cursor m m' := hout.agreeOn (by omega)
  rw [recordsOf, Chain.ofBlock, (ht.linked.congr_of_agreeOn hbefore).scan_eq hend]

/-- A record that has no id yet changes nothing. -/
lemma Tracked.persisted_of_partial (ht : Tracked p m side g cursor) (hp : p.Regular) {hi : Nat}
    (hhi : hi ≤ (p.block side).stop) (hout : AgreeOutside (cursor + 4) hi m m') :
    p.persisted m' = p.persisted m := by
  have hfirst := ht.first_le
  have hn : p.newest m' = some (side, g) := by
    rw [← ht.newest]
    exact Placement.newest_of_agreeOutside hp (hout.mono (by omega) hhi)
  have hbefore : AgreeOn (p.block side).first cursor m m' := hout.agreeOn (by omega)
  rw [Placement.persisted_of_newest hn, ht.persisted_eq, retained,
    ht.recordsOf_of_partial hp hout]
  exact ht.linked.entries_congr hbefore

/-- An appended record puts its value last. -/
lemma Tracked.append (ht : Tracked p m side g cursor) (hp : p.Regular)
    (hid : isUsableId id = true) (hmin : minPayload ≤ data.length)
    (hfit : cursor + recordSpan data.length ≤ (p.block side).stop)
    (hspan : recordSpan data.length < 2 ^ 32)
    (hm' : m' = writeWords m cursor (valueImage id data)) :
    Tracked p m' side g (cursor + recordSpan data.length) ∧
      recordsOf m' (p.block side) = recordsOf m (p.block side) ++ [recordOf cursor id data] ∧
      p.persisted m' = (p.persisted m).put id data := by
  have hfirst := ht.first_le
  have hlen := length_lt_of_fit hspan
  have hout : AgreeOutside cursor (cursor + recordSpan data.length) m m' := by
    have h := agreeOutside_writeWords m cursor (valueImage id data)
    rwa [four_mul_length_valueImage, ← hm'] at h
  have hspells : Spells m' cursor (valueImage id data) := hm' ▸ spells_writeWords m cursor _
  have hstop : (recordOf cursor id data).stop = cursor + recordSpan data.length := by
    rw [Record.stop, span_recordOf cursor id (by omega)]
    rfl
  have hbefore : AgreeOn (p.block side).first cursor m m' := hout.agreeOn (by omega)
  have hl : Linked m' (p.block side).stop (p.block side).first
      (recordsOf m (p.block side) ++ [recordOf cursor id data])
      (cursor + recordSpan data.length) := by
    refine linked_append.2 ⟨cursor, ht.linked.congr_of_agreeOn hbefore, ?_, hstop⟩
    exact recordAt_of_spells hspells (wellFormed_recordOf cursor hid hmin hspan)
      (by rw [← recordOf, hstop]; exact hfit)
  have hn : p.newest m' = some (side, g) := by
    rw [← ht.newest]
    exact Placement.newest_of_agreeOutside hp (hout.mono hfirst hfit)
  obtain ⟨ht', hrec⟩ := Tracked.intro hp hn hl fun i h₁ h₂ h₃ =>
    (hout i (by omega)).trans (ht.erased i (by omega) h₂ h₃)
  refine ⟨ht', hrec, ?_⟩
  rw [ht'.persisted_eq, hrec, entries_survivors_concat _ (isLive_recordOf cursor hid),
    ht.linked.entries_congr hbefore, ht.persisted_eq]
  congr 1
  exact payload_of_spells (by omega) hspells

/-! ### Removed records -/

section Removed

variable (ht : Tracked p m side g cursor) (hp : p.Regular)
  (hrec : recordsOf m (p.block side) = pre ++ r :: post)
include ht hp hrec

/-- What the payload of a record holds is nothing to the chain. -/
lemma Tracked.of_payload (hout : AgreeOutside r.payloadAddress r.stop m m') :
    Tracked p m' side g cursor ∧ recordsOf m' (p.block side) = pre ++ r :: post := by
  have hl := hrec ▸ ht.linked
  have hpay := r.address_add_eight
  obtain ⟨-, hge, hle⟩ := hl.of_mem (List.mem_append_right pre List.mem_cons_self)
  exact ht.of_agreeOutside hp (hout.mono (by omega) hle) (hl.congr_payload hout)

/-- A removed record keeps its place in the chain. -/
lemma Tracked.of_cleared :
    Tracked p (cleared m r) side g cursor ∧
      recordsOf (cleared m r) (p.block side) = pre ++ r.removed :: post := by
  have hl := hrec ▸ ht.linked
  obtain ⟨hat, hge, hle⟩ := hl.of_mem (List.mem_append_right pre List.mem_cons_self)
  exact ht.of_agreeOutside hp ((agreeOutside_cleared m r).mono hge hle)
    (hl.cleared (.of_recordAt hat))

/-- Removing a superseded record keeps the contents. -/
lemma Tracked.cleared_superseded (hsup : isSuperseded r post = true) :
    Tracked p (cleared m r) side g cursor ∧
      recordsOf (cleared m r) (p.block side) = pre ++ r.removed :: post ∧
      p.persisted (cleared m r) = p.persisted m := by
  have hl := hrec ▸ ht.linked
  obtain ⟨ht', hrec'⟩ := ht.of_cleared hp hrec
  refine ⟨ht', hrec', ?_⟩
  rw [ht'.persisted_eq, hrec', ht.persisted_eq, hrec]
  exact hl.entries_cleared_superseded hsup

/-- So does a removal of it that is cut. -/
lemma Tracked.persisted_superseded (hsup : isSuperseded r post = true)
    (hout : AgreeOutside r.payloadAddress r.stop m m') : p.persisted m' = p.persisted m := by
  have hl := hrec ▸ ht.linked
  obtain ⟨ht', hrec'⟩ := ht.of_payload hp hrec hout
  rw [ht'.persisted_eq, hrec', ht.persisted_eq, hrec]
  exact hl.entries_superseded_congr hsup hout

end Removed

/-! ### Storing a record -/

lemma find_of_serves (hs : s.Operable) (h : s.view.Serves s.placement c) (id : Word) :
    s.chain.find id = .ok ((recordsOf s.word s.block).find? (·.id == id)) := by
  rw [Chain.find, chain_of_serves hs h]
  cases (recordsOf s.word s.block).find? (·.id == id) with
  | some r => rfl
  | none =>
    simp only [requireIntact_endAt]
    rfl

lemma acts_removeRecord (hs : s.Operable) (hu : s.unlockDepth ≠ 0)
    (ht : Tracked s.placement s.word s.current s.generation s.cursor)
    (hr : r ∈ recordsOf s.word s.block) :
    Acts (onDevice (removeRecord r)) s
      (fun _ k v => k = r.wordCount + 1 ∧ v = s.view.reading (cleared s.word r))
      (fun e k v => e.FromDevice ∧ k ≤ r.wordCount ∧
        v = s.view.reading (writeWords s.word r.payloadAddress (List.replicate k 0))) := by
  have hmod := ht.linked.address_mod (hs.regular.first_mod _) hr
  have hstop := (address_of_mem_recordsOf hr).2
  have hcap : s.block.stop ≤ (FlashDevice.capacity s.device).toNat := hs.fits.stop_le s.current
  refine (Acts.onDevice hs (runs_removeRecord (hs.unlocked hu) hmod (by omega))).mono ?_ ?_
  · rintro _ k v ⟨hv, hk, hm⟩
    exact ⟨hk, by rw [hv, hm]; rfl⟩
  · rintro e k v ⟨he, hv, hk, hm⟩
    exact ⟨he, hk, by rw [hv, hm]; rfl⟩

/-- What fits a block has a span of a word. -/
lemma recordSpan_lt_of_fit (hs : s.Operable)
    (hfit : s.cursor + recordSpan data.length ≤ s.block.stop) :
    recordSpan data.length < 2 ^ 32 := by
  have hfirst : s.block.first ≤ s.cursor := hs.first_le
  have hsize := s.placement.blockSize.toNat_lt
  have hstop : s.block.stop = s.block.base + s.placement.blockSize.toNat := rfl
  have hbase := s.block.first_eq
  omega

/-- Take the place of an earlier record of the same id, if there was one. -/
lemma acts_removeReplaced (hs : s.Operable) (hu : s.unlockDepth ≠ 0) (hin : s.inService = true)
    (ht : Tracked s.placement s.word s.current s.generation s.cursor)
    (hrec : recordsOf s.word s.block = rs ++ [r]) (hd : Distinct rs) (hr : r.isLive = true) :
    Acts (match rs.find? (·.id == r.id) with
        | some r => onDevice (removeRecord r)
        | none => pure ()) s
      (fun _ _ v => v.Serves s.placement (s.placement.persisted s.word) ∧
        v = s.view.reading ((rs.find? (·.id == r.id)).elim s.word (cleared s.word)))
      (fun e _ v => e.FromDevice ∧ v.inService = true ∧
        s.placement.persisted v.word = s.placement.persisted s.word ∧
        ∃ old ∈ rs.find? (·.id == r.id), ∃ k ≤ old.wordCount,
          v.word = writeWords s.word old.payloadAddress (List.replicate k 0)) := by
  have hp := hs.regular
  cases hf : rs.find? (·.id == r.id) with
  | none =>
    refine Acts.pure hs ⟨⟨hin, ⟨ht, ?_⟩, rfl⟩, rfl⟩
    show Distinct (recordsOf s.word s.block)
    rw [hrec]
    refine hd.concat fun x hx _ he => ?_
    exact List.find?_eq_none.1 hf x hx (beq_iff_eq.2 he)
  | some old =>
    -- The earlier record is superseded by the one just stored, so removing it changes no contents.
    obtain ⟨hid, pre, post, rfl, -⟩ := List.find?_eq_some_iff_append.1 hf
    have hold : old.id = r.id := beq_iff_eq.1 hid
    have hlive : old.isLive = true := by
      rw [Record.isLive_iff] at hr ⊢
      rwa [hold]
    have hrec' : recordsOf s.word s.block = pre ++ old :: (post ++ [r]) := by
      rw [hrec, List.append_assoc, List.cons_append]
    have hsup : isSuperseded old (post ++ [r]) = true := by
      rw [isSuperseded_append, isSuperseded_cons, beq_iff_eq.2 hold.symm]
      simp
    have hmem : old ∈ recordsOf s.word s.block :=
      hrec' ▸ List.mem_append_right pre List.mem_cons_self
    refine (acts_removeRecord hs hu ht hmem).mono ?_ ?_
    · rintro _ k v ⟨-, rfl⟩
      obtain ⟨ht', hrec'', hpers⟩ := ht.cleared_superseded hp hrec' hsup
      refine ⟨⟨hin, ⟨ht', ?_⟩, hpers⟩, rfl⟩
      show Distinct (recordsOf (cleared s.word old) s.block)
      rw [show recordsOf _ s.block = _ from hrec'', ← List.cons_append, ← List.append_assoc]
      refine hd.removed.concat fun x hx hx' => ?_
      rw [← hold]
      rcases List.mem_append.1 hx with hx | hx
      · exact hd.id_ne hlive (List.mem_append_left _ hx) hx'
      · rcases List.mem_cons.1 hx with rfl | hx
        · simp at hx'
        · exact hd.id_ne hlive (List.mem_append_right _ hx) hx'
    · rintro e k v ⟨he, hk, rfl⟩
      exact ⟨he, hin, ht.persisted_superseded hp hrec' hsup (agreeOutside_clearing s.word hk),
        old, rfl, k, hk, rfl⟩

namespace Store

omit [LawfulFlash δ]

/-- Put a record at the cursor, and remove the one it replaces. -/
def placeRecord (id : Word) (data : List UInt8) : StoreM δ Unit := do
  let previous ← query fun s => s.chain.find id
  let cursor ← onDevice (writeRecord (← get).cursor id data)
  modify fun s => { s with cursor }
  match previous with
  | some r => onDevice (removeRecord r)
  | none => pure ()

/-- An append compacts if there is no room, and puts the record at the cursor then. -/
lemma append_eq (id : Word) (data : List UInt8) :
    append (δ := δ) id data = (do
      if (← get).free < recordSpan data.length then
        compactNow
        if (← get).free < recordSpan data.length then throw .full
      placeRecord id data) := rfl

end Store

/-- The memory once a record stands at the cursor and the one it replaces has been removed. -/
def stored (m : Memory) (cursor : Nat) (id : Word) (data : List UInt8) (old : Option Record) :
    Memory :=
  let m' := writeWords m cursor (valueImage id data)
  old.elim m' (cleared m')

/-- The memories that storing a record may be cut at: while it is written, and while the one it
replaces is removed. -/
inductive Storing (m : Memory) (cursor : Nat) (id : Word) (data : List UInt8)
    (old : Option Record) : Memory → Prop
  | writing {m' : Memory}
      (outside : AgreeOutside (cursor + 4) (cursor + recordSpan data.length) m m') :
      Storing m cursor id data old m'
  | removing {r : Record} {k : Nat} (mem : r ∈ old) (le : k ≤ r.wordCount) :
      Storing m cursor id data old (writeWords (writeWords m cursor (valueImage id data))
        r.payloadAddress (List.replicate k 0))

/-- A record is written at the cursor. Cut anywhere, it has no id yet. -/
lemma acts_writeRecord (hs : s.Operable) (hu : s.unlockDepth ≠ 0)
    (h : s.view.Serves s.placement c)
    (hfit : s.cursor + recordSpan data.length ≤ s.block.stop) :
    Acts (onDevice (writeRecord s.cursor id data)) s
      (fun z _ v => z = s.cursor + recordSpan data.length ∧
        v = s.view.reading (writeWords s.word s.cursor (valueImage id data)))
      (fun e _ v => e.FromDevice ∧ v = s.view.reading v.word ∧
        AgreeOutside (s.cursor + 4) (s.cursor + recordSpan data.length) s.word v.word) := by
  have ht : Tracked s.placement s.word s.current s.generation s.cursor := h.consistent.toTracked
  have hspan := recordSpan_lt_of_fit hs hfit
  have hlen := length_lt_of_fit hspan
  have hcap : s.block.stop ≤ (FlashDevice.capacity s.device).toNat := hs.fits.stop_le s.current
  refine (Acts.onDevice hs (runs_writeRecord (hs.unlocked hu) (ht.cursor_mod hs.regular)
    (by omega) (by omega) ?_)).mono ?_ ?_
  · intro i h₁ h₂ h₃
    exact ht.erased i h₁ (by show i < s.block.stop; omega) h₃
  · rintro z k v ⟨hv, rfl, hm⟩
    exact ⟨rfl, by rw [hv, hm]; rfl⟩
  · rintro e k v ⟨he, hv, hout⟩
    exact ⟨he, hv, hout⟩

/-- A record is stored at the cursor, and then takes the place of the one it replaces. Cut before
it has its id, it does not show. -/
lemma acts_placeRecord (hs : s.Operable) (hu : s.unlockDepth ≠ 0)
    (h : s.view.Serves s.placement c) (hid : isUsableId id = true)
    (hmin : minPayload ≤ data.length)
    (hfit : s.cursor + recordSpan data.length ≤ s.block.stop) :
    Acts (placeRecord id data) s
      (fun _ _ v => v.Serves s.placement (c.put id data) ∧
        v = ⟨stored s.word s.cursor id data ((recordsOf s.word s.block).find? (·.id == id)),
          s.current, s.generation, s.cursor + recordSpan data.length, true⟩)
      (fun e _ v => e.FromDevice ∧ v.inService = true ∧ (s.placement.persisted v.word = c ∨
        s.placement.persisted v.word = c.put id data) ∧
        Storing s.word s.cursor id data ((recordsOf s.word s.block).find? (·.id == id)) v.word) := by
  have hp := hs.regular
  have ht₀ : Tracked s.placement s.word s.current s.generation s.cursor := h.consistent.toTracked
  have hpers : s.placement.persisted s.word = c := h.persisted
  have hspan := recordSpan_lt_of_fit hs hfit
  unfold placeRecord
  refine Acts.query_bind (find_of_serves hs h id) (Acts.get_bind ?_)
  -- The record itself: until its id is programmed the place reads as vacant.
  refine Acts.bind ((acts_writeRecord hs hu h hfit).mono (fun _ _ _ h => h) ?_) ?_
  · rintro e k v ⟨he, hv, hout⟩
    refine ⟨he, by rw [hv]; exact h.inService, Or.inl ?_, .writing hout⟩
    rw [ht₀.persisted_of_partial hp hfit hout, hpers]
  · rintro z s₁ k hs₁ hk ⟨rfl, hv⟩
    have hword : s₁.word = writeWords s.word s.cursor (valueImage id data) :=
      congrArg View.word hv
    have hcur : s₁.current = s.current := congrArg View.current hv
    have hgen : s₁.generation = s.generation := congrArg View.generation hv
    have hin : s₁.inService = true := (congrArg View.inService hv).trans h.inService
    have hplace := hk.placement_eq
    have hblock : s₁.block = s.block := by rw [block, hplace, hcur]; rfl
    have hu₁ : s₁.unlockDepth ≠ 0 := hk.unlockDepth_eq ▸ hu
    -- With the id in place the value counts, and the record it replaces is superseded.
    obtain ⟨ht, hrec, hput⟩ := ht₀.append hp hid hmin hfit hspan hword
    rw [hpers] at hput
    rw [← hplace] at ht hput ⊢
    rw [← hcur, ← hgen] at ht
    have hrec₁ : recordsOf s₁.word s₁.block =
        recordsOf s.word s.block ++ [recordOf s.cursor id data] := by
      rw [hblock]
      exact hrec
    refine Acts.modify_bind ⟨rfl, rfl, reaches_refl _⟩ ?_
    have hop : Operable { s₁ with cursor := s.cursor + recordSpan data.length } := by
      refine ⟨hs₁.fits, hs₁.unlocked, ?_, ?_⟩
      · show s₁.block.first ≤ s.cursor + recordSpan data.length
        rw [hblock]
        exact Nat.le_trans hs.first_le (Nat.le_add_right _ _)
      · show s.cursor + recordSpan data.length ≤ s₁.block.stop
        rw [hblock]
        exact hfit
    -- The removal can only be cut after the value counts.
    refine (acts_removeReplaced hop hu₁ hin ht hrec₁ h.consistent.distinct
      (isLive_recordOf _ hid)).mono ?_ ?_
    · rintro _ j v ⟨hserves, rfl⟩
      refine ⟨hput ▸ hserves, ?_⟩
      rw [stored, ← hword, ← hcur, ← hgen, ← hin]
      rfl
    · rintro e j v ⟨he, hin', hpers', old, hold, i, hi, hv'⟩
      refine ⟨he, hin', Or.inr (hpers'.trans hput), ?_⟩
      have hv₁ : v.word = writeWords s₁.word old.payloadAddress (List.replicate i 0) := hv'
      rw [hv₁, hword]
      exact .removing hold hi

omit [LawfulFlash δ] in
/-- The entries of a store take no more room than its records. -/
lemma span_le_of_serves (h : s.view.Serves s.placement c) :
    s.block.first + Contents.span c ≤ s.cursor := by
  have hz : s.cursor = s.block.first + Record.totalSpan (recordsOf s.word s.block) :=
    h.consistent.linked.end_eq
  have hspan := totalSpan_survivors_le (recordsOf s.word s.block)
  have hc : Contents.span c = Record.totalSpan (survivors (recordsOf s.word s.block)) := by
    rw [← h.persisted, h.consistent.persisted_eq, span_entries]
    rfl
  omega

/-- Appending a value stores it, unless the entries leave no room. A device that fails on the way
leaves the contents with or without it. -/
theorem acts_append (hs : s.Operable) (hu : s.unlockDepth ≠ 0)
    (h : s.view.Serves s.placement c) (hid : isUsableId id = true)
    (hmin : minPayload ≤ data.length) :
    Acts (append id data) s
      (fun _ _ v => v.Serves s.placement (c.put id data) ∧
        Contents.span c + recordSpan data.length ≤ s.block.capacity)
      (fun e _ v => (e = .full ∧ v.Serves s.placement c ∧
          s.block.capacity < Contents.span c + recordSpan data.length) ∨
        (e.FromDevice ∧ v.inService = true ∧ (s.placement.persisted v.word = c ∨
          s.placement.persisted v.word = c.put id data))) := by
  have hroom : ∀ t : Side, (s.placement.block t).stop =
      (s.placement.block t).first + s.block.capacity :=
    fun t => hs.regular.stop_eq t s.current
  rw [append_eq]
  refine Acts.get_bind ?_
  by_cases hfree : s.free < recordSpan data.length
  -- Too little is free: one compaction, after which only the entries take room.
  · rw [if_pos hfree]
    refine Acts.bind ((acts_compactNow hs h.consistent.newest).mono (fun _ _ _ h => h) ?_) ?_
    · rintro e k v ⟨he, hin, hpers⟩
      exact Or.inr ⟨he, hin.trans h.inService, Or.inl (hpers.trans h.persisted)⟩
    · rintro _ s₁ k hs₁ hk ⟨hin, hc, hpers, hcursor⟩
      have hplace := hk.placement_eq
      have hpers_s : s.placement.persisted s.word = c := h.persisted
      have h₁ : s₁.view.Serves s.placement c :=
        ⟨hin.trans h.inService, hc, hpers.trans hpers_s⟩
      have hcursor₁ : s₁.cursor = s₁.block.first + Contents.span c := by
        rw [block, hplace, ← hpers_s]
        exact hcursor
      have hstop₁ : s₁.block.stop = s₁.block.first + s.block.capacity := by
        rw [block, hplace]
        exact hroom _
      refine Acts.get_bind ?_
      -- So what is refused now has no room beside the entries.
      by_cases hfree₁ : s₁.free < recordSpan data.length
      · rw [if_pos hfree₁]
        refine Acts.bind (Acts.throw hs₁ (Q := fun _ _ _ => False) ?_ (Or.inl ⟨rfl, h₁, ?_⟩)) ?_
        · rintro ⟨e', he'⟩
          cases he'
        · rw [free] at hfree₁
          omega
        · rintro _ _ _ _ _ hfalse
          exact hfalse.elim
      · rw [if_neg hfree₁]
        have hle := hs₁.le_stop
        rw [free] at hfree₁
        rw [← hplace] at h₁ ⊢
        refine (acts_placeRecord hs₁ (hk.unlockDepth_eq ▸ hu) h₁ hid hmin (by omega)).mono ?_ ?_
        · rintro _ j v ⟨hv, -⟩
          exact ⟨hv, by omega⟩
        · rintro e j v ⟨he, hin', hpers', -⟩
          exact Or.inr ⟨he, hin', hpers'⟩
  · rw [if_neg hfree]
    have hle := hs.le_stop
    have hspan := span_le_of_serves h
    have hstop : s.block.stop = s.block.first + s.block.capacity := hroom s.current
    rw [free] at hfree
    refine (acts_placeRecord hs hu h hid hmin (by omega)).mono ?_ ?_
    · rintro _ j v ⟨hv, -⟩
      exact ⟨hv, by omega⟩
    · rintro e j v ⟨he, hin', hpers', -⟩
      exact Or.inr ⟨he, hin', hpers'⟩

/-! ### Writing -/

omit [FlashDevice δ] [LawfulFlash δ] in
lemma checkWrite_eq (id : Word) (data : List UInt8) (s : Store δ) : checkWrite id data s =
    if !isUsableId id then .error .reservedId
    else if data.length < minPayload then .error .tooShort
    else if !s.inService then .error .outOfService
    else if s.block.capacity < recordSpan data.length then .error .full
    else .ok () := by
  unfold checkWrite requireService
  cases isUsableId id
  · rfl
  · by_cases hmin : data.length < minPayload
    · simp only [if_pos hmin]
      rfl
    · simp only [if_neg hmin]
      cases s.inService
      · rfl
      · by_cases hspan : s.block.capacity < recordSpan data.length
        · simp only [if_pos hspan]
          rfl
        · simp only [if_neg hspan]
          rfl

/-- Suspending a store that has failed on the device leaves it over the same contents. -/
lemma suspended_of_fromDevice {e : StoreError} {v : View} (he : e.FromDevice)
    (hpers : p.persisted v.word = c) :
    View.Suspended p c { v with inService := v.inService && !e.isDisruptive } := by
  refine ⟨?_, hpers⟩
  simp only [he.isDisruptive, Bool.not_true, Bool.and_false]

/-- An append that the device cuts short puts the store out of service. -/
lemma acts_suspending_append (hs : s.Operable) (h : s.view.Serves s.placement c)
    (hid : isUsableId id = true) (hmin : minPayload ≤ data.length) :
    Acts (suspendOnFailure (withUnlocked (append id data))) s
      (fun _ _ v => v.Serves s.placement (c.put id data) ∧
        Contents.span c + recordSpan data.length ≤ s.block.capacity)
      (fun e _ v => (e = .full ∧ v.Serves s.placement c ∧
          s.block.capacity < Contents.span c + recordSpan data.length) ∨
        (e.FromDevice ∧ (v.Suspended s.placement c ∨
          v.Suspended s.placement (c.put id data)))) := by
  have happend := acts_append hs.beginUnlocked (Nat.succ_ne_zero _)
    ((view_beginUnlocked s).symm ▸ h) hid hmin
  refine (Acts.suspendOnFailure happend.withUnlocked).mono (fun _ _ _ h => h) ?_
  rintro e k _ ⟨v, ⟨rfl, hserves, hfull⟩ | ⟨he, -, hpers⟩, rfl⟩
  · refine Or.inl ⟨rfl, ⟨?_, hserves.consistent, hserves.persisted⟩, hfull⟩
    show (v.inService && true) = true
    rw [hserves.inService, Bool.and_true]
  · refine Or.inr ⟨he, ?_⟩
    rcases hpers with hpers | hpers
    · exact Or.inl (suspended_of_fromDevice he hpers)
    · exact Or.inr (suspended_of_fromDevice he hpers)

omit [LawfulFlash δ] in
/-- A write in service is checked against the contents, except that a value may still prove too
large after a compaction. -/
lemma checkWrite_of_serves (id : Word) (data : List UInt8)
    (h : s.view.Serves s.placement c) :
    (∃ e, checkWrite id data s = .error e ∧ c.checkPut s.block.capacity id data = .error e) ∨
      checkWrite id data s = .ok () ∧ isUsableId id = true ∧ minPayload ≤ data.length := by
  have hin : s.inService = true := h.inService
  rw [checkWrite_eq, Contents.checkPut, hin]
  cases isUsableId id
  · exact Or.inl ⟨_, rfl, rfl⟩
  · by_cases hmin : data.length < minPayload
    · simp [hmin]
    · by_cases hspan : s.block.capacity < recordSpan data.length
      · have hfull : s.block.capacity < Contents.span c + recordSpan data.length := by omega
        simp [hmin, hspan, hfull]
      · simp [hmin, hspan]
        omega

/-- A write stores the value or is refused for the reason that the contents give. If the device
fails, the value is stored or not, and nothing else changes. -/
theorem ensures_write (id : Word) (data : List UInt8) (hs : s.Operable)
    (h : s.view.Serves s.placement c) :
    Ensures (write id data) s
      (fun _ s' => s'.Operable ∧ ∃ k, s.Continues k s' ∧
        c.checkPut s.block.capacity id data = .ok () ∧
        (s'.view.Serves s.placement (c.put id data) ∨
          s'.view.Suspended s.placement (c.put id data) ∧ ∃ e, Refuses s'.device e))
      (fun e s' => s'.Operable ∧ ∃ k, s.Continues k s' ∧ Blames e s'.device ∧
        (c.checkPut s.block.capacity id data = .error e ∧ s'.view.Serves s.placement c ∨
          e.FromDevice ∧ (s'.view.Suspended s.placement c ∨
            s'.view.Suspended s.placement (c.put id data)))) := by
  rcases checkWrite_of_serves id data h with ⟨e, hcheck, hput⟩ |
    ⟨hcheck, hid, hmin⟩
  · refine .intro_error (run_write_of_checkWrite hcheck)
      ⟨hs, 0, .refl s, ?_, Or.inl ⟨hput, h⟩⟩
    rcases Contents.checkPut_error hput with rfl | rfl | rfl <;> exact nofun
  · unfold write
    refine Ensures.query_bind hcheck ?_
    refine Ensures.bind (Ensures.mono (acts_suspending_append hs h hid hmin) (fun _ _ h => h) ?_) ?_
    · rintro e s' ⟨hs', k, hk, hb, ⟨rfl, hserves, hfull⟩ | hdevice⟩
      · exact ⟨hs', k, hk, hb, Or.inl ⟨Contents.checkPut_of_lt hid hmin hfull, hserves⟩⟩
      · exact ⟨hs', k, hk, hb, Or.inr hdevice⟩
    · rintro _ s₁ ⟨hs₁, k, hk, h₁, hroom⟩
      have hplace : s₁.placement = s.placement := hk.placement_eq
      have hput := Contents.checkPut_eq_ok_iff.2 ⟨hid, hmin, hroom⟩
      have hlow := acts_compactIfLow hs₁ (hplace ▸ h₁)
      rw [hplace] at hlow
      refine Ensures.tryCatch (E := fun e (s' : Store δ) => s'.Operable ∧ ∃ j,
        s₁.Continues j s' ∧ Blames e s'.device ∧ e.FromDevice ∧
          s'.view.Suspended s.placement (c.put id data))
        (Ensures.bind hlow ?_) ?_
      · rintro _ s₂ ⟨hs₂, j, hj, h₂⟩
        exact Ensures.pure ⟨hs₂, k + j, hk.trans hj, hput, Or.inl h₂⟩
      · rintro e s₂ ⟨hs₂, j, hj, hb, ⟨e', rfl⟩, h₂⟩
        exact Ensures.pure ⟨hs₂, k + j, hk.trans hj, hput, Or.inr ⟨h₂, e', hb e' rfl⟩⟩

end FlashStore
