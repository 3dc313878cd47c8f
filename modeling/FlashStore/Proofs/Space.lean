import FlashStore.Proofs.SettingCalls
import FlashStore.Proofs.Surviving

/-!
# Space

The room for records in the block in use is divided up without rest: what is free behind the
cursor, what removed records hold, and what the values take. A compaction turns the second part
into the first, a write moves room from free space to its value and leaves that of a value it
replaces to be reclaimed, an erase leaves that of the value it removes.
-/

namespace FlashStore

open LawfulFlash Store

/-! ### What values take -/

namespace Contents

variable {c c' : Contents} {id : Word}

/-- Bytes taken by the value of an id, if it has one. -/
def spanOf (id : Word) (c : Contents) : Nat :=
  match c.get? id with
  | some data => recordSpan data.length
  | none => 0

lemma spanOf_of_some {data : List UInt8} (h : c.get? id = some data) :
    c.spanOf id = recordSpan data.length := by
  rw [spanOf, h]

lemma span_append (c c' : Contents) : span (c ++ c') = span c + span c' := by
  induction c with
  | nil => simp
  | cons e c ih => simp only [List.cons_append, span_cons, ih, Nat.add_assoc]

lemma span_put (id : Word) (data : List UInt8) (c : Contents) :
    span (c.put id data) = span (c.remove id) + recordSpan data.length := by
  rw [put, span_append, span_cons, span_nil, Nat.add_zero]

lemma get?_cons_self (e : Entry) (c : Contents) : get? (e :: c) e.id = some e.data := by
  simp [get?]

lemma get?_cons_of_ne {e : Entry} (h : e.id ≠ id) (c : Contents) :
    get? (e :: c) id = get? c id := by
  simp [get?, h]

/-- Without two entries of an id, what is taken without it is less by its value. -/
lemma span_remove (h : c.Pairwise fun e e' => e.id ≠ e'.id) (id : Word) :
    span (remove id c) + spanOf id c = span c := by
  induction c with
  | nil => rfl
  | cons e c ih =>
    obtain ⟨he, hc⟩ := List.pairwise_cons.1 h
    by_cases hid : e.id = id
    · have hkeep : remove id (e :: c) = c := by
        rw [remove, List.filter_cons_of_neg (by simp [hid]), List.filter_eq_self]
        intro e' he'
        simpa [← hid] using (he e' he').symm
      subst hid
      rw [hkeep, spanOf_of_some (get?_cons_self e c), span_cons, Nat.add_comm]
    · have hkeep : remove id (e :: c) = e :: remove id c := by
        rw [remove, List.filter_cons_of_pos (by simp [hid])]
        rfl
      have hsame : spanOf id (e :: c) = spanOf id c := by
        simp only [spanOf, get?_cons_of_ne hid]
      rw [hkeep, hsame, span_cons, span_cons, Nat.add_assoc, ih hc]

end Contents

/-- Persisted values have distinct ids. -/
lemma Placement.persisted_pairwise (p : Placement) (m : Memory) :
    (p.persisted m).Pairwise fun e e' => e.id ≠ e'.id := by
  cases hn : p.newest m with
  | none =>
    rw [persisted_of_none hn]
    exact List.Pairwise.nil
  | some found =>
    rw [persisted_of_newest hn, retained, entries, List.pairwise_map]
    exact survivors_pairwise _

/-! ### Stores in service -/

variable {δ : Type} [FlashDevice δ] [LawfulFlash δ] {s s' : Store δ} {c c' : Contents} {id : Word}
  {data : List UInt8}

omit [LawfulFlash δ] in
lemma pairwise_of_serves (h : s.view.Serves s.placement c) :
    c.Pairwise fun e e' => e.id ≠ e'.id := by
  rw [← h.persisted]
  exact s.placement.persisted_pairwise s.word

namespace Store

/-- The records of a store in service take what lies before its cursor. -/
lemma cursor_of_serves (hs : s.Operable) (h : s.view.Serves s.placement c) :
    s.cursor = s.block.first + s.chain.removedBytes + Contents.span c := by
  have hend : s.cursor = s.block.first + Record.totalSpan (recordsOf s.word s.block) :=
    h.consistent.linked.end_eq
  have hparts := Record.totalSpan_filter_add Record.isLive (recordsOf s.word s.block)
  have hremoved : s.chain.removedBytes =
      Record.totalSpan ((recordsOf s.word s.block).filter (!·.isLive)) := by
    rw [chain_of_serves hs h, Chain.removedBytes]
  have hspan : Contents.span c =
      Record.totalSpan ((recordsOf s.word s.block).filter Record.isLive) := by
    rw [← h.persisted, h.consistent.persisted_eq_live, span_entries]
    rfl
  omega

/-- Free and reclaimable space and the values share the room for records. -/
lemma free_add_removedBytes (hs : s.Operable) (h : s.view.Serves s.placement c) :
    s.free + s.chain.removedBytes + Contents.span c = s.block.capacity := by
  have hcursor := cursor_of_serves hs h
  have hle := hs.le_stop
  have hstop : s.block.stop = s.block.first + s.block.capacity :=
    hs.regular.stop_eq s.current s.current
  rw [free]
  omega

/-- What a store in service can reclaim follows from what it holds and has free. -/
lemma reclaimable_of_free {n : Nat} (hs : s.Operable) (h : s.view.Serves s.placement c)
    (hn : s.free + n + Contents.span c = s.block.capacity) : s.reclaimable = .ok n := by
  have hparts := free_add_removedBytes hs h
  rw [reclaimable_of_serves hs h]
  congr 1
  omega

/-- The records that are listed take what the values take. -/
lemma exists_list_of_serves (hs : s.Operable) (h : s.view.Serves s.placement c) :
    s.list = .ok ⟨s.chain.live, none⟩ ∧ Record.totalSpan s.chain.live = Contents.span c := by
  constructor
  · rw [list, requireService_of_serves h, requireIntact_of_serves hs h]
    rfl
  · rw [← h.persisted, h.consistent.persisted_eq_live, chain_of_serves hs h, span_entries]
    rfl

omit [FlashDevice δ] [LawfulFlash δ] in
lemma capacity_of_placement (h : s'.placement = s.placement) :
    s'.block.capacity = s.block.capacity := by
  simp only [Block.capacity, block, h, Placement.size_block]

/-! ### Space after operations -/

/-- A store that has been compacted serves the same contents, and the next record goes right behind
them. -/
lemma serves_of_compactNow (hs : s.Operable) (h : s.view.Serves s.placement c)
    (hrun : (compactNow : StoreM δ Unit).run s = .ok () s') :
    s'.Operable ∧ s'.placement = s.placement ∧ s'.view.Serves s'.placement c ∧
      s'.cursor = s'.block.first + Contents.span c := by
  obtain ⟨hs', k, hk, hin, hc, hpers, hcursor⟩ :=
    (acts_compactNow hs h.consistent.newest).of_ok hrun
  rw [show s.placement.persisted s.word = c from h.persisted] at hpers hcursor
  rw [← hk.placement_eq] at hc hpers hcursor
  exact ⟨hs', hk.placement_eq, ⟨hin.trans h.inService, hc, hpers⟩, hcursor⟩

/-- A compaction leaves nothing to reclaim, and all of it free. -/
lemma space_of_compactNow (hs : s.Operable) (h : s.view.Serves s.placement c)
    (hrun : (compactNow : StoreM δ Unit).run s = .ok () s') :
    s'.free = s.free + s.chain.removedBytes ∧ s'.reclaimable = .ok 0 := by
  obtain ⟨hs', hplacement, hserves, hcursor⟩ := serves_of_compactNow hs h hrun
  have hparts := free_add_removedBytes hs h
  have hparts' := free_add_removedBytes hs' hserves
  have hbefore := cursor_of_serves hs' hserves
  rw [capacity_of_placement hplacement] at hparts'
  have hnone : s'.chain.removedBytes = 0 := by omega
  refine ⟨by omega, ?_⟩
  rw [reclaimable_of_serves hs' hserves, hnone]

/-- On a healthy device a compaction moves on to the other block and the next generation. -/
lemma exists_compactNow_of_healthy (hs : s.Operable) (hh : s.Healthy) :
    ∃ s', (compactNow : StoreM δ Unit).run s = .ok () s' ∧ s'.current = s.current.other ∧
      s'.generation = s.generation + 1 := by
  obtain ⟨_, s', hanswer, -, -, -, hview⟩ := answer_of_healthy hh
    (acts_compactNow_compacted hs) (fun _ _ _ he => he.1) fun _ => Answer.done
  obtain ⟨_, -, hrun⟩ := run_of_answer hanswer Answer.done_ne_storeError
  exact ⟨s', hrun, congrArg View.current hview, congrArg View.generation hview⟩

omit [LawfulFlash δ] in
lemma run_compact_eq_ok_iff (h : s.view.Serves s.placement c) :
    (compact : StoreM δ Unit).run s = .ok () s' ↔
      (compactNow : StoreM δ Unit).run s = .ok () s' := by
  rw [compact, EStateM.run_bind, run_query, requireService_of_serves h]
  exact run_suspendOnFailure_eq_ok_iff

lemma run_compactNow_of_compactIfLow (hs : s.Operable) (h : s.view.Serves s.placement c)
    (hrun : (compactIfLow : StoreM δ Bool).run s = .ok true s') :
    (compactNow : StoreM δ Unit).run s = .ok () s' := by
  rw [run_compactIfLow_eq h.inService (reclaimable_of_serves hs h)] at hrun
  split at hrun
  · rw [EStateM.run_bind] at hrun
    cases hcompact : (suspendOnFailure compactNow : StoreM δ Unit).run s with
    | ok u t =>
      rw [hcompact] at hrun
      obtain ⟨-, rfl⟩ := EStateM.Result.ok.inj hrun
      exact run_suspendOnFailure_eq_ok_iff.1 hcompact
    | error e t =>
      rw [hcompact] at hrun
      cases hrun
  · cases hrun

/-- With room for it, an append puts its record at the cursor. -/
lemma acts_append_of_room (hs : s.Operable) (h : s.view.Serves s.placement c)
    (hid : isUsableId id = true) (hmin : minPayload ≤ data.length)
    (hroom : ¬ s.free < recordSpan data.length) :
    Acts (suspendOnFailure (withUnlocked (append id data))) s
      (fun _ _ v => v.Serves s.placement (c.put id data) ∧ v.current = s.current ∧
        v.cursor = s.cursor + recordSpan data.length)
      (fun _ _ _ => True) := by
  have hle := hs.le_stop
  have hfit : s.cursor + recordSpan data.length ≤ s.block.stop := by
    rw [free] at hroom
    omega
  have hplace := acts_placeRecord hs.beginUnlocked (Nat.succ_ne_zero _)
    ((view_beginUnlocked s).symm ▸ h) hid hmin hfit
  have happend : Acts (append id data) s.beginUnlocked
      (fun _ _ v => v.Serves s.placement (c.put id data) ∧ v.current = s.current ∧
        v.cursor = s.cursor + recordSpan data.length) (fun _ _ _ => True) := by
    rw [append_eq]
    refine Acts.get_bind ?_
    rw [if_neg (show ¬ s.beginUnlocked.free < _ from hroom)]
    refine hplace.mono ?_ fun _ _ _ _ => trivial
    rintro _ k v ⟨hserves, hv⟩
    exact ⟨hserves, congrArg View.current hv, congrArg View.cursor hv⟩
  exact (Acts.suspendOnFailure happend.withUnlocked).mono (fun _ _ _ h => h)
    fun _ _ _ _ => trivial

/-- A write that compacts nothing takes its room from what is free, and leaves that of the value it
replaces to be reclaimed. -/
lemma space_of_write (hs : s.Operable) (h : s.view.Serves s.placement c)
    (hquiet : (StoreCommand.write id data).compactions s = [])
    (hrun : (write id data).run s = .ok () s') :
    s'.free + recordSpan data.length = s.free ∧
      s'.reclaimable = .ok (s.chain.removedBytes + c.spanOf id) := by
  obtain ⟨hcheck, s₁, happend, hlow⟩ := run_write_eq_ok hrun
  simp only [StoreCommand.compactions, hcheck, happend, List.append_eq_nil_iff] at hquiet
  obtain ⟨hfirst, hlast⟩ := hquiet
  have hroom : ¬ s.free < recordSpan data.length := by
    intro hlt
    simp [hlt] at hfirst
  have hnot : s₁.isLow = false := by
    by_contra hlow
    simp [hlow] at hlast
  obtain ⟨hid, hmin⟩ : isUsableId id = true ∧ minPayload ≤ data.length := by
    rcases checkWrite_of_serves id data h with ⟨e, he, -⟩ | ⟨-, hid, hmin⟩
    · cases he.symm.trans hcheck
    · exact ⟨hid, hmin⟩
  obtain ⟨hs₁, k, hk, h₁, hcurrent, hcursor⟩ :=
    (acts_append_of_room hs h hid hmin hroom).of_ok happend
  rw [← hk.placement_eq] at h₁
  -- Nothing was compacted, so the store is as the append has left it.
  have hsame : s' = s₁ := by
    have hcompact := run_compactIfLow_eq (s := s₁) h₁.inService (reclaimable_of_serves hs₁ h₁)
    rw [hnot] at hcompact
    rcases hlow with ⟨b, hb⟩ | ⟨e, he⟩
    · exact (EStateM.Result.ok.inj (hb.symm.trans hcompact)).2
    · cases he.symm.trans hcompact
  subst hsame
  have hblock : s'.block = s.block := by
    rw [block, hk.placement_eq, show s'.current = s.current from hcurrent, block]
  have hfree : s'.free + recordSpan data.length = s.free := by
    have hcursor' : s'.cursor = s.cursor + recordSpan data.length := hcursor
    rw [free] at hroom
    rw [free, free, hcursor', hblock]
    omega
  -- What can be reclaimed follows from the free space, as the block holds nothing else.
  refine ⟨hfree, reclaimable_of_free hs₁ h₁ ?_⟩
  have hparts := free_add_removedBytes hs h
  have hspan := Contents.span_remove (pairwise_of_serves h) id
  rw [Contents.span_put, hblock]
  omega

/-- An erase leaves what its value took to be reclaimed. -/
lemma space_of_erase (hs : s.Operable) (h : s.view.Serves s.placement c)
    (hrun : (erase id).run s = .ok () s') :
    ∃ data, c.get? id = some data ∧ s'.free = s.free ∧
      s'.reclaimable = .ok (s.chain.removedBytes + recordSpan data.length) := by
  cases hl : c.lookup id with
  | error e => cases (run_erase_of_find (find_of_lookup_error hs h hl)).symm.trans hrun
  | ok data =>
    have hget := (Contents.lookup_eq_ok_iff.1 hl).2
    obtain ⟨hs', k, hk, -, hserves⟩ := (acts_erase hs h hl).of_ok hrun
    obtain ⟨pre, r, post, hfind, hrec, rfl, hlive, -⟩ := find_of_lookup hs h hl
    obtain ⟨-, _, -, -, hv⟩ := (acts_eraseRecord hs h hfind hrec hlive).of_ok hrun
    rw [← hk.placement_eq] at hserves
    have hblock : s'.block = s.block := by
      rw [block, hk.placement_eq, show s'.current = s.current from congrArg View.current hv, block]
    have hfree : s'.free = s.free := by
      rw [free, free, hblock, show s'.cursor = s.cursor from congrArg View.cursor hv]
    refine ⟨data, hget, hfree, reclaimable_of_free hs' hserves ?_⟩
    have hparts := free_add_removedBytes hs h
    have hspan := Contents.span_remove (pairwise_of_serves h) r.id
    rw [Contents.spanOf_of_some hget] at hspan
    rw [hfree, hblock]
    omega

end Store

/-! ### Sessions -/

namespace Session

variable [Addressable δ] [PowerControlled δ] [LawfulPower δ]

/-- Whatever a lawful device, whose pages hold whole words, held at first and whatever commands have
been run: what a store in service has free, what it can reclaim and what the records that it lists
take add up to its block without the header. So a compaction that succeeds turns all that can be
reclaimed into free space, a write that starts no compaction moves the span of its record from free
space, and leaves that of the value it replaces to be reclaimed, and an erase leaves the span of its
value to be reclaimed. -/
theorem space_accounted (d : δ) (p : Placement) (commands : List Command) {s : Store δ}
    (h : (run commands (start d p)).store? = some s) (hin : s.inService = true) :
    ∃ n rs, s.reclaimable = .ok n ∧ s.list = .ok ⟨rs, none⟩ ∧
      s.free + n + Record.totalSpan rs = s.placement.blockSize.toNat - firstRecordOffset ∧
      (∀ s', StoreCommand.compact.run s = (.done, s') ∨
          StoreCommand.compactIfLow.run s = (.flag true, s') →
        s'.free = s.free + n ∧ s'.reclaimable = .ok 0) ∧
      (∀ id data s', (StoreCommand.write id data).compactions s = [] →
        (StoreCommand.write id data).run s = (.done, s') →
        s'.free + recordSpan data.length = s.free ∧
          s'.reclaimable = .ok (n + s.contents.spanOf id)) ∧
      ∀ id s', (StoreCommand.erase id).run s = (.done, s') →
        ∃ data, s.contents.get? id = some data ∧ s'.free = s.free ∧
          s'.reclaimable = .ok (n + recordSpan data.length) := by
  have hsound := (sound_start d p).run commands
  have hs := (hsound s h).operable
  have hserves := hsound.serves h hin
  have hcontents := contents_of_serves hs hserves
  obtain ⟨hlist, hspan⟩ := exists_list_of_serves hs hserves
  rw [← hcontents] at hserves hspan
  refine ⟨s.chain.removedBytes, s.chain.live, reclaimable_of_serves hs hserves, hlist, ?_, ?_, ?_,
    ?_⟩
  · rw [hspan]
    exact free_add_removedBytes hs hserves
  · rintro s' (hcompact | hcompact)
    · obtain ⟨_, -, hrun⟩ := run_of_answer hcompact Answer.done_ne_storeError
      exact space_of_compactNow hs hserves ((run_compact_eq_ok_iff hserves).1 hrun)
    · obtain ⟨b, hb, hrun⟩ := run_of_answer hcompact nofun
      obtain rfl := Answer.flag.inj hb
      exact space_of_compactNow hs hserves (run_compactNow_of_compactIfLow hs hserves hrun)
  · intro id data s' hquiet hwrite
    obtain ⟨_, -, hrun⟩ := run_of_answer hwrite Answer.done_ne_storeError
    exact space_of_write hs hserves hquiet hrun
  · intro id s' herase
    obtain ⟨_, -, hrun⟩ := run_of_answer herase Answer.done_ne_storeError
    exact space_of_erase hs hserves hrun

/-- A value replaced twice: its last record takes 16 of the 16 bytes that were free, and the 12 of
the value before are reclaimable with the 12 of the first. -/
theorem space_accounted_of_replaced_value :
    let x : Session (NorFlash 96 24) := run [.opening .mount none, .store (.write 1 [1, 2, 3, 4]),
      .store (.write 1 [5, 6, 7, 8])] (start NorFlash.blank ⟨0, 48, 48, 0⟩)
    ∃ s s', x.store? = some s ∧ s.inService = true ∧ s.free = 16 ∧ s.reclaimable = .ok 12 ∧
      (StoreCommand.write 1 [1, 2, 3, 4, 5]).run s = (.done, s') ∧ s'.free = 0 ∧
      s'.reclaimable = .ok 24 := by
  intro x
  have hx : x.store?.map (fun s => (s.inService, s.free, s.reclaimable.toOption)) =
      some (true, 16, some 12) := by decide +kernel
  have hx' : x.store?.map (fun s => (s.contents,
      (StoreCommand.write 1 [1, 2, 3, 4, 5]).compactions s,
      ((StoreCommand.write 1 [1, 2, 3, 4, 5]).run s).1.isDone)) =
      some ([⟨1, [5, 6, 7, 8]⟩], [], true) := by decide +kernel
  obtain ⟨s, hs, hfacts⟩ := Option.map_eq_some_iff.1 hx
  rw [hs, Option.map_some, Option.some_inj] at hx'
  simp only [Prod.mk.injEq] at hfacts hx'
  obtain ⟨hin, hfree, hreclaimable⟩ := hfacts
  obtain ⟨hcontents, hquiet, hdone⟩ := hx'
  obtain ⟨n, rs, hn, -, -, -, hwrite, -⟩ := space_accounted NorFlash.blank ⟨0, 48, 48, 0⟩ _ hs hin
  obtain rfl : n = 12 := by simpa [hn, Except.toOption] using hreclaimable
  have hrun : (StoreCommand.write 1 [1, 2, 3, 4, 5]).run s =
      (.done, ((StoreCommand.write 1 [1, 2, 3, 4, 5]).run s).2) :=
    Prod.ext (Answer.isDone_iff.1 hdone) rfl
  obtain ⟨hfree', hn'⟩ := hwrite 1 [1, 2, 3, 4, 5] _ hquiet hrun
  have hspan : recordSpan [1, 2, 3, 4, 5].length = 16 := rfl
  have hold : s.contents.spanOf 1 = 12 := by
    rw [hcontents]
    rfl
  refine ⟨s, _, hs, hin, hfree, hn, hrun, by omega, ?_⟩
  rw [hn', hold]

end Session

end FlashStore
