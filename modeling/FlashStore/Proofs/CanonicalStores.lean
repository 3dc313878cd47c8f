import FlashStore.Proofs.Canonical
import FlashStore.Proofs.Remounting

/-!
# Stores of canonical records

No operation of a store leaves a record that is not canonical, whether it succeeds or the device
fails it. So on flash that no store has been on, or one whose records are canonical, every store
that commands leave holds canonical records only.
-/

namespace FlashStore

open LawfulFlash Store

variable {δ α : Type} [FlashDevice δ]

/-- The records that the store may bring up are canonical. -/
def Store.Canonical (s : Store δ) : Prop := s.placement.Canonical s.word

/-- However it ends, the operation leaves canonical records. -/
def LeavesCanonical (x : StoreM δ α) (s : Store δ) : Prop :=
  Ensures x s (fun _ s' => s'.Canonical) (fun _ s' => s'.Canonical)

variable [LawfulFlash δ] {s : Store δ} {x : StoreM δ α} {c : Contents} {id : Word}
  {data : List UInt8}

namespace LeavesCanonical

omit [LawfulFlash δ] in
lemma answer (h : LeavesCanonical x s) (f : α → Answer) : (x.answer f s).2.Canonical := by
  rcases answer_of_ensures h f with ⟨a, s', ha, hs'⟩ | ⟨e, s', ha, hs'⟩
  · rw [ha]
    exact hs'
  · rw [ha]
    exact hs'

lemma of_acts (h : Acts x s (fun _ _ v => s.placement.Canonical v.word)
    (fun _ _ v => s.placement.Canonical v.word)) : LeavesCanonical x s := by
  refine Ensures.mono h ?_ ?_
  · rintro a s' ⟨-, k, hk, hc⟩
    rw [Store.Canonical, hk.placement_eq]
    exact hc
  · rintro e s' ⟨-, k, hk, -, hc⟩
    rw [Store.Canonical, hk.placement_eq]
    exact hc

lemma withUnlocked (h : LeavesCanonical x s.beginUnlocked) :
    LeavesCanonical (withUnlocked x) s := by
  have hend : ∀ t : Store δ, t.Canonical → t.endUnlocked.Canonical := by
    intro t ht
    rw [Store.Canonical, word_endUnlocked]
    exact ht
  exact Ensures.withUnlocked (Ensures.mono h (fun _ => hend) fun _ => hend)

omit [LawfulFlash δ] in
lemma suspendOnFailure (h : LeavesCanonical x s) : LeavesCanonical (suspendOnFailure x) s :=
  Ensures.suspendOnFailure h

omit [LawfulFlash δ] in
/-- An operation that is refused leaves the store as it is. -/
lemma of_refused {e : StoreError} (h : s.Canonical) (hx : x.run s = .error e s) :
    LeavesCanonical x s := .intro_error hx h

end LeavesCanonical

/-! ### Compactions -/

lemma leavesCanonical_compactNow (hs : s.Operable) (h : s.Canonical)
    (hn : s.placement.newest s.word = some (s.current, s.generation)) :
    LeavesCanonical compactNow s := by
  have hle : s.block.base ≤ s.block.stop := by
    rw [Block.stop_eq]
    omega
  refine .of_acts ((acts_compactNow_compacted hs).mono ?_ ?_)
  · rintro _ k v rfl
    exact Placement.Canonical.compacting hs.regular h hn (.wiping hle (Nat.le_refl _))
  · rintro e k v ⟨-, -, hcut⟩
    exact Placement.Canonical.compacting hs.regular h hn hcut

lemma leavesCanonical_compactIfLow (hs : s.Operable) (hserves : s.view.Serves s.placement c)
    (h : s.Canonical) : LeavesCanonical compactIfLow s := by
  have hcompact := (leavesCanonical_compactNow hs h hserves.consistent.newest).suspendOnFailure
  have hrun := run_compactIfLow_eq hserves.inService (reclaimable_of_serves hs hserves)
  by_cases hlow : s.isLow = true
  · rw [if_pos hlow] at hrun
    exact Ensures.congr (Ensures.bind hcompact fun _ _ h' => Ensures.pure h') hrun
  · rw [if_neg hlow] at hrun
    exact .intro_ok hrun h

/-! ### Writes and erases -/

lemma leavesCanonical_placeRecord (hs : s.Operable) (hu : s.unlockDepth ≠ 0)
    (hserves : s.view.Serves s.placement c) (h : s.Canonical) (hid : isUsableId id = true)
    (hmin : minPayload ≤ data.length) (hfit : s.cursor + recordSpan data.length ≤ s.block.stop) :
    LeavesCanonical (placeRecord id data) s := by
  have ht : Tracked s.placement s.word s.current s.generation s.cursor :=
    hserves.consistent.toTracked
  have hspan := recordSpan_lt_of_fit hs hfit
  have hold : ∀ r ∈ (recordsOf s.word s.block).find? (·.id == id),
      r ∈ recordsOf s.word s.block := fun r hr => List.mem_of_find?_eq_some hr
  refine .of_acts ((acts_placeRecord hs hu hserves hid hmin hfit).mono ?_ ?_)
  · rintro _ k v ⟨-, rfl⟩
    exact Placement.Canonical.stored hs.regular h ht hold hid hmin hfit hspan
  · rintro e k v ⟨-, -, -, hcut⟩
    exact Placement.Canonical.storing hs.regular h ht hold hid hmin hfit hspan hcut

lemma leavesCanonical_append (hs : s.Operable) (hu : s.unlockDepth ≠ 0)
    (hserves : s.view.Serves s.placement c) (h : s.Canonical) (hid : isUsableId id = true)
    (hmin : minPayload ≤ data.length) : LeavesCanonical (append id data) s := by
  have hfit : ∀ t : Store δ, t.Operable → ¬ t.free < recordSpan data.length →
      t.cursor + recordSpan data.length ≤ t.block.stop := by
    intro t ht hroom
    have hle := ht.le_stop
    rw [free] at hroom
    omega
  rw [append_eq]
  show Ensures (if s.free < recordSpan data.length then _ else _ : StoreM δ Unit) s _ _
  by_cases hfree : s.free < recordSpan data.length
  · rw [if_pos hfree]
    have hcompact := Ensures.and (acts_compactNow hs hserves.consistent.newest)
      (leavesCanonical_compactNow hs h hserves.consistent.newest)
    refine Ensures.bind (hcompact.mono (fun _ _ h => h) fun _ _ h => h.2) ?_
    rintro _ s₁ ⟨⟨hs₁, k, hk, hin, hc, hpers, -⟩, h₁⟩
    have hserves₁ : s₁.view.Serves s₁.placement c := by
      rw [hk.placement_eq]
      exact ⟨hin.trans hserves.inService, hc, hpers.trans hserves.persisted⟩
    show Ensures (if s₁.free < recordSpan data.length then _ else _ : StoreM δ Unit) s₁ _ _
    by_cases hfree₁ : s₁.free < recordSpan data.length
    · rw [if_pos hfree₁]
      exact .intro_error rfl h₁
    · rw [if_neg hfree₁]
      exact leavesCanonical_placeRecord hs₁ (hk.unlockDepth_eq ▸ hu) hserves₁ h₁ hid hmin
        (hfit s₁ hs₁ hfree₁)
  · rw [if_neg hfree]
    exact leavesCanonical_placeRecord hs hu hserves h hid hmin (hfit s hs hfree)

lemma leavesCanonical_write (hs : s.Operable) (hserves : s.view.Serves s.placement c)
    (h : s.Canonical) (id : Word) (data : List UInt8) : LeavesCanonical (write id data) s := by
  rcases checkWrite_of_serves id data hserves with ⟨e, hcheck, -⟩ | ⟨hcheck, hid, hmin⟩
  · exact .of_refused h (run_write_of_checkWrite hcheck)
  · have hbegin : s.beginUnlocked.Canonical := by
      rw [Store.Canonical, word_beginUnlocked]
      exact h
    have happend := (leavesCanonical_append hs.beginUnlocked (Nat.succ_ne_zero _)
      ((view_beginUnlocked s).symm ▸ hserves) hbegin hid hmin).withUnlocked.suspendOnFailure
    have hboth := Ensures.and (acts_suspending_append hs hserves hid hmin) happend
    unfold write
    refine Ensures.query_bind hcheck ?_
    refine Ensures.bind (hboth.mono (fun _ _ h => h) fun _ _ h => h.2) ?_
    rintro _ s₁ ⟨⟨hs₁, k, hk, hserves₁, -⟩, h₁⟩
    rw [← hk.placement_eq] at hserves₁
    refine Ensures.tryCatch (E := fun _ (s' : Store δ) => s'.Canonical)
      (Ensures.bind (leavesCanonical_compactIfLow hs₁ hserves₁ h₁) ?_) ?_
    · exact fun _ _ h₂ => Ensures.pure h₂
    · exact fun _ _ h₂ => Ensures.pure h₂

lemma leavesCanonical_erase (hs : s.Operable) (hv : s.view.Valid s.placement) (h : s.Canonical)
    (id : Word) : LeavesCanonical (erase id) s := by
  cases hfind : find id s with
  | error e => exact .of_refused h (run_erase_of_find hfind)
  | ok found =>
    obtain ⟨hin, data, hl⟩ := exists_lookup_of_find hs hv hfind
    have hserves := hv.serves hin
    obtain ⟨pre, r, post, hfind', hrec, rfl, hlive, -⟩ := find_of_lookup hs hserves hl
    have hmem : r ∈ recordsOf s.word s.block := hrec ▸ List.mem_append_right pre List.mem_cons_self
    have ht : Tracked s.placement s.word s.current s.generation s.cursor :=
      hserves.consistent.toTracked
    refine .of_acts ((acts_eraseRecord hs hserves hfind' hrec hlive).mono ?_ ?_)
    · rintro _ k v ⟨-, rfl⟩
      exact Placement.Canonical.cleared hs.regular h ht hmem
    · rintro e k v ⟨-, hk, -, hword⟩
      rw [hword]
      exact Placement.Canonical.clearing hs.regular h ht hmem hk

/-! ### Formats and recoveries -/

lemma leavesCanonical_format (hs : s.Operable) (h : s.Canonical) : LeavesCanonical format s := by
  refine .of_acts ((acts_format hs).mono ?_ ?_)
  · rintro _ k v ⟨-, rfl⟩
    exact Placement.Canonical.formatted hs.regular h
  · rintro e k v ⟨-, -, -, hcut⟩
    exact Placement.Canonical.formatting hs.regular h hcut

/-- The removal of one record keeps the chain and leaves canonical records. -/
lemma ensures_removeRecord {r : Record} {pre post : List Record} (hs : s.Operable)
    (h : s.Canonical) (ht : Tracked s.placement s.word s.current s.generation s.cursor)
    (hrec : recordsOf s.word s.block = pre ++ r :: post) :
    Ensures (withUnlocked (onDevice (removeRecord r))) s
      (fun _ s' => s'.Operable ∧ s'.Canonical ∧
        Tracked s'.placement s'.word s'.current s'.generation s'.cursor ∧
        recordsOf s'.word s'.block = pre ++ r.removed :: post)
      (fun _ s' => s'.Canonical) := by
  have hr : r ∈ recordsOf s.word s.block := hrec ▸ List.mem_append_right pre List.mem_cons_self
  have hremove := acts_removeRecord hs.beginUnlocked (Nat.succ_ne_zero _)
    (by rw [word_beginUnlocked]; exact ht) (by rw [word_beginUnlocked]; exact hr)
  rw [word_beginUnlocked, view_beginUnlocked] at hremove
  have hleaves : LeavesCanonical (withUnlocked (onDevice (removeRecord r))) s := by
    refine .of_acts (hremove.withUnlocked.mono ?_ ?_)
    · rintro _ k v ⟨-, rfl⟩
      exact Placement.Canonical.cleared hs.regular h ht hr
    · rintro e k v ⟨-, hk, rfl⟩
      exact Placement.Canonical.clearing hs.regular h ht hr hk
  refine (Ensures.and hremove.withUnlocked hleaves).mono ?_ fun _ _ h => h.2
  rintro _ s' ⟨⟨hs', k, hk, -, hv⟩, h'⟩
  have hword : s'.word = cleared s.word r := congrArg View.word hv
  have hcur : s'.current = s.current := congrArg View.current hv
  have hgen : s'.generation = s.generation := congrArg View.generation hv
  have hcursor : s'.cursor = s.cursor := congrArg View.cursor hv
  obtain ⟨ht', hrec'⟩ := ht.of_cleared hs.regular hrec
  rw [block, hk.placement_eq, hword, hcur, hgen, hcursor]
  exact ⟨hs', h', ht', hrec'⟩

/-- So does the removal of one after another. -/
lemma leavesCanonical_removeEach {rs : List Record} (hs : s.Operable) (h : s.Canonical)
    (ht : Tracked s.placement s.word s.current s.generation s.cursor)
    (hrs : rs.Sublist (recordsOf s.word s.block)) :
    LeavesCanonical (rs.forM fun r => withUnlocked (onDevice (removeRecord r))) s := by
  induction rs generalizing s with
  | nil => exact Ensures.pure h
  | cons r rs ih =>
    obtain ⟨before, post, hrec, hmem, hrest⟩ := List.cons_sublist_iff.1 hrs
    obtain ⟨pre, mid, rfl⟩ := List.append_of_mem hmem
    rw [List.append_assoc, List.cons_append] at hrec
    refine Ensures.bind (ensures_removeRecord hs h ht hrec) ?_
    rintro _ s₁ ⟨hs₁, h₁, ht₁, hrec₁⟩
    -- What is left to remove stands behind the removed record, so it is still there.
    have hleft : rs.Sublist (recordsOf s₁.word s₁.block) := by
      rw [hrec₁]
      exact hrest.trans ((List.sublist_append_right mid post).trans
        ((List.sublist_cons_self _ _).trans (List.sublist_append_right pre _)))
    exact ih hs₁ h₁ ht₁ hleft

lemma leavesCanonical_settle (hs : s.Operable) (h : s.Canonical)
    (ht : Tracked s.placement s.word s.current s.generation s.cursor) :
    LeavesCanonical settle s := by
  have heach := leavesCanonical_removeEach hs h ht (superseded_sublist _)
  have hremove : LeavesCanonical removeSuperseded s := by
    show Ensures ((query fun _ => s.chain.requireIntact) >>= fun _ =>
      (superseded s.chain.records).forM fun r => withUnlocked (onDevice (removeRecord r))) s _ _
    refine Ensures.bind (Q := fun _ s' => s' = s) (E := fun _ s' => s'.Canonical)
      (.intro_ok (a := ()) ?_ rfl) ?_
    · have hchain : s.chain = ⟨recordsOf s.word s.block, endAt s.block.stop s.cursor⟩ :=
        ht.chain_eq hs.regular
      rw [run_query, hchain, requireIntact_endAt]
    · rintro _ _ rfl
      exact heach
  exact Ensures.bind hremove fun _ s' h' => Ensures.modify (h' : s'.Canonical)

lemma leavesCanonical_repair (hs : s.Operable) (h : s.Canonical)
    (hn : s.placement.newest s.word = some (s.current, s.generation))
    (hcursor : s.cursor = s.chain.freeAddress s.block) : LeavesCanonical repair s := by
  show Ensures (if s.needsRepair = true then compactNow >>= fun _ => settle
    else settle : StoreM δ Unit) s _ _
  by_cases hrep : s.needsRepair = true
  · rw [if_pos hrep]
    have hcompact := Ensures.and (acts_compactNow hs hn) (leavesCanonical_compactNow hs h hn)
    refine Ensures.bind (hcompact.mono (fun _ _ h => h) fun _ _ h => h.2) ?_
    rintro _ s₁ ⟨⟨hs₁, k, hk, -, hc, -⟩, h₁⟩
    rw [← hk.placement_eq] at hc
    exact leavesCanonical_settle hs₁ h₁ hc.toTracked
  · rw [if_neg hrep]
    exact leavesCanonical_settle hs h
      (tracked_of_needsRepair hs.regular hn hcursor (Bool.not_eq_true _ ▸ hrep))

lemma leavesCanonical_recover (hs : s.Operable) (h : s.Canonical) :
    LeavesCanonical recover s := by
  cases hn : s.newest? with
  | none =>
    exact Ensures.congr (leavesCanonical_format (s := s.retire) hs.suspended h)
      (run_recover_of_none hn)
  | some found =>
    obtain ⟨side, g⟩ := found
    exact Ensures.congr (leavesCanonical_repair (s := resume side g s.retire)
      (hs.suspended.resume side g) h hn rfl) (run_recover_of_newest hn)

/-! ### Commands -/

/-- Every command to a valid store leaves canonical records. -/
theorem StoreCommand.canonical [Addressable δ] (hs : s.Operable) (hv : s.view.Valid s.placement)
    (h : s.Canonical) (command : StoreCommand) : (command.run s).2.Canonical := by
  cases command with
  | recover => exact (leavesCanonical_recover hs h).answer _
  | format => exact (leavesCanonical_format hs h).answer _
  | compact =>
    by_cases hin : s.inService = true
    · have hserves := hv.serves hin
      have hcompact := (leavesCanonical_compactNow hs h hserves.consistent.newest).suspendOnFailure
      have hrun : (Store.compact : StoreM δ Unit).run s = (suspendOnFailure compactNow).run s := by
        rw [Store.compact, EStateM.run_bind, run_query, requireService_of_serves hserves]
      exact LeavesCanonical.answer (Ensures.congr hcompact hrun) _
    · have hrefused := run_compact_of_requireService (requireService_of_not hin)
      exact (LeavesCanonical.of_refused h hrefused).answer _
  | compactIfLow =>
    by_cases hin : s.inService = true
    · exact (leavesCanonical_compactIfLow hs (hv.serves hin) h).answer _
    · have hrefused := run_compactIfLow_of_requireService (requireService_of_not hin)
      exact (LeavesCanonical.of_refused h hrefused).answer _
  | write id data =>
    by_cases hin : s.inService = true
    · exact (leavesCanonical_write hs (hv.serves hin) h id data).answer _
    · obtain ⟨e, hcheck, -⟩ := exists_checkWrite_error id data hin
      exact (LeavesCanonical.of_refused h (run_write_of_checkWrite hcheck)).answer _
  | erase id => exact (leavesCanonical_erase hs hv h id).answer _
  | read | readInto | contains | reclaimable | list => exact h

/-! ### Sessions -/

/-- The command opens no store at another placement. -/
def Command.StaysAt (p : Placement) : Command → Prop
  | opening _ (some q) => q = p
  | _ => True

namespace Session

variable [Addressable δ] [PowerControlled δ] {x : Session δ}

/-- The records on flash that a recovery may bring up are canonical. -/
def Canonical (x : Session δ) : Prop := x.placement.Canonical (FlashDevice.readWord x.device)

omit [LawfulFlash δ] [Addressable δ] [PowerControlled δ] in
lemma Canonical.setDevice (h : x.Canonical) {d : δ}
    (hword : FlashDevice.readWord d = FlashDevice.readWord x.device) :
    (x.setDevice d).Canonical := by
  rw [Canonical, placement_setDevice, device_setDevice, hword]
  exact h

lemma Canonical.call (h : x.Canonical) (hx : x.Sound) (command : StoreCommand) :
    (x.step (.store command)).2.Canonical := by
  cases hs : x.store? with
  | none =>
    rw [step_call_of_none hs]
    exact h
  | some s =>
    obtain ⟨hplacement, -, hop, hvalid⟩ := hx s hs
    obtain ⟨-, k, hends, -⟩ := hx.call hs command
    have hcanonical : s.Canonical := by
      rw [Canonical, device_of_store? hs, ← hplacement] at h
      exact h
    have hleft := StoreCommand.canonical hop (hplacement ▸ hvalid) hcanonical command
    rw [Store.Canonical, hends.continues.placement_eq, hplacement] at hleft
    rw [step_call hs]
    exact hleft

variable [LawfulPower δ]

lemma Canonical.opening (h : x.Canonical) (how : Opening) :
    (x.step (.opening how none)).2.Canonical := by
  have hword := readWord_opened how x.device
  rw [step_opening]
  cases hattach : attach (opened how x.device) x.placement with
  | error e =>
    rw [Canonical, ← hword] at h
    exact h
  | ok s =>
    obtain ⟨hsound, hdevice⟩ := sound_of_attach hattach
    have hopen : Canonical (⟨x.placement, .store s⟩ : Session δ) := by
      rw [Canonical, ← hword, ← hdevice] at h
      exact h
    dsimp only
    split
    · exact hopen
    · exact hopen.call hsound .recover

/-- Every event leaves canonical records. -/
lemma Canonical.step (h : x.Canonical) (hx : x.Sound) (e : Event) :
    (x.step e.command).2.Canonical := by
  cases e with
  | opening how => exact h.opening how
  | call command => exact h.call hx command
  | cutPowerAfter n => exact h.setDevice (LawfulPower.readWord_cutPowerAfter n _)
  | restorePower => exact h.setDevice (LawfulPower.readWord_restorePower _)

lemma Canonical.step_command (h : x.Canonical) (hx : x.Sound) {command : Command}
    (hstays : command.StaysAt x.placement) :
    (x.step command).2.placement = x.placement ∧ (x.step command).2.Canonical := by
  cases command with
  | opening how placement =>
    have hnone := And.intro (hx.step (.opening how)).2 (h.opening how)
    cases placement with
    | none => exact hnone
    | some q =>
      obtain rfl : q = x.placement := hstays
      exact hnone
  | store command => exact ⟨(hx.step (.call command)).2, h.call hx command⟩
  | setting command =>
    obtain ⟨calls, -, hcalls⟩ := step_setting command x
    rw [hcalls]
    exact ⟨(hx.play _).2, Sound.play_induction (A := fun _ => True)
      (fun y e hy _ h => h.step hy e) hx h fun _ _ => trivial⟩
  | cutPowerAfter n => exact ⟨(hx.step (.cutPowerAfter n)).2, h.step hx (.cutPowerAfter n)⟩
  | restorePower => exact ⟨(hx.step .restorePower).2, h.step hx .restorePower⟩

/-- On flash that holds canonical records commands leave canonical records. -/
theorem canonical_run {d : δ} {p : Placement} (hd : p.Canonical (FlashDevice.readWord d))
    {commands : List Command} (hcommands : ∀ command ∈ commands, command.StaysAt p) :
    (run commands (start d p)).placement = p ∧ (run commands (start d p)).Canonical := by
  refine Sound.run_induction (A := fun command => command.StaysAt p)
    (P := fun x => x.placement = p ∧ x.Canonical) ?_ (sound_start d p) ⟨rfl, hd⟩ hcommands
  rintro x command hx hstays ⟨rfl, h⟩
  exact h.step_command hx hstays

end Session

end FlashStore
