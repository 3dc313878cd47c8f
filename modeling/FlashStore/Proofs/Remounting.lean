import FlashStore.Proofs.Simulation
import FlashStore.Proofs.Space

/-!
# Recovering a store in service

What a store keeps in memory is a function of flash. So a recovery of a store in service comes to
the same as opening another store in its place, and finds the store as it is. As long as there is
free space it leaves flash alone; a full block is compacted, once.
-/

namespace FlashStore

open LawfulFlash Store

variable {δ α β : Type} [FlashDevice δ]

namespace Store

variable {s t : Store δ} {side : Side} {g : Word}

/-! ### What a recovery depends on -/

lemma run_recover_of_none (hn : s.newest? = none) :
    (recover : StoreM δ Unit).run s = format.run s.retire := by
  have hretire : newest? { s with inService := false } = none := hn
  unfold recover
  rw [EStateM.run_bind, EStateM.run_modify]
  dsimp only
  rw [EStateM.run_bind, EStateM.run_get]
  dsimp only
  rw [hretire]
  rfl

lemma run_recover_of_newest (hn : s.newest? = some (side, g)) :
    (recover : StoreM δ Unit).run s = repair.run (resume side g s.retire) := by
  have hretire : newest? { s with inService := false } = some (side, g) := hn
  unfold recover
  rw [EStateM.run_bind, EStateM.run_modify]
  dsimp only
  rw [EStateM.run_bind, EStateM.run_get]
  dsimp only
  rw [hretire]
  rfl

/-- Where a block is in use, all that is kept in memory is rebuilt from flash. -/
lemma run_recover_congr (hdevice : t.device = s.device) (hplacement : t.placement = s.placement)
    (hdepth : t.unlockDepth = s.unlockDepth) (hn : s.newest? = some (side, g)) :
    (recover : StoreM δ Unit).run t = recover.run s := by
  obtain ⟨d, p, current, generation, cursor, inService, depth⟩ := s
  obtain ⟨d', p', current', generation', cursor', inService', depth'⟩ := t
  obtain rfl : d' = d := hdevice
  obtain rfl : p' = p := hplacement
  obtain rfl : depth' = depth := hdepth
  have hn' : newest? ⟨d', p', current', generation', cursor', inService', depth'⟩ =
    some (side, g) := hn
  rw [run_recover_of_newest hn, run_recover_of_newest hn']
  rfl

end Store

/-! ### Operations that do not ask for service -/

/-- The operation neither asks whether the store is in service nor changes that. -/
def Unserviced (x : StoreM δ α) : Prop :=
  ∀ s, x.run s.retire =
    match x.run s with
    | .ok a t => .ok a t.retire
    | .error e t => .error e t.retire

namespace Unserviced

variable {x : StoreM δ α}

omit [FlashDevice δ] in
lemma bind {f : α → StoreM δ β} (hx : Unserviced x) (hf : ∀ a, Unserviced (f a)) :
    Unserviced (x >>= f) := by
  intro s
  rw [EStateM.run_bind, EStateM.run_bind, hx s]
  cases x.run s with
  | ok a t => exact hf a t
  | error e t => rfl

omit [FlashDevice δ] in
lemma get_bind {f : Store δ → StoreM δ α} (hs : ∀ s, f s.retire = f s)
    (hf : ∀ s, Unserviced (f s)) : Unserviced (get >>= f) := by
  intro s
  show (f s.retire).run s.retire = _
  rw [hs s]
  exact hf s s

omit [FlashDevice δ] in
lemma modify {g : Store δ → Store δ} (hg : ∀ s, g s.retire = (g s).retire) :
    Unserviced (modify g) :=
  fun s => congrArg (EStateM.Result.ok PUnit.unit) (hg s)

omit [FlashDevice δ] in
lemma onDevice (x : ProgramM δ α) : Unserviced (onDevice x) := by
  intro s
  have hdevice : s.retire.device = s.device := rfl
  rw [run_onDevice, run_onDevice, hdevice]
  cases x.run s.device with
  | ok a d => rfl
  | error e d => rfl

lemma withUnlocked (hx : Unserviced x) : Unserviced (withUnlocked x) := by
  intro s
  have hbegin : s.retire.beginUnlocked = s.beginUnlocked.retire := rfl
  rw [run_withUnlocked, run_withUnlocked, hbegin, hx s.beginUnlocked]
  cases x.run s.beginUnlocked with
  | ok a t => rfl
  | error e t => rfl

lemma compactNow : Unserviced (compactNow : StoreM δ Unit) := by
  refine .withUnlocked ?_
  refine .get_bind (fun _ => rfl) fun s => .get_bind (fun _ => rfl) fun s' => ?_
  refine .bind (.onDevice _) fun _ => .get_bind (fun _ => rfl) fun s₁ => ?_
  refine .get_bind (fun _ => rfl) fun s₂ => .bind (.onDevice _) fun cursor => ?_
  exact .bind (.modify fun _ => rfl) fun _ => .onDevice _

end Unserviced

/-! ### What a recovery finds -/

section Lawful

variable [LawfulFlash δ] {s : Store δ} {c : Contents}

lemma freeAddress_endAt {block : Block} {cursor : Nat} (rs : List Record)
    (h : cursor ≤ block.stop) :
    (Chain.mk rs (endAt block.stop cursor)).freeAddress block = cursor := by
  unfold endAt
  split
  · rfl
  · show block.stop = cursor
    omega

namespace Store

lemma resume_of_serves (hs : s.Operable) (h : s.view.Serves s.placement c) :
    s.retire.resume s.current s.generation = s.retire := by
  have hcursor : s.chain.freeAddress s.block = s.cursor := by
    rw [chain_of_serves hs h, freeAddress_endAt _ hs.le_stop]
  show { s.retire with cursor := s.chain.freeAddress s.block } = s.retire
  rw [hcursor]
  rfl

/-- A store in service needs repair only if its block is full. -/
lemma needsRepair_of_serves (hs : s.Operable) (h : s.view.Serves s.placement c) :
    s.needsRepair = true ↔ s.free = 0 := by
  have hle := hs.le_stop
  have hfree : s.free = s.block.stop - s.cursor := rfl
  rw [needsRepair, chain_of_serves hs h, endAt]
  split_ifs with hcursor
  · have hclean : ¬ ((s.block.wordsFrom s.cursor).any fun a => s.word a != Word.erased) = true := by
      rw [List.any_eq_true]
      rintro ⟨a, ha, hword⟩
      obtain ⟨h₁, h₂, h₃⟩ := Block.mem_wordsFrom.1 ha
      have hmod : s.cursor % 4 = 0 := h.consistent.cursor_mod hs.regular
      exact bne_iff_ne.1 hword (h.consistent.erased a h₁ h₂ (by omega))
    exact iff_of_false hclean (by omega)
  · exact iff_of_true rfl (by omega)

omit [LawfulFlash δ] in
/-- There is nothing to settle in a consistent store. -/
lemma run_settle_of_consistent (hp : s.placement.Regular)
    (hc : Consistent s.placement s.word s.current s.generation s.cursor) :
    (settle : StoreM δ Unit).run s = .ok () s.serve := by
  have hchain : s.chain = ⟨recordsOf s.word s.block, endAt s.block.stop s.cursor⟩ := hc.chain_eq hp
  have hnone : (removeSuperseded : StoreM δ Unit).run s = .ok () s := by
    have hsuperseded : superseded s.chain.records = [] := by
      rw [hchain]
      exact hc.distinct.superseded_eq
    have hintact : s.chain.requireIntact = .ok () := by rw [hchain, requireIntact_endAt]
    show ((query fun _ => s.chain.requireIntact) >>= fun _ => (superseded s.chain.records).forM
      fun r => withUnlocked (onDevice (removeRecord r)) : StoreM δ Unit).run s = _
    rw [EStateM.run_bind, run_query, hintact, hsuperseded]
    rfl
  rw [settle, EStateM.run_bind, hnone]
  rfl

/-- A recovery of a store in service starts from the store out of service. -/
lemma run_recover_of_serves (hs : s.Operable) (h : s.view.Serves s.placement c) :
    (recover : StoreM δ Unit).run s = repair.run s.retire := by
  have hn : s.newest? = some (s.current, s.generation) := h.consistent.newest
  rw [run_recover_of_newest hn, resume_of_serves hs h]

/-- With free space left a recovery leaves a store in service as it is. -/
lemma run_recover_of_free (hs : s.Operable) (h : s.view.Serves s.placement c)
    (hfree : 0 < s.free) : (recover : StoreM δ Unit).run s = .ok () s := by
  have hrepair : ¬ s.retire.needsRepair = true :=
    fun hneeds => Nat.ne_of_gt hfree ((needsRepair_of_serves hs h).1 hneeds)
  rw [run_recover_of_serves hs h]
  show (if s.retire.needsRepair = true then _ else settle : StoreM δ Unit).run s.retire = _
  rw [if_neg hrepair, run_settle_of_consistent (s := s.retire) hs.regular h.consistent,
    show s.retire.serve = s from serve_eq h.inService]

/-- The recovery of a full block is a compaction. -/
lemma run_recover_of_full (hs : s.Operable) (h : s.view.Serves s.placement c)
    (hfree : s.free = 0) : (recover : StoreM δ Unit).run s = compact.run s := by
  have hrepair : s.retire.needsRepair = true := (needsRepair_of_serves hs h).2 hfree
  have hcompact := acts_compactNow hs h.consistent.newest
  rw [run_recover_of_serves hs h]
  show (if s.retire.needsRepair = true then compactNow >>= fun _ => settle
    else _ : StoreM δ Unit).run s.retire = (query requireService >>= fun _ =>
      suspendOnFailure compactNow : StoreM δ Unit).run s
  rw [if_pos hrepair, EStateM.run_bind, Unserviced.compactNow s, EStateM.run_bind, run_query,
    requireService_of_serves h]
  simp only [run_suspendOnFailure]
  cases hrun : (compactNow : StoreM δ Unit).run s with
  | ok u t =>
    obtain ⟨ht, k, hk, hin, hc, -⟩ := hcompact.of_ok hrun
    rw [← hk.placement_eq] at hc
    show (settle : StoreM δ Unit).run t.retire = _
    rw [run_settle_of_consistent (s := t.retire) ht.regular hc,
      show t.retire.serve = t from serve_eq (hin.trans h.inService)]
  | error e t =>
    obtain ⟨-, k, -, -, he, -⟩ := hcompact.of_error hrun
    show EStateM.Result.error e t.retire = .error e (t.suspend e)
    rw [suspend_of_isDisruptive he.isDisruptive]

end Store

end Lawful

/-! ### Sessions -/

namespace Session

variable [LawfulFlash δ] [Addressable δ] [PowerControlled δ] {x : Session δ} {s : Store δ}

omit [FlashDevice δ] [LawfulFlash δ] [Addressable δ] [PowerControlled δ] in
lemma store?_setDevice (h : x.store? = some s) (d : δ) :
    (x.setDevice d).store? = some { s with device := d } := by
  rw [eq_of_store? h]
  rfl

/-- No operation is under way between commands. -/
def Idle (x : Session δ) : Prop := ∀ s, x.store? = some s → s.unlockDepth = 0

omit [FlashDevice δ] [LawfulFlash δ] [Addressable δ] [PowerControlled δ] in
lemma Idle.setDevice (h : x.Idle) (d : δ) : (x.setDevice d).Idle := by
  obtain ⟨p, d' | s⟩ := x
  · exact nofun
  · rintro _ ⟨rfl⟩
    exact h s rfl

lemma Idle.call (h : x.Idle) (hx : x.Sound) (command : StoreCommand) :
    (x.step (.store command)).2.Idle := by
  cases hs : x.store? with
  | none =>
    rw [step_call_of_none hs]
    exact h
  | some s =>
    obtain ⟨-, k, hends, -⟩ := hx.call hs command
    rw [step_call hs]
    rintro _ ⟨rfl⟩
    exact hends.continues.unlockDepth_eq.trans (h s hs)

lemma idle_opening (how : Opening) (x : Session δ) : (x.step (.opening how none)).2.Idle := by
  rw [step_opening]
  cases hattach : attach (opened how x.device) x.placement with
  | error e => exact nofun
  | ok s =>
    have hidle : Idle (⟨x.placement, .store s⟩ : Session δ) := by
      rintro _ ⟨rfl⟩
      rw [(attach_eq_ok hattach).2]
    dsimp only
    split
    · exact hidle
    · exact hidle.call (sound_of_attach hattach).1 .recover

lemma Idle.step (h : x.Idle) (hx : x.Sound) (e : Event) : (x.step e.command).2.Idle := by
  cases e with
  | opening how => exact idle_opening how x
  | call command => exact h.call hx command
  | cutPowerAfter n => exact h.setDevice _
  | restorePower => exact h.setDevice _

/-- To open another store in place of one in service comes to the same as to recover it. -/
lemma step_mount (hx : x.Sound) (hidle : x.Idle) (h : x.store? = some s)
    (hin : s.inService = true) :
    x.step (.opening .mount none) = x.step (.store .recover) := by
  obtain ⟨hplacement, haccepts, -⟩ := hx s h
  have hmount : Opening.mount ≠ .attach := nofun
  have hdevice : opened .mount x.device = s.device := device_of_store? h
  obtain ⟨t, hattach⟩ := attach_of_accepts haccepts
  have ht := (attach_eq_ok hattach).2
  rw [← hdevice] at hattach
  have hn : s.newest? = some (s.current, s.generation) := (hx.serves h hin).consistent.newest
  have hrun : (recover : StoreM δ Unit).run t = recover.run s := by
    refine run_recover_congr ?_ ?_ ?_ hn
    · rw [ht]
    · rw [ht, hplacement]
    · rw [ht, hidle s h]
  have hanswer : StoreCommand.recover.run t = StoreCommand.recover.run s := by
    simp only [StoreCommand.run, StoreM.answer, hrun]
  rw [step_opening_of_attach hmount hattach, step_call h, step_call (s := t) rfl, hanswer]

/-- With free space left a recovery finds everything as it is. -/
lemma recovered_of_free (hx : x.Sound) (hidle : x.Idle) (h : x.store? = some s)
    (hin : s.inService = true) (hfree : 0 < s.free) :
    x.step (.store .recover) = (.done, x) ∧ x.step (.opening .mount none) = (.done, x) := by
  have hrun := run_recover_of_free (hx s h).operable (hx.serves h hin) hfree
  have hrecover : x.step (.store .recover) = (.done, x) := by
    rw [step_call h, StoreCommand.run, answer_of_ok hrun, ← eq_of_store? h]
  exact ⟨hrecover, (step_mount hx hidle h hin).trans hrecover⟩

/-- A compaction frees what can be reclaimed, and goes over to the other block. -/
lemma compacted_of_healthy (hx : x.Sound) (h : x.store? = some s) (hin : s.inService = true)
    (hhealthy : s.Healthy) :
    ∃ n s', s.reclaimable = .ok n ∧
      x.step (.store .compact) = (.done, ⟨s.placement, .store s'⟩) ∧ s'.inService = true ∧
      s'.contents = s.contents ∧ s'.current = s.current.other ∧
      s'.generation = s.generation + 1 ∧ s'.free = s.free + n := by
  obtain ⟨hplacement, -, hs, -⟩ := hx s h
  have hserves := hx.serves h hin
  obtain ⟨s', hrun, hcurrent, hgeneration⟩ := exists_compactNow_of_healthy hs hhealthy
  obtain ⟨hs', -, hserves', -⟩ := serves_of_compactNow hs hserves hrun
  refine ⟨s.chain.removedBytes, s', reclaimable_of_serves hs hserves, ?_, hserves'.inService, ?_,
    hcurrent, hgeneration, (space_of_compactNow hs hserves hrun).1⟩
  · rw [step_call h, StoreCommand.run, answer_of_ok ((run_compact_eq_ok_iff hserves).2 hrun),
      hplacement]
  · rw [contents_of_serves hs' hserves', contents_of_serves hs hserves]

variable [LawfulPower δ]

lemma Idle.step_command (h : x.Idle) (hx : x.Sound) (command : Command) :
    (x.step command).2.Idle := by
  cases command with
  | opening how placement =>
    cases placement with
    | none => exact idle_opening how x
    | some p => exact idle_opening how ⟨p, x.mount⟩
  | store command => exact h.call hx command
  | setting command =>
    obtain ⟨calls, -, hcalls⟩ := step_setting command x
    rw [hcalls]
    exact Sound.play_induction (A := fun _ => True) (fun y e hy _ hidle => hidle.step hy e) hx h
      fun _ _ => trivial
  | cutPowerAfter n => exact h.setDevice _
  | restorePower => exact h.setDevice _

lemma idle_run (commands : List Command) (d : δ) (p : Placement) :
    (run commands (start d p)).Idle :=
  Sound.run_induction (A := fun _ => True) (fun _ command hx _ h => h.step_command hx command)
    (sound_start d p) nofun fun _ _ => trivial

/-- Whatever a lawful device, whose pages hold whole words, held at first and whatever commands have
been run: what a store in service keeps in memory is a function of flash. To recover it, and to
mount another store in its place, comes to the same. With free space left it neither programs nor
erases and finds the store and its device as they are, also when power is cut before. In a full
block it is one compaction: on a healthy device it keeps the contents in order, goes over to the
other block and the next generation, and frees what could be reclaimed. -/
theorem recovered_in_place (d : δ) (p : Placement) (commands : List Command) {s : Store δ}
    (h : (run commands (start d p)).store? = some s) (hin : s.inService = true) :
    let x := run commands (start d p)
    (0 < s.free → x.step (.store .recover) = (.done, x) ∧
      x.step (.opening .mount none) = (.done, x) ∧
      ∀ n, let y := (x.step (.cutPowerAfter n)).2
        y.step (.store .recover) = (.done, y) ∧ y.step (.opening .mount none) = (.done, y)) ∧
    (s.free = 0 → x.step (.store .recover) = x.step (.store .compact) ∧
      x.step (.opening .mount none) = x.step (.store .compact) ∧
      (s.Healthy → ∃ n s', s.reclaimable = .ok n ∧
        x.step (.store .compact) = (.done, ⟨s.placement, .store s'⟩) ∧ s'.inService = true ∧
        s'.contents = s.contents ∧ s'.current = s.current.other ∧
        s'.generation = s.generation + 1 ∧ s'.free = s.free + n)) := by
  intro x
  have hx : x.Sound := (sound_start d p).run commands
  have hidle : x.Idle := idle_run commands d p
  constructor
  · intro hfree
    obtain ⟨hrecover, hmount⟩ := recovered_of_free hx hidle h hin hfree
    refine ⟨hrecover, hmount, fun n => ?_⟩
    exact recovered_of_free (hx.cutPowerAfter n).1 (hidle.setDevice _) (store?_setDevice h _) hin
      hfree
  · intro hfull
    have hrun := run_recover_of_full (hx s h).operable (hx.serves h hin) hfull
    have hrecover : x.step (.store .recover) = x.step (.store .compact) := by
      rw [step_call h, step_call h, StoreCommand.run, StoreCommand.run, StoreM.answer, hrun,
        StoreM.answer]
    exact ⟨hrecover, (step_mount hx hidle h hin).trans hrecover, compacted_of_healthy hx h hin⟩

/-- With 12 bytes free a store is mounted without power. Once they are used up a recovery compacts
and frees the 20 bytes of the value that was replaced. -/
theorem recovered_in_place_of_full_block :
    let x : Session (NorFlash 80 20) := run [.opening .mount none,
        .store (.write 1 [1, 2, 3, 4, 5, 6, 7, 8, 9, 10, 11, 12])]
      (start NorFlash.blank ⟨0, 40, 40, 0⟩)
    let y := (x.step (.cutPowerAfter 0)).2
    let z := (x.step (.store (.write 1 [5, 6, 7, 8]))).2
    y.step (.opening .mount none) = (.done, y) ∧
      ∃ s s', z.store? = some s ∧ s.free = 0 ∧
        z.step (.store .recover) = (.done, ⟨s.placement, .store s'⟩) ∧
        s'.contents = [⟨1, [5, 6, 7, 8]⟩] ∧ s'.current = .b ∧ s'.free = 20 := by
  intro x y z
  have hx : x.store?.map (fun s => (s.inService, s.free)) = some (true, 12) := by decide +kernel
  have hz : z.store?.map (fun s => (s.inService, s.free, s.device.budget)) =
      some (true, 0, none) := by decide +kernel
  have hz' : z.store?.map (fun s => (s.contents, s.current, s.reclaimable.toOption)) =
      some ([⟨1, [5, 6, 7, 8]⟩], .a, some 20) := by decide +kernel
  constructor
  · obtain ⟨s, hs, hfacts⟩ := Option.map_eq_some_iff.1 hx
    obtain ⟨hin, hfree⟩ := Prod.mk.inj hfacts
    obtain ⟨-, -, hcut⟩ := (recovered_in_place NorFlash.blank ⟨0, 40, 40, 0⟩ _ hs hin).1 (by omega)
    exact (hcut 0).2
  · obtain ⟨s, hs, hfacts⟩ := Option.map_eq_some_iff.1 hz
    rw [hs, Option.map_some, Option.some_inj] at hz'
    simp only [Prod.mk.injEq] at hfacts hz'
    obtain ⟨hin, hfree, hbudget⟩ := hfacts
    obtain ⟨hcontents, hcurrent, hreclaimable⟩ := hz'
    obtain ⟨hrecover, -, hcompacted⟩ := (recovered_in_place NorFlash.blank ⟨0, 40, 40, 0⟩
      [.opening .mount none, .store (.write 1 [1, 2, 3, 4, 5, 6, 7, 8, 9, 10, 11, 12]),
        .store (.write 1 [5, 6, 7, 8])] hs hin).2 hfree
    obtain ⟨n, s', hn, hstep, -, hkept, hother, -, hfree'⟩ := hcompacted (healthy_of_budget hbudget)
    obtain rfl : n = 20 := by simpa [hn, Except.toOption] using hreclaimable
    refine ⟨s, s', hs, hfree, hrecover.trans hstep, hkept.trans hcontents, ?_, by omega⟩
    rw [hother, hcurrent]
    rfl

/-- A full block with nothing to reclaim is compacted by each mount, and is full again. -/
example :
    let x : Session (NorFlash 40 20) := run [.opening .mount none, .store (.write 1 [1, 2, 3, 4]),
      .opening .mount none, .opening .mount none] (start NorFlash.blank ⟨0, 20, 20, 0⟩)
    x.store?.map (fun s => (s.free, s.current, s.generation)) = some (0, .a, 2) := by
  decide +kernel

/-- Pages of two bytes let the second block start off a word boundary, where it takes no word. The
first one is full, and a recovery that has power fails to compact it. -/
theorem unrecovered_beside_unaligned_block :
    let p : Placement := ⟨0, 30, 20, 0⟩
    let x : Session (NorFlash 64 2) :=
      run [.opening .mount none, .store (.write 1 [1, 2, 3, 4])] (start NorFlash.blank p)
    let y := x.step (.store .recover)
    p.accepts 2 64 = true ∧
      x.store?.map (fun s => (s.inService, s.free, s.device.budget)) = some (true, 0, none) ∧
      y.1 = .storeError (.device .unaligned) ∧ y.2.store?.map inService = some false := by
  intro p x y
  exact ⟨by decide, by decide +kernel, by decide +kernel, by decide +kernel⟩

end Session

end FlashStore
