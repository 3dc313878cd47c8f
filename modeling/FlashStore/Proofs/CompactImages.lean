import FlashStore.Proofs.CanonicalStores

/-!
# The image of a compaction

A compaction copies records by the word, a write packs the bytes of a value into words. On canonical
records the two come to the same: a block that has been compacted to holds what writing its entries
one after another to an erased block would leave, to the byte. So nothing of what was overwritten or
erased shows in it.
-/

namespace FlashStore

open LawfulFlash Store

/-! ### Writing entries one after another -/

section Entries

variable {δ : Type} [FlashDevice δ]

/-- Write records of entries one after another from an address on, and return the address after the
last. -/
def writeEntries : Contents → Nat → ProgramM δ Nat
  | [], a => pure a
  | e :: c, a => do writeEntries c (← writeRecord a e.id e.data)

/-- The words of entries. -/
def Contents.image (c : Contents) : List Word := c.flatMap fun e => valueImage e.id e.data

@[simp] lemma Contents.image_cons (e : Entry) (c : Contents) :
    Contents.image (e :: c) = valueImage e.id e.data ++ Contents.image c := rfl

lemma Contents.four_mul_length_image (c : Contents) : 4 * c.image.length = c.span := by
  induction c with
  | nil => rfl
  | cons e c ih =>
    rw [image_cons, List.length_append, Nat.mul_add, four_mul_length_valueImage, ih, span_cons]

variable [LawfulFlash δ]

lemma runs_writeEntries (c : Contents) {a : Nat} {d : δ} (hd : Unlocked d) (ha : a % 4 = 0)
    (hs : a + c.span ≤ (FlashDevice.capacity d).toNat)
    (hm : ∀ i, a ≤ i → i < a + c.span → i % 4 = 0 → FlashDevice.readWord d i = Word.erased) :
    Runs (writeEntries c a) d
      (fun z _ m => z = a + c.span ∧ m = writeWords (FlashDevice.readWord d) a c.image)
      (fun _ _ => True) := by
  induction c generalizing d a with
  | nil => exact Runs.pure hd ⟨rfl, rfl⟩
  | cons e c ih =>
    rw [Contents.span_cons] at hs hm ⊢
    have hcap := (FlashDevice.capacity d).toNat_lt
    have hlen : e.data.length + 8 < 2 ^ 32 := length_lt_of_fit (by omega)
    have hspan := four_mul_length_valueImage e.id e.data
    unfold writeEntries
    refine Runs.bind ((runs_writeRecord hd ha (by omega) (by omega)
      fun i h₁ h₂ => hm i h₁ (by omega)).mono (fun _ _ _ h => h) fun _ _ _ => trivial) ?_
    rintro z d' k hd' hk ⟨rfl, hm'⟩
    have hcap' := capacity_of_reaches hk
    refine (ih hd' (by omega) (by rw [hcap']; omega) ?_).mono ?_ fun _ _ _ => trivial
    · intro i h₁ h₂ h₃
      rw [hm', writeWords_of_le _ (by omega)]
      exact hm i (by omega) (by omega) h₃
    · rintro z _ m ⟨rfl, rfl⟩
      refine ⟨by omega, ?_⟩
      rw [Contents.image_cons, writeWords_append, hspan, hm']

end Entries

/-! ### Bytes of a block -/

/-- The bytes of words, followed by erased ones up to `n` bytes. -/
def paddedBytes (n : Nat) (ws : List Word) : List UInt8 :=
  unpackWords ws ++ List.replicate (n - 4 * ws.length) 0xFF

/-- The image of a block of `n` bytes that holds entries and nothing else. -/
def compactImage (n : Nat) (g : Word) (c : Contents) : List UInt8 :=
  paddedBytes n (magic :: g :: c.image)

namespace NorFlash

variable {size page a n : Nat} {ws : List Word}

lemma bytesFrom_of_spells (d : NorFlash size page) (ha : a % 4 = 0)
    (hsize : a + 4 * ws.length ≤ size) (h : Spells d.readWord a ws) :
    d.bytesFrom a (4 * ws.length) = unpackWords ws := by
  have hwords : ws = (List.range ws.length).map fun i => d.readWord (a + 4 * i) := by
    refine List.ext_getElem (by simp) fun i h₁ h₂ => ?_
    rw [List.getElem_map, List.getElem_range]
    exact (h i h₁).symm
  rw [← d.unpackWords_readWord ha _ hsize, ← hwords]

lemma bytesFrom_of_erased (d : NorFlash size page) (ha : a % 4 = 0) (hn : n % 4 = 0)
    (hsize : a + n ≤ size) (h : ∀ i, a ≤ i → i < a + n → i % 4 = 0 → d.readWord i = Word.erased) :
    d.bytesFrom a n = List.replicate n 0xFF := by
  obtain ⟨k, rfl⟩ := Nat.dvd_of_mod_eq_zero hn
  have hspells : Spells d.readWord a (List.replicate k Word.erased) := by
    intro i hi
    rw [List.length_replicate] at hi
    rw [List.getElem_replicate, h _ (by omega) (by omega) (by omega)]
  have hbytes := d.bytesFrom_of_spells ha (by rwa [List.length_replicate]) hspells
  rwa [List.length_replicate, unpackWords_replicate (b := 0xFF) rfl] at hbytes

lemma bytesFrom_eq_padded (d : NorFlash size page) (ha : a % 4 = 0) (hn : n % 4 = 0)
    (hsize : a + n ≤ size) (hfit : 4 * ws.length ≤ n) (h : Spells d.readWord a ws)
    (herased : ∀ i, a + 4 * ws.length ≤ i → i < a + n → i % 4 = 0 →
      d.readWord i = Word.erased) :
    d.bytesFrom a n = paddedBytes n ws := by
  have hrest := d.bytesFrom_of_erased (a := a + 4 * ws.length) (n := n - 4 * ws.length) (by omega)
    (by omega) (by omega) fun i h₁ h₂ => herased i h₁ (by omega)
  have hsplit : n = 4 * ws.length + (n - 4 * ws.length) := by omega
  rw [hsplit, bytesFrom_add, d.bytesFrom_of_spells ha (by omega) h, hrest, ← hsplit, paddedBytes]

/-- Erased flash holds no records. -/
lemma canonical_blank (p : Placement) :
    p.Canonical (blank : NorFlash size page).readWord :=
  Placement.canonical_of_newest_none
    (Placement.newest_eq_none_iff.2 fun _ => header_eq_none (readWord_blank _))

variable [WordPages page]

/-- Erased flash takes entries one after another without fail. -/
lemma run_writeEntries_blank (c : Contents) (ha : a % 4 = 0) (hn : n % 4 = 0) (hfit : c.span ≤ n)
    (hsize : a + n ≤ (UInt32.ofNat size).toNat) :
    ∃ d : NorFlash size page, (writeEntries c a).run blank.unlock = .ok (a + c.span) d ∧
      d.bytesFrom a n = paddedBytes n c.image := by
  have hcap := (blank : NorFlash size page).toNat_capacity_le
  have hlen := c.four_mul_length_image
  have herased : ∀ i, (blank : NorFlash size page).readWord i = Word.erased := readWord_blank
  have hwrite := runs_writeEntries (d := (blank.unlock : NorFlash size page)) c rfl ha
    (Nat.le_trans (by omega) hsize) fun i _ _ _ => herased i
  cases hrun : (writeEntries c a).run (blank.unlock : NorFlash size page) with
  | ok z d =>
    obtain ⟨-, k, -, rfl, hd⟩ := hwrite.of_ok hrun
    have hword : d.readWord = writeWords (blank : NorFlash size page).readWord a c.image := hd
    refine ⟨d, rfl, d.bytesFrom_eq_padded ha hn (Nat.le_trans hsize hcap) (by omega) ?_ ?_⟩
    · rw [hword]
      exact spells_writeWords _ _ _
    · intro i h₁ _ _
      rw [hword, writeWords_of_le _ h₁, herased]
  | error e d =>
    obtain ⟨-, k, hk, ⟨e', -, -, hbudget⟩, -⟩ := hwrite.of_error hrun
    cases (SpentBy.budget_eq_none hk rfl).symm.trans hbudget

end NorFlash

/-! ### Compactions -/

/-- On canonical records the block that a compaction fills spells the entries as writes do. -/
lemma spells_compacted {p : Placement} {v : View} (hp : p.Regular) (h : p.Canonical v.word)
    (hn : p.newest v.word = some (v.current, v.generation)) :
    Spells (v.compacted p).word (p.block v.current.other).base
      (magic :: (v.generation + 1) :: (p.persisted v.word).image) := by
  have hspells := spells_block_of_agreeOn_stamped
    (agreeOn_wiping (m := v.word) (g := v.generation) hp (Nat.le_refl _))
    (survivors_fit hp v.word v.current)
  have hcanonical : AllCanonical v.word (survivors (recordsOf v.word (p.block v.current))) :=
    fun r hr => h.records hn r ((survivors_sublist _).subset hr)
  rw [hcanonical.images_eq fun _ hr => isLive_of_mem_survivors hr] at hspells
  rw [Placement.persisted_of_newest hn]
  exact hspells

section Nor

variable {size page : Nat} [NorFlash.WordPages page] {s s' : NorStore size page} {c : Contents}

/-- The bytes of both blocks after a compaction of canonical records. -/
lemma bytesFrom_of_compactNow (hs : s.Operable) (hserves : s.view.Serves s.placement c)
    (h : s.Canonical) (hrun : (compactNow : StoreM (NorFlash size page) Unit).run s = .ok () s') :
    s'.device.bytesFrom s'.block.base s'.block.size =
        compactImage s'.block.size (s.generation + 1) c ∧
      s'.device.bytesFrom s'.block.first s'.block.capacity =
        paddedBytes s'.block.capacity c.image ∧
      s'.device.bytesFrom s.block.base s.block.size = List.replicate s.block.size 0xFF := by
  have hp := hs.regular
  have hn := hserves.consistent.newest
  have hpers : s.placement.persisted s.word = c := hserves.persisted
  obtain ⟨hs', hplacement, hserves', hend⟩ := serves_of_compactNow hs hserves hrun
  obtain ⟨-, -, -, hview⟩ := (acts_compactNow_compacted hs).of_ok hrun
  have hword : s'.device.readWord = (s.view.compacted s.placement).word := congrArg View.word hview
  have hcurrent : s'.current = s.current.other := congrArg View.current hview
  have hblock : s'.block = s.placement.block s.current.other := by
    rw [block, hplacement, hcurrent]
  -- What the new block spells from its base on; behind the entries it is erased.
  have hspells : Spells s'.device.readWord s'.block.base
      (magic :: (s.generation + 1) :: c.image) := by
    rw [hblock, hword, ← hpers]
    exact spells_compacted hp h hn
  have herased : ∀ i, s'.cursor ≤ i → i < s'.block.stop → i % 4 = 0 →
      s'.device.readWord i = Word.erased := hserves'.consistent.erased
  have hfirst := s'.block.first_eq
  have hstop := s'.block.stop_eq
  have hlen := c.four_mul_length_image
  have hle := hs'.le_stop
  have hbase : s'.block.base % 4 = 0 := hblock ▸ hp.base_mod _
  have hmod : s'.block.size % 4 = 0 := hblock ▸ hp.size_mod
  have hcapacity : s'.block.capacity = s'.block.size - 8 := rfl
  have hcap := s'.device.toNat_capacity_le
  have hon : s'.block.stop ≤ size := Nat.le_trans (hs'.fits.stop_le s'.current) hcap
  have hold : s.block.stop ≤ size :=
    Nat.le_trans (hs.fits.stop_le s.current) s.device.toNat_capacity_le
  -- Both ends of a block are on word boundaries, so its words give its bytes: those of the new block,
  -- those behind its header, and those of the old block.
  refine ⟨?_, ?_, ?_⟩
  · refine s'.device.bytesFrom_eq_padded hbase hmod (by omega) ?_ hspells ?_
    · simp only [List.length_cons]
      omega
    · intro i h₁ h₂ h₃
      simp only [List.length_cons] at h₁
      exact herased i (by omega) (by omega) h₃
  · have hrest : Spells s'.device.readWord s'.block.base
        ([magic, s.generation + 1] ++ c.image) := hspells
    refine s'.device.bytesFrom_eq_padded (by omega) (by omega) (by omega) (by omega) hrest.right ?_
    exact fun i h₁ h₂ h₃ => herased i (by omega) (by omega) h₃
  · have hsize : s.block.base + s.block.size ≤ size := s.block.stop_eq ▸ hold
    refine s'.device.bytesFrom_of_erased (hp.base_mod _) hp.size_mod hsize fun i h₁ h₂ _ => ?_
    rw [hword]
    exact wiped_of_mem _ ⟨h₁, by rw [Block.stop_eq]; exact h₂⟩

/-- The entries of a store fit its block on erased flash. -/
lemma exists_run_writeEntries (hs : s.Operable) (hserves : s.view.Serves s.placement c) :
    ∃ d : NorFlash size page,
      (writeEntries c s.block.first).run NorFlash.blank.unlock =
          .ok (s.block.first + c.span) d ∧
        d.bytesFrom s.block.first s.block.capacity = paddedBytes s.block.capacity c.image := by
  have hp := hs.regular
  have hroom := hp.first_add_le s.current
  have hspan := span_le_of_serves hserves
  have hle := hs.le_stop
  have hfirst := s.block.first_eq
  have hstop := s.block.stop_eq
  have hsize : s.block.size % 4 = 0 := hp.size_mod
  have hcapacity : s.block.capacity = s.block.size - 8 := rfl
  have hon : s.block.stop ≤ (UInt32.ofNat size).toNat := hs.fits.stop_le s.current
  exact NorFlash.run_writeEntries_blank c (hp.first_mod _) (by omega) (by omega) (by omega)

end Nor

/-! ### Sessions -/

namespace Session

open NorFlash

variable {size page : Nat} [WordPages page]

/-- On flash whose pages hold whole words, whatever canonical records it held at first and whatever
commands have been run at one placement: a compaction of a store in service succeeds as long as
power stays on. Once it has, the other block is in use, at the next generation, and is to the byte
what its header and its entries make of it: behind the header are the bytes that writing the entries
one after another leaves on erased flash, erased bytes included. The old block is erased, the cursor
is behind the last record, and nothing can be reclaimed. -/
theorem compacted_to_image (d : NorFlash size page) (p : Placement) (commands : List Command)
    (hd : p.Canonical d.readWord) (hcommands : ∀ command ∈ commands, command.StaysAt p)
    {s : Store (NorFlash size page)} (h : (run commands (start d p)).store? = some s)
    (hin : s.inService = true) :
    (s.device.budget = none → ∃ s', StoreCommand.compact.run s = (.done, s')) ∧
    ∀ s', StoreCommand.compact.run s = (.done, s') →
      s'.placement = s.placement ∧ s'.current = s.current.other ∧
      s'.generation = s.generation + 1 ∧ s'.contents = s.contents ∧
      s'.device.bytesFrom s'.block.base s'.block.size =
        compactImage s'.block.size (s.generation + 1) s.contents ∧
      (∃ d', (writeEntries s.contents s'.block.first).run blank.unlock = .ok s'.cursor d' ∧
        s'.device.bytesFrom s'.block.first s'.block.capacity =
          (d' : NorFlash size page).bytesFrom s'.block.first s'.block.capacity) ∧
      s'.device.bytesFrom s.block.base s.block.size = List.replicate s.block.size 0xFF ∧
      s'.cursor = s'.block.first + s.contents.span ∧ s'.reclaimable = .ok 0 := by
  have hx : (run commands (start d p)).Sound := (sound_start d p).run commands
  obtain ⟨-, hcanonical⟩ := canonical_run (d := d) hd hcommands
  obtain ⟨hstands, -, hs, -⟩ := hx s h
  have hserves := hx.serves h hin
  have hcontents : s.contents = (run commands (start d p)).persisted :=
    contents_of_serves hs hserves
  rw [← hcontents] at hserves
  have hcanonical_s : s.Canonical := by
    rw [Canonical, device_of_store? h, ← hstands] at hcanonical
    exact hcanonical
  constructor
  · intro hbudget
    obtain ⟨_, s', hanswer, -⟩ := answer_of_healthy (healthy_of_budget hbudget)
      (acts_compact hs hserves) (fun _ _ _ he => he.1) fun _ => Answer.done
    exact ⟨s', hanswer⟩
  · intro s' hdone
    obtain ⟨_, -, hcompact⟩ := run_of_answer hdone Answer.done_ne_storeError
    have hrun := (run_compact_eq_ok_iff hserves).1 hcompact
    obtain ⟨hs', hsame, hserves', hend⟩ := serves_of_compactNow hs hserves hrun
    obtain ⟨-, -, -, hview⟩ := (acts_compactNow_compacted hs).of_ok hrun
    obtain ⟨himage, hrecords, hold⟩ := bytesFrom_of_compactNow hs hserves hcanonical_s hrun
    obtain ⟨d', hwrite, hbytes⟩ := exists_run_writeEntries hs' hserves'
    rw [← hend] at hwrite
    exact ⟨hsame, congrArg View.current hview, congrArg View.generation hview,
      contents_of_serves hs' hserves', himage, ⟨d', hwrite, hrecords.trans hbytes.symm⟩, hold, hend,
      (space_of_compactNow hs hserves hrun).2⟩

/-- A value of five bytes is replaced by one of six, behind another value. A compaction moves the
two values that are left, the second padded with zeros. -/
theorem compacted_to_image_of_replaced_value :
    let x : Session (NorFlash 120 20) := run [.opening .mount none,
        .store (.write 1 [1, 2, 3, 4, 5]), .store (.write 2 [6, 7, 8, 9]),
        .store (.write 1 [10, 11, 12, 13, 14, 15])] (start blank ⟨0, 60, 60, 0⟩)
    ∃ s s', x.store? = some s ∧ StoreCommand.compact.run s = (.done, s') ∧
      s'.block.base = 60 ∧ s'.cursor = 96 ∧ s'.reclaimable = .ok 0 ∧
      s'.device.bytesFrom 0 60 = List.replicate 60 0xFF ∧
      s'.device.bytesFrom 60 60 =
        [0x74, 0x73, 0x61, 0x50, 1, 0, 0, 0,
          2, 0, 0, 0, 4, 0, 0, 0, 6, 7, 8, 9,
          1, 0, 0, 0, 6, 0, 0, 0, 10, 11, 12, 13, 14, 15, 0, 0] ++ List.replicate 24 0xFF := by
  intro x
  have hx : x.store?.map (fun s => (s.inService, s.device.budget, s.placement)) =
      some (true, none, ⟨0, 60, 60, 0⟩) := by decide +kernel
  have hx' : x.store?.map (fun s => (s.current, s.generation, s.contents)) =
      some (.a, 0, [⟨2, [6, 7, 8, 9]⟩, ⟨1, [10, 11, 12, 13, 14, 15]⟩]) := by decide +kernel
  obtain ⟨s, hs, hfacts⟩ := Option.map_eq_some_iff.1 hx
  rw [hs, Option.map_some, Option.some_inj] at hx'
  simp only [Prod.mk.injEq] at hfacts hx'
  obtain ⟨hin, hbudget, hplacement⟩ := hfacts
  obtain ⟨hcurrent, hgeneration, hcontents⟩ := hx'
  obtain ⟨hdone, himage⟩ := compacted_to_image blank ⟨0, 60, 60, 0⟩
    [.opening .mount none, .store (.write 1 [1, 2, 3, 4, 5]), .store (.write 2 [6, 7, 8, 9]),
      .store (.write 1 [10, 11, 12, 13, 14, 15])] (canonical_blank _)
    (by simp [Command.StaysAt]) hs hin
  obtain ⟨s', hs'⟩ := hdone hbudget
  obtain ⟨hsame, hother, -, -, hnew, -, hold, hcursor, hreclaimable⟩ := himage s' hs'
  have hblock : s.block = ⟨0, 60⟩ := by
    rw [block, hplacement, hcurrent]
    rfl
  have hblock' : s'.block = ⟨60, 60⟩ := by
    rw [block, hsame, hplacement, hother, hcurrent]
    rfl
  rw [hblock', hgeneration, hcontents] at hnew
  rw [hblock', hcontents] at hcursor
  rw [hblock] at hold
  refine ⟨s, s', hs, hs', by rw [hblock'], hcursor, hreclaimable, hold, hnew.trans ?_⟩
  decide +kernel

end Session

end FlashStore
