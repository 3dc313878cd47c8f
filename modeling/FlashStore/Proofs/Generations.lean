import FlashStore.Proofs.Confinement

/-!
# Generations and blocks

On NOR flash that no store has used before, the generation of a store tells its current block: even
ones are in the first block, odd ones in the second. A compaction goes up by one generation and over
to the other block, and generations never fall but for a format or for the counter to wrap, wherever
power is cut. What is carried from event to event is on flash: every header has a generation of the
parity of its block.
-/

namespace FlashStore

open NorFlash

variable {size page : Nat} {p : Placement} {m m' : Memory} {side : Side} {g : Word}

/-! ### Headers -/

lemma Side.ofIndex_succ (g : Word) : ofIndex (g + 1).toNat = (ofIndex g.toNat).other := by
  have hg := g.toNat_lt
  have hnext : (g + 1).toNat % 2 = (g.toNat + 1) % 2 := by
    rw [UInt32.toNat_add]
    simp
  unfold ofIndex
  rw [hnext]
  split_ifs <;> first | rfl | omega

lemma Side.index_of_ofIndex {n : Nat} (h : ofIndex n = side) : side.index = n % 2 := by
  subst h
  unfold ofIndex
  split_ifs with h
  · exact h.symm
  · show 1 = n % 2
    omega

lemma le_add_one_of_ne (h : g ≠ 0xFFFFFFFF) : g ≤ g + 1 := by
  have hg := g.toNat_lt
  have hne : g.toNat ≠ 0xFFFFFFFF := fun h' => h (UInt32.toNat_inj.1 h')
  rw [UInt32.le_iff_toNat_le, UInt32.toNat_add]
  simp
  omega

namespace Placement

/-- Every header has a generation of the parity of its block. -/
def Alternates (p : Placement) (m : Memory) : Prop :=
  ∀ side g, header m (p.block side) = some g → Side.ofIndex g.toNat = side

/-- The generation of the block in use has not fallen, if there was one. -/
def Rises (p : Placement) (m m' : Memory) : Prop :=
  ∀ side g, p.newest m = some (side, g) → ∃ side' g', p.newest m' = some (side', g') ∧ g ≤ g'

lemma rises_of_newest_eq (h : p.newest m' = p.newest m) : p.Rises m m' :=
  fun side g hn => ⟨side, g, h.trans hn, UInt32.le_refl g⟩

lemma Rises.trans {m'' : Memory} (h : p.Rises m m') (h' : p.Rises m' m'') : p.Rises m m'' := by
  intro side g hn
  obtain ⟨side', g', hn', hle⟩ := h side g hn
  obtain ⟨side'', g'', hn'', hle'⟩ := h' side' g' hn'
  exact ⟨side'', g'', hn'', UInt32.le_trans hle hle'⟩

/-- Headers that are as they were or gone alternate as before. -/
lemma Alternates.of_header (h : p.Alternates m)
    (hm : ∀ side, header m' (p.block side) = header m (p.block side) ∨
      header m' (p.block side) = none) : p.Alternates m' := by
  intro side g hg
  rcases hm side with heq | hnone
  · exact h side g (heq ▸ hg)
  · cases hg.symm.trans hnone

/-- So do headers of which one has moved on from the other. -/
lemma Alternates.of_next (h : p.Alternates m) (hside : header m (p.block side) = some g)
    (hnext : header m' (p.block side.other) = some (g + 1))
    (hm : header m' (p.block side) = header m (p.block side) ∨
      header m' (p.block side) = none) : p.Alternates m' := by
  intro t g' hg'
  rcases t.eq_or_eq_other side with rfl | rfl
  · rcases hm with heq | hnone
    · exact h t g' (heq ▸ hg')
    · cases hg'.symm.trans hnone
  · obtain rfl := Option.some.inj (hg'.symm.trans hnext)
    rw [Side.ofIndex_succ, h side g hside]

/-- Cut anywhere, a compaction of the block in use keeps the parity of the headers. -/
lemma Alternates.of_cutCompaction (h : p.Alternates m) (hside : header m (p.block side) = some g)
    (hcut : Store.CutCompaction p side g m m') : p.Alternates m' := by
  rcases hcut with ⟨hold, hspare⟩ | ⟨hnext, hold⟩
  · apply h.of_header
    intro t
    rcases t.eq_or_eq_other side with rfl | rfl
    · exact Or.inl hold
    · exact hspare
  · exact h.of_next hside hnext hold

/-- Cut anywhere, a compaction of the block in use leaves it in use, or the next generation. -/
lemma newest_of_cutCompaction (hn : p.newest m = some (side, g))
    (hcut : Store.CutCompaction p side g m m') :
    p.newest m' = some (side, g) ∨ p.newest m' = some (side.other, g + 1) := by
  have hside := header_of_newest hn
  rcases hcut with ⟨hold, hsame | hgone⟩ | ⟨hnext, hold | hgone⟩
  · left
    rw [← hn]
    apply newest_congr
    intro t
    rcases t.eq_or_eq_other side with rfl | rfl
    · exact hold
    · exact hsame
  · exact Or.inl (newest_of_header (hold.trans hside) hgone)
  · exact newest_of_headers (hold.trans hside) hnext
  · right
    apply newest_of_header hnext
    rwa [Side.other_other]

end Placement

/-! ### Stores -/

namespace Store

variable {s s' : NorStore size page}

/-- The headers alternate, and in service the store knows the block in use. -/
structure Orderly (s : NorStore size page) : Prop where
  bounded : s.Bounded
  alternates : s.placement.Alternates s.word
  newest : s.inService = true → s.placement.newest s.word = some (s.current, s.generation)

/-- The blocks are where they were, and on a condition the generation has not fallen. -/
def Ages (c : Prop) (s s' : NorStore size page) : Prop :=
  s.Bounded → s'.Bounded ∧ s'.placement = s.placement ∧ (c → s.placement.Rises s.word s'.word)

instance {c : Prop} : IsPreorder (NorStore size page) (Ages c) where
  refl _ hs := ⟨hs, rfl, fun _ => Placement.rises_of_newest_eq rfl⟩
  trans s s' s'' h h' hs := by
    obtain ⟨hs', hp', hrises⟩ := h hs
    obtain ⟨hs'', hp'', hrises'⟩ := h' hs'
    refine ⟨hs'', hp''.trans hp', fun hc => (hrises hc).trans ?_⟩
    rw [← hp']
    exact hrises' hc

lemma Stays.newest_eq (h : s.Stays s') (hs : s.Bounded) :
    s.placement.newest s'.word = s.placement.newest s.word :=
  Placement.newest_congr fun side => h.header_eq hs side

lemma Stays.orderly (h : s.Stays s') (hs : s.Orderly) : s'.Orderly := by
  refine ⟨h.bounded hs.bounded, ?_, fun hin => ?_⟩
  · rw [h.placement_eq]
    exact hs.alternates.of_header fun side => Or.inl (h.header_eq hs.bounded side)
  · rw [h.placement_eq, h.current_eq, h.generation_eq, h.newest_eq hs.bounded]
    exact hs.newest (h.inService hin)

/-- The order is kept up by work on records and by compactions. The generation does not fall by a
compaction from any but the last one. -/
lemma survives_ages (hlt : page < 2 ^ 32) (c : Prop) :
    @Survives size page (Ages c) Orderly fun g => c → g ≠ 0xFFFFFFFF where
  leads h hs := ⟨h.bounded hs, h.placement_eq, fun _ =>
    Placement.rises_of_newest_eq (h.newest_eq hs)⟩
  bounded h := h.bounded
  keeps hs h := h.orderly hs
  compactNow {s} hs hg := by
    have hbounded := bounded_serve_iff.1 hs.bounded
    have hn : s.placement.newest s.word = some (s.current, s.generation) := hs.newest rfl
    have hside := Placement.header_of_newest hn
    have halternates : s.placement.Alternates s.word := hs.alternates
    -- a block in use of the next generation is one of no lower generation
    have hrises {t : NorStore size page} (ht : s.placement.newest t.word =
        some (s.current, s.generation) ∨
        s.placement.newest t.word = some (s.current.other, s.generation + 1)) :
        c → s.placement.Rises s.word t.word := by
      intro hc side g hn'
      obtain ⟨rfl, rfl⟩ := Prod.mk.inj (Option.some.inj (hn.symm.trans hn'))
      rcases ht with ht | ht
      · exact ⟨_, _, ht, UInt32.le_refl _⟩
      · exact ⟨_, _, ht, le_add_one_of_ne (hg hc)⟩
    apply Ensures.mono (leads_compactNow hlt hbounded)
    · rintro _ t ⟨hroams, hcurrent, hgeneration, hin, hnext, hold⟩
      have hn' : s.placement.newest t.word = some (s.current.other, s.generation + 1) := by
        apply Placement.newest_of_header hnext
        rw [Side.other_other]
        exact hold
      refine ⟨fun hs' => ⟨hroams.bounded hs', hroams.placement_eq, hrises (Or.inr hn')⟩, hin,
        bounded_serve_iff.2 (hroams.bounded hbounded), ?_, fun _ => ?_⟩
      · show t.placement.Alternates t.word
        rw [hroams.placement_eq]
        exact halternates.of_next hside hnext (Or.inr hold)
      · show t.placement.newest t.word = some (t.current, t.generation)
        rw [hroams.placement_eq, hcurrent, hgeneration]
        exact hn'
    -- Cut, the block in use is the old one or the next, and the store is out of service.
    · rintro e t ⟨hroams, he, hin, hcut⟩
      have hn' := Placement.newest_of_cutCompaction hn hcut
      refine ⟨fun hs' => ⟨hroams.bounded hs', hroams.placement_eq, hrises hn'⟩, he, hin,
        (stays_retire t).bounded (hroams.bounded hbounded), ?_, nofun⟩
      show t.placement.Alternates t.word
      rw [hroams.placement_eq]
      exact halternates.of_cutCompaction hside hcut

section Run

variable (hlt : page < 2 ^ 32)
include hlt

/-- A format keeps the order, and where no block was in use no generation falls by it. -/
lemma keeps_format {c : Prop} (hs : s.Bounded) (ha : s.placement.Alternates s.word)
    (hc : c → s.placement.newest s.word = none) : Keeps (Ages c) Orderly format s := by
  have hrises (t : NorStore size page) : c → s.placement.Rises s.word t.word := by
    intro hc' side g hn
    rw [hc hc'] at hn
    cases hn
  apply Ensures.mono (leads_format hlt hs)
  · rintro _ t ⟨hroams, hcurrent, hgeneration, -, hfirst, hsecond⟩
    refine ⟨fun hs => ⟨hroams.bounded hs, hroams.placement_eq, hrises t⟩, hroams.bounded hs, ?_,
      fun _ => ?_⟩
    · rw [hroams.placement_eq]
      intro side g hg
      cases side with
      | a =>
        obtain rfl := Option.some.inj (hfirst.symm.trans hg)
        rfl
      | b => cases hsecond.symm.trans hg
    · rw [hroams.placement_eq, hcurrent, hgeneration]
      exact Placement.newest_of_header hfirst hsecond
  · rintro e t ⟨hroams, hin, hheader⟩
    refine ⟨fun hs => ⟨hroams.bounded hs, hroams.placement_eq, hrises t⟩, hroams.bounded hs, ?_,
      fun hin' => ?_⟩
    · rw [hroams.placement_eq]
      exact ha.of_header hheader
    · rw [hin] at hin'
      cases hin'

/-- A call keeps the order. The generation does not fall unless the call is a format or starts a
compaction at the last generation. -/
theorem ages_run (hs : s.Orderly) (command : StoreCommand) :
    Ages (command ≠ .format ∧ 0xFFFFFFFF ∉ command.compactions s) s (command.run s).2 ∧
      (command.run s).2.Orderly := by
  have hretire := (stays_retire s).orderly hs
  apply (survives_ages hlt _).run hs
  · rintro g hg ⟨-, hlast⟩ rfl
    exact hlast hg
  · rintro rfl
    apply (survives_ages hlt _).recover
    · exact fun s hs => ⟨bounded_serve_iff.2 hs, rfl, fun _ => Placement.rises_of_newest_eq rfl⟩
    · intro hnone
      exact keeps_format hlt hretire.bounded hretire.alternates fun _ => hnone
    · intro side g hn
      have hresume := hretire.bounded.resume side g
      refine ⟨fun _ => ⟨hresume, rfl, fun _ => Placement.rises_of_newest_eq rfl⟩,
        bounded_serve_iff.2 hresume, hs.alternates, fun _ => hn⟩
    · rintro g hg ⟨-, hlast⟩ rfl
      exact hlast hg
  · rintro rfl
    exact keeps_format hlt hs.bounded hs.alternates fun hc => absurd rfl hc.1

/-- A compaction that succeeds goes up by one generation and over to the other block. -/
lemma leads_compact (hs : s.Bounded) :
    Leads Roams compact s
      (fun _ s' => s'.current = s.current.other ∧ s'.generation = s.generation + 1)
      (fun _ _ => True) := by
  unfold compact
  apply Leads.bind (V := fun _ s₁ => s₁ = s)
  · apply Ensures.mono (stays_query requireService)
    · rintro _ s₁ ⟨hs₁, heq, -⟩
      exact ⟨hs₁.roams, heq⟩
    · rintro e s₁ ⟨hs₁, -⟩
      exact ⟨hs₁.roams, trivial⟩
  · rintro _ _ - rfl
    apply (leads_suspendOnFailure Stays.roams (leads_compactNow hlt hs)).mono (fun _ h => h)
    · rintro _ s' ⟨hcurrent, hgeneration, -⟩
      exact ⟨hcurrent, hgeneration⟩
    · exact fun _ _ _ => trivial

end Run

end Store

/-! ### Sessions -/

/-- An event that formats the store, whatever the flash holds. -/
def Event.isFormat : Event → Bool
  | call .format => true
  | _ => false

namespace Session

open Store

/-- The event is no format, and starts no compaction at the last generation. -/
def climbs {δ : Type} [FlashDevice δ] [PowerControlled δ] (x : Session δ) (e : Event) : Bool :=
  !e.isFormat && !(x.compactions e).contains 0xFFFFFFFF

/-- None of the events is a format or starts a compaction at the last generation. -/
def climbsThrough {δ : Type} [FlashDevice δ] [Addressable δ] [PowerControlled δ] :
    List Event → Session δ → Bool
  | [], _ => true
  | e :: events, x => x.climbs e && climbsThrough events (x.step e.command).2

variable {x : Session (NorFlash size page)}

/-- The headers on the flash alternate, and the open store, if any, is in order. -/
structure Orderly (x : Session (NorFlash size page)) : Prop where
  alternates : x.placement.Alternates x.device.readWord
  store : ∀ s, x.store? = some s → s.placement = x.placement ∧ s.Orderly

/-- From one session to another the generation of the block in use has not fallen. -/
def Rises (x y : Session (NorFlash size page)) : Prop :=
  y.placement = x.placement ∧ x.placement.Rises x.device.readWord y.device.readWord

lemma Rises.refl (x : Session (NorFlash size page)) : x.Rises x :=
  ⟨rfl, Placement.rises_of_newest_eq rfl⟩

lemma Rises.trans {y z : Session (NorFlash size page)} (h : x.Rises y) (h' : y.Rises z) :
    x.Rises z := by
  refine ⟨h'.1.trans h.1, h.2.trans ?_⟩
  rw [← h.1]
  exact h'.2

/-- A change of the device that does not show keeps the order. -/
lemma Orderly.setDevice (hx : x.Orderly) {d : NorFlash size page}
    (hd : d.readWord = x.device.readWord) : (x.setDevice d).Orderly ∧ x.Rises (x.setDevice d) := by
  obtain ⟨p, d' | s⟩ := x
  · refine ⟨⟨?_, nofun⟩, rfl, Placement.rises_of_newest_eq (congrArg p.newest hd)⟩
    show p.Alternates d.readWord
    rw [hd]
    exact hx.alternates
  · obtain ⟨hp, hs⟩ := hx.store s rfl
    have hword : (s.withDevice d).word = s.word := hd
    refine ⟨⟨?_, ?_⟩, rfl, Placement.rises_of_newest_eq (congrArg p.newest hd)⟩
    · show p.Alternates d.readWord
      rw [hd]
      exact hx.alternates
    · rintro _ ⟨rfl⟩
      refine ⟨hp, hs.bounded.frame, ?_, fun hin => ?_⟩
      · show s.placement.Alternates (s.withDevice d).word
        rw [hword]
        exact hs.alternates
      · show s.placement.newest (s.withDevice d).word = some (s.current, s.generation)
        rw [hword]
        exact hs.newest hin

section Step

variable (hlt : page < 2 ^ 32)
include hlt

lemma Orderly.step_call (hx : x.Orderly) (command : StoreCommand) :
    (x.step (.store command)).2.Orderly ∧
      (x.climbs (.call command) = true → x.Rises (x.step (.store command)).2) := by
  cases h : x.store? with
  | none =>
    rw [step_call_of_none h]
    exact ⟨hx, fun _ => Rises.refl x⟩
  | some s =>
    obtain ⟨hp, hs⟩ := hx.store s h
    obtain ⟨hages, horderly⟩ := ages_run hlt hs command
    obtain ⟨-, hplace, hrises⟩ := hages hs.bounded
    rw [Session.step_call h]
    refine ⟨⟨?_, ?_⟩, fun hclimbs => ⟨rfl, ?_⟩⟩
    · show x.placement.Alternates (command.run s).2.word
      rw [← hp, ← hplace]
      exact horderly.alternates
    · rintro _ ⟨rfl⟩
      exact ⟨hplace.trans hp, horderly⟩
    · show x.placement.Rises x.device.readWord (command.run s).2.word
      rw [device_of_store? h, ← hp]
      apply hrises
      unfold climbs at hclimbs
      rw [compactions_call h, Bool.and_eq_true] at hclimbs
      obtain ⟨hformat, hlast⟩ := hclimbs
      refine ⟨?_, by simpa using hlast⟩
      rintro rfl
      cases hformat

/-- An event keeps the order. The generation does not fall if the event climbs. -/
lemma Orderly.step (hx : x.Orderly) (e : Event) :
    (x.step e.command).2.Orderly ∧ (x.climbs e = true → x.Rises (x.step e.command).2) := by
  cases e with
  | opening how =>
    have hword : (opened how x.device).readWord = x.device.readWord := by
      unfold opened
      split <;> rfl
    have hstep := step_opening how x
    change x.step (Event.opening how).command = _ at hstep
    rw [hstep]
    cases h : attach (opened how x.device) x.placement with
    | error e =>
      refine ⟨⟨?_, nofun⟩, fun _ => ⟨rfl, ?_⟩⟩
      · show x.placement.Alternates (opened how x.device).readWord
        rw [hword]
        exact hx.alternates
      · exact Placement.rises_of_newest_eq (congrArg _ hword)
    | ok s =>
      obtain ⟨hp, hdevice, hs⟩ := bounded_of_attach h
      rw [← hdevice] at hword
      -- A store that is attached has read nothing yet, so there is no generation to compare.
      have hout : s.inService = false := by
        obtain ⟨-, rfl⟩ := attach_eq_ok h
        rfl
      have hfound : x.placement.Alternates s.word := by
        show x.placement.Alternates s.device.readWord
        rw [hword]
        exact hx.alternates
      have horderly : Orderly ⟨x.placement, .store s⟩ := by
        refine ⟨hfound, ?_⟩
        rintro _ ⟨rfl⟩
        refine ⟨hp, hs, by rwa [hp], fun hin => ?_⟩
        cases hout.symm.trans hin
      have hrises : x.Rises ⟨x.placement, .store s⟩ :=
        ⟨rfl, Placement.rises_of_newest_eq (congrArg _ hword)⟩
      dsimp only
      split_ifs with hhow
      · exact ⟨horderly, fun _ => hrises⟩
      -- What is left is the recovery, whose compactions are those of the opening.
      · obtain ⟨hstep, hclimb⟩ := horderly.step_call hlt .recover
        refine ⟨hstep, fun hclimbs => hrises.trans (hclimb ?_)⟩
        unfold climbs at hclimbs
        rw [compactions_opening h hhow] at hclimbs
        exact hclimbs
  | call command => exact hx.step_call hlt command
  | cutPowerAfter n =>
    obtain ⟨horderly, hrises⟩ := hx.setDevice (d := x.device.cutPowerAfter n) rfl
    exact ⟨horderly, fun _ => hrises⟩
  | restorePower =>
    obtain ⟨horderly, hrises⟩ := hx.setDevice (d := x.device.restorePower) rfl
    exact ⟨horderly, fun _ => hrises⟩

/-- Events keep the order. The generation does not fall along events that climb. -/
lemma Orderly.play (hx : x.Orderly) (events : List Event) :
    (x.play events).Orderly ∧ (x.climbsThrough events = true → x.Rises (x.play events)) := by
  induction events generalizing x with
  | nil => exact ⟨hx, fun _ => Rises.refl x⟩
  | cons e events ih =>
    obtain ⟨hstep, hrise⟩ := hx.step hlt e
    obtain ⟨hplay, hrises⟩ := ih hstep
    refine ⟨hplay, fun hclimbs => ?_⟩
    rw [climbsThrough, Bool.and_eq_true] at hclimbs
    exact (hrise hclimbs.1).trans (hrises hclimbs.2)

omit hlt in
/-- In service the open store knows the block in use. -/
lemma Orderly.newest (hx : x.Orderly) {s : NorStore size page} (h : x.store? = some s)
    (hin : s.inService = true) :
    x.placement.newest x.device.readWord = some (s.current, s.generation) := by
  obtain ⟨hp, hs⟩ := hx.store s h
  rw [device_of_store? h, ← hp]
  exact hs.newest hin

/-- On flash without a store, the generation of a store in service has the parity of its current
block, wherever power is cut. A compaction that succeeds goes up by one generation, modulo the size
of a word, and over to the other block. Generations do not fall along events of which none is a
format or starts a compaction at the last generation. -/
theorem generations_alternate (d : NorFlash size page) (p : Placement)
    (hblank : ∀ side, d.readWord (p.block side).magicAddress ≠ magic) (events : List Event) :
    let x := (start d p).play events
    (∀ s, x.store? = some s → s.inService = true →
      s.current.index = s.generation.toNat % 2) ∧
    (∀ s, x.store? = some s → (x.step (.store .compact)).1 = .done →
      ∃ s', (x.step (.store .compact)).2.store? = some s' ∧
        s'.generation = s.generation + 1 ∧ s'.current = s.current.other) ∧
    ∀ later s s', x.store? = some s → s.inService = true →
      (x.play later).store? = some s' → s'.inService = true →
      x.climbsThrough later = true → s.generation ≤ s'.generation := by
  intro x
  have hstart : (start d p).Orderly := by
    refine ⟨fun side g hg => ?_, nofun⟩
    exact absurd (header_eq_some_iff.1 hg).1 (hblank side)
  have hx : x.Orderly := (hstart.play hlt events).1
  refine ⟨fun s hs hin => ?_, fun s hs hdone => ?_, fun later s s' hs hin hs' hin' hclimbs => ?_⟩
  · apply Side.index_of_ofIndex
    exact hx.alternates _ _ (Placement.header_of_newest (hx.newest hs hin))
  · rw [Session.step_call hs] at hdone ⊢
    have hcompact := leads_compact hlt (hx.store s hs).2.bounded
    rcases answer_of_ensures hcompact fun _ => .done with ⟨_, s', ha, -, h⟩ | ⟨e, s', ha, -⟩
    · refine ⟨s', ?_, h.2, h.1⟩
      rw [StoreCommand.run, ha]
      rfl
    · rw [StoreCommand.run, ha] at hdone
      cases hdone
  · obtain ⟨hplay, hrises⟩ := hx.play hlt later
    obtain ⟨hp, hrise⟩ := hrises hclimbs
    obtain ⟨side, g, hn, hle⟩ := hrise _ _ (hx.newest hs hin)
    rw [← hp, hplay.newest hs' hin'] at hn
    obtain ⟨-, rfl⟩ := Prod.mk.inj (Option.some.inj hn)
    exact hle

end Step

/-- A compaction is cut with both headers in place, and a reboot opens the newer block. -/
theorem generations_alternate_of_cut_compaction :
    let d : NorFlash 80 20 := NorFlash.filled 0xCD
    let events := [.opening .mount, .call (.write 1 [5, 6, 7, 8]), .call .compact]
    let later := [.cutPowerAfter 7, .call .compact, .opening .reboot]
    let x := (start d ⟨0, 40, 40, 0⟩).play events
    (x.step (.store .compact)).1 = .done ∧ x.climbsThrough later = true ∧
    ∃ s s', x.store? = some s ∧ (x.play later).store? = some s' ∧
      s.current = .b ∧ s'.current = .a ∧ s.current.index = s.generation.toNat % 2 ∧
      s.generation ≤ s'.generation ∧
      ∃ t, (x.step (.store .compact)).2.store? = some t ∧
        t.generation = s.generation + 1 ∧ t.current = s.current.other := by
  intro d events later x
  have hblank : ∀ side,
      d.readWord (Placement.block ⟨0, 40, 40, 0⟩ side).magicAddress ≠ magic := by
    rintro (_ | _) <;> decide +kernel
  have hdone : (x.step (.store .compact)).1 = .done := by decide +kernel
  have hclimbs : x.climbsThrough later = true := by decide +kernel
  have hs : x.store?.map (fun s => (s.inService, s.current)) = some (true, .b) := by
    decide +kernel
  have hs' : (x.play later).store?.map (fun s => (s.inService, s.current)) = some (true, .a) := by
    decide +kernel
  obtain ⟨s, hstore, heq⟩ := Option.map_eq_some_iff.1 hs
  obtain ⟨s', hstore', heq'⟩ := Option.map_eq_some_iff.1 hs'
  obtain ⟨hin, hside⟩ := Prod.mk.inj heq
  obtain ⟨hin', hside'⟩ := Prod.mk.inj heq'
  obtain ⟨hparity, hcompact, hrises⟩ :=
    generations_alternate (by decide) d ⟨0, 40, 40, 0⟩ hblank events
  exact ⟨hdone, hclimbs, s, s', hstore, hstore', hside, hside', hparity s hstore hin,
    hrises later s s' hstore hin hstore' hin' hclimbs, hcompact s hstore hdone⟩

end Session

end FlashStore
