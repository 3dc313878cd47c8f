import FlashStore.Proofs.Footprints
import FlashStore.Proofs.Writing

/-!
# Operations within bounds

How far the operations of a store reach on NOR flash that holds anything at all. `Stays` is work on
records of the current block, with no page erased; `Roams` is work on both blocks. Writes and
removals of records stay; compactions and formats roam, and the headers of the blocks tell how far
one has come when it is cut.
-/

namespace FlashStore

open NorFlash

variable {size page : Nat} {α β : Type}

/-- A store on NOR flash. -/
abbrev NorStore (size page : Nat) := Store (NorFlash size page)

/-- The addresses of both blocks. -/
def Placement.territory (p : Placement) : Set Nat := {i | ∃ side, i ∈ (p.block side).extent}

lemma Placement.extent_subset (p : Placement) (side : Side) :
    (p.block side).extent ⊆ p.territory := fun _ hi => ⟨side, hi⟩

/-- The room for records of a block is in the block. -/
lemma Block.records_subset (block : Block) : Set.Ico block.first block.stop ⊆ block.extent :=
  Set.Ico_subset_Ico (Nat.le_add_right _ _) (Nat.le_refl _)

lemma Side.forall_iff {P : Side → Prop} : (∀ side, P side) ↔ P .a ∧ P .b := by
  constructor
  · exact fun h => ⟨h .a, h .b⟩
  · rintro ⟨ha, hb⟩ (_ | _)
    · exact ha
    · exact hb

namespace Placement.Fits

variable {p : Placement} {pageSize capacity : Nat} (h : p.Fits pageSize capacity)
include h

lemma first_add_le (side : Side) : (p.block side).first + 12 ≤ (p.block side).stop := by
  have hmin := h.minBlockSize_le
  have hspan : minBlockSize = 20 := rfl
  have hfirst := (p.block side).first_eq
  have hstop := (p.block side).stop_eq
  rw [size_block] at hstop
  omega

/-- No address is in both blocks. -/
lemma not_mem_other {i : Nat} {side : Side} (hi : i ∈ (p.block side).extent) :
    i ∉ (p.block side.other).extent := by
  intro hother
  have hd := h.disjoint i
  cases side with
  | a => exact hd ⟨hi, hother⟩
  | b => exact hd ⟨hother, hi⟩

end Placement.Fits

namespace Store

variable {s s' : NorStore size page}

/-- The placement is accepted for the flash, and the cursor is in the current block. -/
structure Bounded (s : NorStore size page) : Prop where
  accepts : s.placement.accepts (UInt32.ofNat page) (UInt32.ofNat size) = true
  first_le : s.block.first ≤ s.cursor
  le_stop : s.cursor ≤ s.block.stop

/-- The store on a device in another state. -/
def withDevice {δ : Type} (d : δ) (s : Store δ) : Store δ := { s with device := d }

lemma Bounded.fits (h : s.Bounded) :
    s.placement.Fits (UInt32.ofNat page).toNat (UInt32.ofNat size).toNat :=
  Placement.fits_of_accepts h.accepts

/-- Whether a store is within bounds does not depend on what the flash holds, nor on the
generation, the service or the write protection. -/
lemma Bounded.frame (h : s.Bounded) {device : NorFlash size page} {generation : Word}
    {inService : Bool} {unlockDepth : Nat} :
    Bounded { s with device, generation, inService, unlockDepth } :=
  ⟨h.accepts, h.first_le, h.le_stop⟩

/-- The records of the current block have been worked on, and that is all: no page was erased. -/
structure Stays (s s' : NorStore size page) : Prop where
  placement_eq : s'.placement = s.placement
  current_eq : s'.current = s.current
  generation_eq : s'.generation = s.generation
  inService : s'.inService = true → s.inService = true
  bounded : s.Bounded → s'.Bounded
  programmedOn : s.device.ProgrammedOn (Set.Ico s.block.first s.block.stop) s'.device

/-- The blocks have been worked on. -/
structure Roams (s s' : NorStore size page) : Prop where
  placement_eq : s'.placement = s.placement
  bounded : s.Bounded → s'.Bounded
  changedOn : s.device.ChangedOn s.placement.territory s'.device

lemma Stays.block_eq (h : s.Stays s') : s'.block = s.block := by
  rw [block, h.placement_eq, h.current_eq, block]

lemma Stays.roams (h : s.Stays s') : s.Roams s' :=
  ⟨h.placement_eq, h.bounded, h.programmedOn.changedOn.mono
    ((Block.records_subset _).trans (s.placement.extent_subset s.current))⟩

instance : IsPreorder (NorStore size page) Stays where
  refl s := ⟨rfl, rfl, rfl, fun h => h, fun h => h, refl_of _ s.device⟩
  trans s s' s'' h h' := by
    refine ⟨h'.placement_eq.trans h.placement_eq, h'.current_eq.trans h.current_eq,
      h'.generation_eq.trans h.generation_eq, fun hin => h.inService (h'.inService hin),
      fun hs => h'.bounded (h.bounded hs), trans_of _ h.programmedOn ?_⟩
    rw [← h.block_eq]
    exact h'.programmedOn

instance : IsPreorder (NorStore size page) Roams where
  refl s := (refl_of Stays s).roams
  trans s s' s'' h h' := by
    refine ⟨h'.placement_eq.trans h.placement_eq, fun hs => h'.bounded (h.bounded hs),
      trans_of _ h.changedOn ?_⟩
    rw [← h.placement_eq]
    exact h'.changedOn

/-! ### Write protection and service -/

/-- The store as a failed operation leaves it. -/
def suspend {δ : Type} (e : StoreError) (s : Store δ) : Store δ :=
  { s with inService := s.inService && !e.isDisruptive }

/-- The store out of service. -/
def retire {δ : Type} (s : Store δ) : Store δ := { s with inService := false }

/-- The store in service. -/
def serve {δ : Type} (s : Store δ) : Store δ := { s with inService := true }

lemma serve_eq {δ : Type} {s : Store δ} (h : s.inService = true) : s.serve = s := by
  rw [serve, ← h]

lemma retire_eq {δ : Type} {s : Store δ} (h : s.inService = false) : s.retire = s := by
  rw [retire, ← h]

lemma suspend_of_isDisruptive {δ : Type} {s : Store δ} {e : StoreError}
    (h : e.isDisruptive = true) : s.suspend e = s.retire := by
  rw [suspend, h, Bool.not_true, Bool.and_false, retire]

lemma stays_beginUnlocked (s : NorStore size page) : s.Stays s.beginUnlocked := by
  refine ⟨rfl, rfl, rfl, fun h => h, fun h => h.frame, ?_⟩
  show s.device.ProgrammedOn _ (if s.unlockDepth = 0 then _ else _)
  split
  · exact ⟨fun _ _ => rfl, rfl⟩
  · exact refl_of _ s.device

lemma stays_endUnlocked (s : NorStore size page) : s.Stays s.endUnlocked := by
  refine ⟨rfl, rfl, rfl, fun h => h, fun h => h.frame, ?_⟩
  show s.device.ProgrammedOn _ (if s.unlockDepth = 1 then _ else _)
  split
  · exact ⟨fun _ _ => rfl, rfl⟩
  · exact refl_of _ s.device

lemma stays_suspend (e : StoreError) (s : NorStore size page) : s.Stays (s.suspend e) :=
  ⟨rfl, rfl, rfl, fun h => (Bool.and_eq_true_iff.1 h).1,
    fun h => h.frame, refl_of _ s.device⟩

lemma stays_retire (s : NorStore size page) : s.Stays s.retire :=
  ⟨rfl, rfl, rfl, nofun, fun h => h.frame, refl_of _ s.device⟩

/-- Work on records is the same in service and out of it. -/
lemma Stays.serve (h : s.Stays s') : s.serve.Stays s'.serve := by
  refine ⟨h.placement_eq, h.current_eq, h.generation_eq, fun _ => rfl, fun hs => ?_,
    h.programmedOn⟩
  have hs' : s'.Bounded := h.bounded hs.frame
  exact hs'.frame

lemma stays_query (f : NorStore size page → Except StoreError α) :
    Leads Stays (query f) s (fun a s' => s' = s ∧ f s = .ok a) (fun _ s' => s' = s) := by
  refine Ensures.query (fun a h => ?_) fun e h => ?_
  · exact ⟨refl_of _ s, rfl, h⟩
  · exact ⟨refl_of _ s, rfl⟩

lemma nor_word_beginUnlocked (s : NorStore size page) : s.beginUnlocked.word = s.word := by
  show FlashDevice.readWord (if s.unlockDepth = 0 then _ else _) = _
  split <;> rfl

lemma nor_word_endUnlocked (s : NorStore size page) : s.endUnlocked.word = s.word := by
  show FlashDevice.readWord (if s.unlockDepth = 1 then _ else _) = _
  split <;> rfl

lemma onDevice_bind {δ : Type} (x : ProgramM δ α) (f : α → ProgramM δ β) :
    onDevice (x >>= f) = onDevice x >>= fun a => onDevice (f a) := by
  funext s
  show (onDevice (x >>= f)).run s = (onDevice x >>= fun a => onDevice (f a)).run s
  rw [EStateM.run_bind, run_onDevice, run_onDevice, EStateM.run_bind]
  cases x.run s.device with
  | ok a d => rfl
  | error e d => rfl

/-! A preorder that does not see work on records does not see how operations are wrapped. -/

section Wrapped

variable {R : NorStore size page → NorStore size page → Prop}
  [IsPreorder (NorStore size page) R] (hR : ∀ {s s'}, s.Stays s' → R s s')
  {x : StoreM (NorFlash size page) α} {V : α → NorStore size page → Prop}
  {E : StoreError → NorStore size page → Prop}
include hR

lemma leads_withUnlocked (h : Leads R x s.beginUnlocked V E) :
    Leads R (withUnlocked x) s (fun a s' => ∃ t, s' = t.endUnlocked ∧ V a t)
      (fun e s' => ∃ t, s' = t.endUnlocked ∧ E e t) := by
  have hbegin := hR (stays_beginUnlocked s)
  have hend {t : NorStore size page} (h : R s.beginUnlocked t) : R s t.endUnlocked :=
    trans_of R hbegin (trans_of R h (hR (stays_endUnlocked t)))
  refine Ensures.withUnlocked (Ensures.mono h ?_ ?_)
  · exact fun a t h => ⟨hend h.1, t, rfl, h.2⟩
  · exact fun e t h => ⟨hend h.1, t, rfl, h.2⟩

lemma leads_suspendOnFailure (h : Leads R x s V E) :
    Leads R (suspendOnFailure x) s V (fun e s' => ∃ t, s' = t.suspend e ∧ E e t) := by
  refine Ensures.suspendOnFailure (Ensures.mono h (fun _ _ h => h) fun e t h => ?_)
  exact ⟨trans_of R h.1 (hR (stays_suspend e t)), t, rfl, h.2⟩

end Wrapped

/-! ### Work on records -/

/-- What programs and erases lead to on the device, they lead to on the store. -/
lemma leads_onDevice {Q : NorFlash size page → NorFlash size page → Prop}
    {R : NorStore size page → NorStore size page → Prop}
    {x : ProgramM (NorFlash size page) α} {V : α → NorFlash size page → Prop}
    {E : StoreError → NorFlash size page → Prop} (h : Leads Q x s.device V E)
    (hR : ∀ d, Q s.device d → R s (s.withDevice d)) :
    Leads R (onDevice x) s
      (fun a s' => ∃ d, s' = s.withDevice d ∧ Q s.device d ∧ V a d)
      (fun e s' => ∃ d, s' = s.withDevice d ∧ Q s.device d ∧ E e d) := by
  refine Ensures.onDevice (Ensures.mono h ?_ ?_)
  · exact fun a d h => ⟨hR d h.1, d, rfl, h⟩
  · exact fun e d h => ⟨hR d h.1, d, rfl, h⟩

lemma stays_of_programmedOn {d : NorFlash size page} {S : Set Nat} (h : s.device.ProgrammedOn S d)
    (hS : S ⊆ Set.Ico s.block.first s.block.stop) : s.Stays (s.withDevice d) :=
  ⟨rfl, rfl, rfl, fun h => h, fun h => h.frame, h.mono hS⟩

lemma roams_of_changedOn {d : NorFlash size page} {S : Set Nat} (h : s.device.ChangedOn S d)
    (hS : S ⊆ s.placement.territory) : s.Roams (s.withDevice d) :=
  ⟨rfl, fun h => h.frame, h.mono hS⟩

lemma stays_removeRecord {r : Record} (hr : r ∈ s.chain.records) {s' : NorStore size page}
    (h : s'.block = s.block) :
    Leads Stays (onDevice (removeRecord r)) s' (fun _ _ => True) (fun _ _ => True) := by
  have hmem : s.block.first ≤ r.address ∧ r.stop ≤ s.block.stop := address_of_mem_recordsOf hr
  have hdevice := leads_onDevice (R := Stays) (leads_removeRecord r s'.device) fun d hd =>
    stays_of_programmedOn hd (by rw [h]; exact Set.Ico_subset_Ico hmem.1 hmem.2)
  exact hdevice.mono (fun _ h => h) (fun _ _ _ => trivial) fun _ _ _ => trivial

lemma stays_removeSuperseded :
    Leads Stays removeSuperseded s (fun _ _ => True) (fun _ _ => True) := by
  unfold removeSuperseded
  apply Leads.get_bind
  apply Leads.bind ((stays_query _).mono (fun _ h => h) (fun _ _ h => h) fun _ _ _ => trivial)
  rintro _ s₁ - ⟨hs₁, -⟩
  rw [hs₁]
  apply Leads.forM
  intro r hr s₂ hs₂
  have hmem := (superseded_sublist _).subset hr
  have hbegin := (stays_beginUnlocked s₂).block_eq.trans hs₂.block_eq
  have hremove := leads_withUnlocked (R := Stays) (fun h => h) (stays_removeRecord hmem hbegin)
  exact hremove.mono (fun _ h => h) (fun _ _ _ => trivial) fun _ _ _ => trivial

/-- With room for it a record is put behind the others. -/
lemma stays_placeRecord (id : Word) (data : List UInt8) (hs : s.Bounded)
    (hroom : ¬ s.free < recordSpan data.length) :
    Leads Stays (placeRecord id data) s (fun _ _ => True) (fun _ _ => True) := by
  have hfirst := hs.first_le
  have hstop := hs.le_stop
  have hspan : payloadOffset ≤ recordSpan data.length := payloadOffset_le_recordSpan _
  have hfit : s.cursor + recordSpan data.length ≤ s.block.stop := by
    simp only [free, payloadOffset] at hroom hspan
    omega
  unfold placeRecord
  apply Leads.bind ((stays_query _).mono (fun _ h => h) (fun _ _ h => h) fun _ _ _ => trivial)
  rintro previous s₀ - ⟨hs₀, hprevious⟩
  rw [hs₀]
  apply Leads.get_bind
  -- The record ends at the new cursor, which is what keeps the store bounded if the removal of the
  -- record it replaces is cut.
  apply Leads.bind (V := fun cursor _ =>
    s.cursor ≤ cursor ∧ cursor ≤ s.cursor + recordSpan data.length)
  · have hdevice := leads_onDevice (R := Stays) (leads_writeRecord s.cursor id data s.device)
      fun d hd => stays_of_programmedOn hd (Set.Ico_subset_Ico hfirst hfit)
    apply hdevice.mono (fun _ h => h) _ fun _ _ _ => trivial
    rintro cursor s₁ ⟨d, -, -, hcursor⟩
    exact hcursor
  · rintro cursor s₁ hs₁ ⟨hle, hge⟩
    have hmove : s₁.Stays { s₁ with cursor := cursor } := by
      refine ⟨rfl, rfl, rfl, fun h => h, fun h => ⟨h.accepts, ?_, ?_⟩, refl_of _ s₁.device⟩
      · show s₁.block.first ≤ cursor
        rw [hs₁.block_eq]
        omega
      · show cursor ≤ s₁.block.stop
        rw [hs₁.block_eq]
        omega
    apply Leads.bind (Leads.modify (V := fun _ s₂ => s₁.Stays s₂) hmove hmove)
    intro _ s₂ _ hs₂
    cases previous with
    | none => exact Leads.pure trivial
    | some r =>
      exact stays_removeRecord (Chain.mem_records_of_find hprevious)
        (hs₂.block_eq.trans hs₁.block_eq)

/-! ### Compactions and formats -/

/-- A block reads the header it had while the other one is worked on. -/
lemma header_other_of_changedOn {p : Placement} {pageSize capacity : Nat}
    (hp : p.Fits pageSize capacity) {side : Side} {d d' : NorFlash size page}
    (h : d.ChangedOn (p.block side).extent d') :
    header d'.readWord (p.block side.other) = header d.readWord (p.block side.other) := by
  apply header_of_changedOn h
  intro i h₁ h₂ hi
  have hroom := hp.first_add_le side.other
  exact hp.not_mem_other hi ⟨h₁, by omega⟩

/-- Work on records leaves the headers alone. -/
lemma Stays.header_eq (h : s.Stays s') (hs : s.Bounded) (side : Side) :
    header s'.word (s.placement.block side) = header s.word (s.placement.block side) := by
  apply header_of_changedOn h.programmedOn.changedOn
  intro i h₁ h₂ hi
  rcases side.eq_or_eq_other s.current with rfl | rfl
  · exact Nat.not_le_of_lt h₂ hi.1
  · have hroom := hs.fits.first_add_le s.current.other
    exact hs.fits.not_mem_other (Block.records_subset _ hi) ⟨h₁, by omega⟩

/-- The headers that a compaction of a block of generation `g` may be cut at: the block has its own
while the other one's is there or erased, or the other one has its new one. -/
def CutCompaction (p : Placement) (side : Side) (g : Word) (m m' : Memory) : Prop :=
  header m' (p.block side) = header m (p.block side) ∧
      (header m' (p.block side.other) = header m (p.block side.other) ∨
        header m' (p.block side.other) = none) ∨
    header m' (p.block side.other) = some (g + 1) ∧
      (header m' (p.block side) = header m (p.block side) ∨ header m' (p.block side) = none)

/-- The records that count fit any block. -/
lemma Bounded.survivors_fit (hs : s.Bounded) (side : Side) :
    (s.placement.block side).first + Record.totalSpan (survivors s.chain.records) ≤
      (s.placement.block side).stop := by
  have hfits := hs.fits
  have hroom := hfits.first_add_le s.current
  obtain ⟨z, hl, -⟩ := linked_recordsOf s.word s.block
  have hend : z ≤ s.block.stop := hl.end_le (Nat.le_trans (Nat.le_add_right _ _) hroom)
  have hz : z = s.block.first + Record.totalSpan s.chain.records := hl.end_eq
  have hle := totalSpan_survivors_le s.chain.records
  have hsize : s.block.stop = s.block.base + (s.placement.block side).size := s.block.stop_eq
  have hfirst := s.block.first_eq
  have hstop := (s.placement.block side).stop_eq
  have hfirst' := (s.placement.block side).first_eq
  omega

section Compaction

variable (hlt : page < 2 ^ 32) (hs : s.Bounded)
include hlt hs

/-- A wipe takes the header of its block, and leaves that of the other one. -/
lemma leads_wipe (side : Side) :
    Leads Roams (onDevice (wipeBlock (s.placement.block side))) s
      (fun _ s' => ∃ d, s' = s.withDevice d ∧
        header d.readWord (s.placement.block side) = none ∧
        header d.readWord (s.placement.block side.other) =
          header s.word (s.placement.block side.other))
      (fun e s' => e.isDisruptive = true ∧ ∃ d, s' = s.withDevice d ∧
        (header d.readWord (s.placement.block side) = header s.word (s.placement.block side) ∨
          header d.readWord (s.placement.block side) = none) ∧
        header d.readWord (s.placement.block side.other) =
          header s.word (s.placement.block side.other)) := by
  have hfits := hs.fits
  have hpage : (UInt32.ofNat page).toNat = page := by
    rw [UInt32.toNat_ofNat', Nat.mod_eq_of_lt hlt]
  have hpos := hfits.pageSize_pos
  have hdvd := hfits.pageSize_dvd
  rw [hpage] at hpos hdvd
  have hsize : 0 < (s.placement.block side).size :=
    Nat.lt_of_lt_of_le (by decide) hfits.minBlockSize_le
  have hwipe := leads_onDevice (R := Roams) (leads_wipeBlock hpos hdvd hlt hsize s.device)
    fun d hd => roams_of_changedOn hd (s.placement.extent_subset side)
  apply hwipe.mono (fun _ h => h)
  · rintro _ s' ⟨d, hs', hd, hnone⟩
    exact ⟨d, hs', hnone, header_other_of_changedOn hfits hd⟩
  · rintro e s' ⟨d, hs', hd, he, hheader⟩
    exact ⟨he, d, hs', hheader, header_other_of_changedOn hfits hd⟩

/-- A compaction moves on to the other block and the next generation. -/
theorem leads_moveToSpare :
    Leads Roams moveToSpare s
      (fun _ s' => s'.current = s.current.other ∧ s'.generation = s.generation + 1 ∧
        s'.inService = s.inService ∧ header s'.word s.spare = some (s.generation + 1) ∧
        header s'.word s.block = none)
      (fun e s' => e.isDisruptive = true ∧ s'.inService = s.inService ∧
        CutCompaction s.placement s.current s.generation s.word s'.word) := by
  have hback : s.placement.block s.current.other.other = s.block := by
    rw [Side.other_other, block]
  unfold moveToSpare
  apply Leads.get_bind
  apply Leads.get_bind
  -- First the spare block is wiped. Cut here, the block in use has kept its header.
  apply Leads.bind (V := fun _ s₁ => ∃ d, s₁ = s.withDevice d ∧
    header d.readWord s.spare = none ∧ header d.readWord s.block = header s.word s.block)
  · apply (leads_wipe hlt hs s.current.other).mono (fun _ h => h)
    · rintro _ s₁ ⟨d, hs₁, hspare, hblock⟩
      rw [hback] at hblock
      exact ⟨d, hs₁, hspare, hblock⟩
    · rintro e s₁ ⟨he, d, rfl, hspare, hblock⟩
      rw [hback] at hblock
      exact ⟨he, rfl, Or.inl ⟨hblock, hspare⟩⟩
  rintro _ _ hroams₁ ⟨d₁, rfl, hspare₁, hblock₁⟩
  have hs₁ := hroams₁.bounded hs
  apply Leads.get_bind
  apply Leads.get_bind
  -- Then it is filled, and its header comes last. Cut here, there may be two headers.
  have hroom := hs₁.survivors_fit s.current.other
  have hfill := leads_onDevice (R := Roams) (s := (s.withDevice d₁))
    (leads_fillBlock (s.generation + 1) hroom hspare₁) fun d hd =>
      roams_of_changedOn hd.changedOn (s.placement.extent_subset s.current.other)
  apply Leads.bind (V := fun z s₂ => ∃ d, s₂ = s.withDevice d ∧
    z = s.spare.first + Record.totalSpan
      (survivors (s.withDevice d₁).chain.records) ∧
    header d.readWord s.spare = some (s.generation + 1) ∧
    header d.readWord s.block = header s.word s.block)
  · apply hfill.mono (fun _ h => h)
    · rintro z s₂ ⟨d, rfl, hd, hz, hspare⟩
      have hblock := header_other_of_changedOn hs.fits hd.changedOn
      rw [hback] at hblock
      exact ⟨d, rfl, hz, hspare, hblock.trans hblock₁⟩
    · rintro e s₂ ⟨d, rfl, hd, he, hspare⟩
      have hblock := header_other_of_changedOn hs.fits hd.changedOn
      rw [hback] at hblock
      exact ⟨he, rfl, Or.inl ⟨hblock.trans hblock₁, Or.inr hspare⟩⟩
  rintro z _ hroams₂ ⟨d₂, rfl, hz, hspare₂, hblock₂⟩
  -- The store moves over in memory,
  have hmove : Roams (s.withDevice d₂)
      { s.withDevice d₂ with
        current := s.current.other
        generation := s.generation + 1
        cursor := z } := by
    refine ⟨rfl, fun h => ⟨h.accepts, ?_, ?_⟩, refl_of _ d₂⟩
    · show s.spare.first ≤ z
      rw [hz]
      exact Nat.le_add_right _ _
    · show z ≤ s.spare.stop
      rw [hz]
      exact hroom
  apply Leads.bind (Leads.modify (V := fun _ s₃ => s₃ = _) hmove rfl)
  rintro _ _ hroams₃ rfl
  -- and the block it leaves is wiped. Cut here, the next generation is there already.
  have hs₃ := hroams₃.bounded (hroams₂.bounded hs₁)
  apply (leads_wipe hlt hs₃ s.current).mono (fun _ h => h)
  · rintro _ s₄ ⟨d, rfl, hblock, hspare⟩
    exact ⟨rfl, rfl, rfl, hspare.trans hspare₂, hblock⟩
  · rintro e s₄ ⟨he, d, rfl, hblock, hspare⟩
    exact ⟨he, rfl, Or.inr ⟨hspare.trans hspare₂, hblock.imp_left fun h => h.trans hblock₂⟩⟩

theorem leads_compactNow :
    Leads Roams compactNow s
      (fun _ s' => s'.current = s.current.other ∧ s'.generation = s.generation + 1 ∧
        s'.inService = s.inService ∧ header s'.word s.spare = some (s.generation + 1) ∧
        header s'.word s.block = none)
      (fun e s' => e.isDisruptive = true ∧ s'.inService = s.inService ∧
        CutCompaction s.placement s.current s.generation s.word s'.word) := by
  have hmove := leads_moveToSpare hlt ((stays_beginUnlocked s).bounded hs)
  rw [nor_word_beginUnlocked] at hmove
  apply (leads_withUnlocked Stays.roams hmove).mono (fun _ h => h)
  · rintro _ s' ⟨t, rfl, h⟩
    rw [nor_word_endUnlocked]
    exact h
  · rintro e s' ⟨t, rfl, h⟩
    rw [nor_word_endUnlocked]
    exact h

/-- Both blocks are wiped before the first one has a header. -/
lemma leads_formatBlocks :
    Leads Roams (onDevice do
        wipeBlock (s.placement.block .a)
        wipeBlock (s.placement.block .b)
        programVerified (s.placement.block .a).counterAddress 0
        programVerified (s.placement.block .a).magicAddress magic) s
      (fun _ s' => ∃ d, s' = s.withDevice d ∧ header d.readWord (s.placement.block .a) = some 0 ∧
        header d.readWord (s.placement.block .b) = none)
      (fun _ s' => ∃ d, s' = s.withDevice d ∧ ∀ side,
        header d.readWord (s.placement.block side) = header s.word (s.placement.block side) ∨
          header d.readWord (s.placement.block side) = none) := by
  show Leads Roams (onDevice (wipeBlock (s.placement.block .a) >>= fun _ =>
    wipeBlock (s.placement.block .b) >>= fun _ => stampHeader (s.placement.block .a) 0)) s _ _
  rw [onDevice_bind]
  -- The first block loses its header before the second is touched.
  apply Leads.bind (V := fun _ s₁ => ∃ d, s₁ = s.withDevice d ∧
    header d.readWord (s.placement.block .a) = none ∧
    header d.readWord (s.placement.block .b) = header s.word (s.placement.block .b))
  · apply (leads_wipe hlt hs .a).mono (fun _ h => h) (fun _ _ h => h)
    rintro e s₁ ⟨-, d, hs₁, ha, hb⟩
    exact ⟨d, hs₁, Side.forall_iff.2 ⟨ha, Or.inl hb⟩⟩
  rintro _ _ hroams₁ ⟨d₁, rfl, ha₁, hb₁⟩
  rw [onDevice_bind]
  apply Leads.bind (V := fun _ s₂ => ∃ d, s₂ = s.withDevice d ∧
    header d.readWord (s.placement.block .a) = none ∧
    header d.readWord (s.placement.block .b) = none)
  · apply (leads_wipe hlt (hroams₁.bounded hs) .b).mono (fun _ h => h)
    · rintro _ s₂ ⟨d, rfl, hb, ha⟩
      exact ⟨d, rfl, ha.trans ha₁, hb⟩
    · rintro e s₂ ⟨-, d, rfl, hb, ha⟩
      exact ⟨d, rfl, Side.forall_iff.2 ⟨Or.inr (ha.trans ha₁), hb.imp_left fun h => h.trans hb₁⟩⟩
  rintro _ _ - ⟨d₂, rfl, ha₂, hb₂⟩
  -- The new header is programmed to words of the first block, so the second stays without.
  have hin : Set.Ico (s.placement.block .a).base (s.placement.block .a).first ⊆
      (s.placement.block .a).extent :=
    Set.Ico_subset_Ico (Nat.le_refl _) (by have := hs.fits.first_add_le .a; omega)
  have hb {d : NorFlash size page} (h : d₂.ProgrammedOn (Set.Ico (s.placement.block .a).base
      (s.placement.block .a).first) d) : header d.readWord (s.placement.block .b) = none := by
    have hchanged : d₂.ChangedOn (s.placement.block .a).extent d := h.changedOn.mono hin
    exact (header_other_of_changedOn hs.fits hchanged).trans hb₂
  have hstamp := leads_onDevice (R := Roams) (s := s.withDevice d₂) (leads_stampHeader 0 ha₂)
    fun d hd => roams_of_changedOn hd.changedOn (hin.trans (s.placement.extent_subset .a))
  apply hstamp.mono (fun _ h => h)
  · rintro _ s₃ ⟨d, rfl, hd, ha⟩
    exact ⟨d, rfl, ha, hb hd⟩
  · rintro e s₃ ⟨d, rfl, hd, -, ha⟩
    exact ⟨d, rfl, Side.forall_iff.2 ⟨Or.inr ha, Or.inr (hb hd)⟩⟩

/-- A format starts over on the first block. Cut anywhere, no block has a header it did not have. -/
theorem leads_format :
    Leads Roams format s
      (fun _ s' => s'.current = .a ∧ s'.generation = 0 ∧ s'.inService = true ∧
        header s'.word (s.placement.block .a) = some 0 ∧
        header s'.word (s.placement.block .b) = none)
      (fun _ s' => s'.inService = false ∧ ∀ side,
        header s'.word (s.placement.block side) = header s.word (s.placement.block side) ∨
          header s'.word (s.placement.block side) = none) := by
  unfold format
  apply Leads.bind (Leads.modify (V := fun _ s₁ => s₁ = s.retire) (stays_retire s).roams rfl)
  rintro _ _ hroams₁ rfl
  have hbegin := (stays_beginUnlocked s.retire).bounded (hroams₁.bounded hs)
  apply Leads.get_bind
  apply Leads.get_bind
  have hblocks := leads_formatBlocks hlt hbegin
  rw [nor_word_beginUnlocked] at hblocks
  apply Leads.bind (V := fun _ s₂ => header s₂.word (s.placement.block .a) = some 0 ∧
    header s₂.word (s.placement.block .b) = none)
  · apply (leads_withUnlocked Stays.roams hblocks).mono (fun _ h => h)
    · rintro _ s₂ ⟨t, rfl, d, rfl, h⟩
      rw [nor_word_endUnlocked]
      exact h
    · rintro e s₂ ⟨t, rfl, d, rfl, h⟩
      rw [nor_word_endUnlocked]
      exact ⟨rfl, h⟩
  intro _ s₂ hroams₂ h₂
  have hplace : s₂.placement = s.placement := hroams₂.placement_eq
  apply Leads.modify
  · refine ⟨rfl, fun hs₂ => ⟨hs₂.accepts, ?_, ?_⟩, refl_of _ s₂.device⟩
    · show (s₂.placement.block .a).first ≤ _
      rw [hplace]
      exact Nat.le_refl _
    · show _ ≤ (s₂.placement.block .a).stop
      have hroom := hs.fits.first_add_le .a
      rw [hplace]
      exact Nat.le_trans (Nat.le_add_right _ _) hroom
  · exact ⟨rfl, rfl, rfl, h₂⟩

end Compaction

end Store

end FlashStore
