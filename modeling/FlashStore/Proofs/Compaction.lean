import FlashStore.Proofs.Acting
import FlashStore.Proofs.Relocation

/-!
# Compactions of a store

A compaction of a store that is tracked leaves it consistent on the other block with the same
contents; if the device fails on the way, the memory is one of those of `Compacting`, so nothing is
lost either.
-/

namespace FlashStore

open LawfulFlash

variable {δ : Type} [FlashDevice δ] [LawfulFlash δ]

/-! ### Filling a block -/

/-- Lay out records in a wiped block, then its header, the magic word last. -/
def fillBlock (block : Block) (rs : List Record) (g : Word) : ProgramM δ Nat := do
  let cursor ← copyRecords rs block.first
  programVerified block.counterAddress g
  programVerified block.magicAddress magic
  return cursor

/-- A block has no header until it is filled. -/
lemma runs_fillBlock {block : Block} {rs : List Record} {g : Word} {d : δ} (hd : Unlocked d)
    (hbase : block.base % 4 = 0) (hs : block.stop ≤ (FlashDevice.capacity d).toNat)
    (hfit : block.first + Record.totalSpan rs ≤ block.stop)
    (hm : ∀ i, block.base ≤ i → i < block.stop → FlashDevice.readWord d i = Word.erased)
    (hsep : ∀ r ∈ rs, r.stop ≤ block.base ∨ block.stop ≤ r.address) :
    Runs (fillBlock block rs g) d
      (fun z _ m => z = block.first + Record.totalSpan rs ∧
        m = writeWords (FlashDevice.readWord d) block.base
          (magic :: g :: rs.flatMap fun r => r.image (FlashDevice.readWord d)))
      (fun _ m => AgreeOutside block.base block.stop (FlashDevice.readWord d) m ∧
        m block.base = Word.erased) := by
  have hfirst := block.first_eq
  have hcounter : block.counterAddress = block.base + 4 := rfl
  have hmagic : block.magicAddress = block.base := rfl
  have hlen := four_mul_length_images (FlashDevice.readWord d) rs
  have hbase_erased := hm block.base (Nat.le_refl _) (by omega)
  unfold fillBlock
  rw [hcounter, hmagic]
  -- The records come first, behind the place of the header, which stays erased,
  refine Runs.bind ((runs_copyRecords rs hd (by omega) (by omega)
    (fun i h₁ h₂ _ => hm i (by omega) (by omega)) ?_).mono (fun _ _ _ h => h) ?_) ?_
  · intro r hr
    have := hsep r hr
    omega
  · intro k m hout
    refine ⟨hout.mono (by omega) hfit, ?_⟩
    rw [hout _ (by omega), hbase_erased]
  · rintro z d₁ k hd₁ hk ⟨rfl, hm₁⟩
    have hcap₁ := capacity_of_reaches hk
    have hout₁ : AgreeOutside block.base block.stop (FlashDevice.readWord d)
        (FlashDevice.readWord d₁) := by
      rw [hm₁]
      exact (agreeOutside_writeWords _ _ _).mono (by omega) (by omega)
    have hhead₁ : ∀ i, i < block.first → FlashDevice.readWord d₁ i = FlashDevice.readWord d i := by
      intro i hi
      rw [hm₁, writeWords_of_lt _ _ hi]
    have hhead_erased : FlashDevice.readWord d₁ block.base = Word.erased := by
      rw [hhead₁ _ (by omega), hbase_erased]
    -- and the header last, the counter before the magic word.
    have hpair := runs_programPair magic g hd₁ hbase (by rw [hcap₁]; omega) hhead_erased
      (by rw [hhead₁ _ (by omega), hm _ (by omega) (by omega)])
    rw [← bind_assoc]
    refine Runs.bind (hpair.mono (fun _ _ _ h => h) ?_) ?_
    · rintro j m (⟨-, rfl⟩ | ⟨-, rfl⟩)
      · exact ⟨hout₁, hhead_erased⟩
      · refine ⟨hout₁.trans fun i hi => Function.update_of_ne (by omega) _ _, ?_⟩
        rw [Function.update_of_ne (by omega), hhead_erased]
    · rintro _ d₂ j hd₂ - ⟨-, hm₂⟩
      refine Runs.pure hd₂ ⟨rfl, ?_⟩
      rw [hm₂, hm₁, hfirst, writeWords_pair]

/-! ### Moving to the spare block -/

namespace Store

variable {s s' : Store δ}

lemma Operable.runs_wipeBlock (hs : s.Operable) (hu : Unlocked s.device) (side : Side) :
    Runs (wipeBlock (s.placement.block side)) s.device
      (fun _ j m => j = (s.placement.block side).size / (FlashDevice.pageSize δ).toNat ∧
        m = wiped s.word (s.placement.block side).base (s.placement.block side).stop)
      (fun j m => j < (s.placement.block side).size / (FlashDevice.pageSize δ).toNat ∧
        m = wiped s.word (s.placement.block side).base
          ((s.placement.block side).base + (FlashDevice.pageSize δ).toNat * j)) :=
  FlashStore.runs_wipeBlock hu hs.fits.pageSize_pos (hs.fits.pageSize_dvd_base side)
    hs.fits.pageSize_dvd (hs.fits.stop_le side)

end Store

open Store

variable {s : Store δ} {m : Memory}

/-- The memories of a wipe that is cut: untouched, or without a header. -/
lemma header_of_wiping {m m' : Memory} {block : Block} {j P : Nat} (hP : 0 < P)
    (h : m' = wiped m block.base (block.base + P * j)) : m' = m ∨ header m' block = none := by
  rcases Nat.eq_zero_or_pos j with rfl | hj
  · left
    rw [h, Nat.mul_zero, Nat.add_zero, wiped_self]
  · right
    have := Nat.mul_pos hP hj
    refine header_eq_none ?_
    rw [h, wiped_of_mem _ (by omega)]

lemma le_stop_of_wiping {block : Block} {j P : Nat} (hj : j < block.size / P) :
    block.base + P * j ≤ block.stop := by
  have h := Nat.mul_le_mul_left P (Nat.le_of_lt hj)
  have h' := Nat.mul_div_le block.size P
  rw [Block.stop_eq]
  omega

lemma acts_wipeSpare (hs : s.Operable) (hu : s.unlockDepth ≠ 0) :
    Acts (onDevice (wipeBlock s.spare)) s
      (fun _ _ v => v = s.view.reading (wiped s.word s.spare.base s.spare.stop))
      (fun e _ v => e.FromDevice ∧ v.inService = s.inService ∧
        Compacting s.placement s.word s.current s.generation v.word) := by
  refine (Acts.onDevice hs (hs.runs_wipeBlock (hs.unlocked hu) s.current.other)).mono ?_ ?_
  · rintro _ k v ⟨hv, -, hm⟩
    rw [hv, hm]
    rfl
  · rintro e k v ⟨he, hv, hj, hm⟩
    refine ⟨he, by rw [hv]; rfl, .filling ?_ (header_of_wiping hs.fits.pageSize_pos hm)⟩
    rw [hm]
    exact (agreeOutside_wiped _ _ _).mono (Nat.le_refl _) (le_stop_of_wiping hj)

lemma acts_fillSpare (hs : s.Operable) (hu : s.unlockDepth ≠ 0)
    (hm : s.word = wiped m s.spare.base s.spare.stop) (g : Word) :
    Acts (onDevice (fillBlock s.spare (survivors (recordsOf m s.block)) (g + 1))) s
      (fun z _ v => z = s.spare.first + Record.totalSpan (survivors (recordsOf m s.block)) ∧
        v = s.view.reading (committed s.placement m s.current g))
      (fun e _ v => e.FromDevice ∧ v.inService = s.inService ∧
        Compacting s.placement m s.current g v.word) := by
  have hp := hs.regular
  have hapart := hp.apart s.current
  have hout : AgreeOutside s.spare.base s.spare.stop m s.word :=
    hm ▸ agreeOutside_wiped m s.spare.base s.spare.stop
  have hold : AgreeOn s.block.base s.block.stop m s.word := hout.agreeOn hapart
  have herased : ∀ i, s.spare.base ≤ i → i < s.spare.stop →
      FlashDevice.readWord s.device i = Word.erased := by
    intro i h₁ h₂
    exact (congrFun hm i).trans (wiped_of_mem _ ⟨h₁, h₂⟩)
  refine (Acts.onDevice hs (runs_fillBlock (hs.unlocked hu) (hp.base_mod _)
    (hs.fits.stop_le s.current.other) (survivors_fit hp m s.current) herased
    (survivors_apart hp m s.current))).mono ?_ ?_
  · rintro z k v ⟨hv, rfl, hword⟩
    refine ⟨rfl, ?_⟩
    rw [hv, hword]
    show s.view.reading (writeWords s.word _ (_ :: _ :: (survivors (recordsOf m s.block)).flatMap
      fun r => r.image s.word)) = _
    rw [block, images_survivors_congr hold, hm]
    rfl
  · rintro e k v ⟨he, hv, hout', hhead⟩
    refine ⟨he, by rw [hv]; rfl, .filling ?_ (Or.inr (header_eq_none hhead))⟩
    exact hout.trans hout'

lemma acts_wipeOld (hs : s.Operable) (hu : s.unlockDepth ≠ 0) {p : Placement} {side : Side}
    {g : Word} (hp : s.placement = p) (hm : s.word = committed p m side g) :
    Acts (onDevice (wipeBlock (p.block side))) s
      (fun _ _ v => v = s.view.reading (wiped (committed p m side g) (p.block side).base
        (p.block side).stop))
      (fun e _ v => e.FromDevice ∧ v.inService = s.inService ∧ Compacting p m side g v.word) := by
  subst hp
  refine (Acts.onDevice hs (hs.runs_wipeBlock (hs.unlocked hu) side)).mono ?_ ?_
  · rintro _ k v ⟨hv, -, hw⟩
    rw [hv, hw, ← hm]
  · rintro e k v ⟨he, hv, hj, hw⟩
    refine ⟨he, by rw [hv]; rfl, ?_⟩
    rw [hw, hm]
    exact .wiping (Nat.le_add_right _ _) (le_stop_of_wiping hj)

/-- What is left to see once a compaction is done. -/
def View.compacted (p : Placement) (v : View) : View where
  word := wiped (committed p v.word v.current v.generation) (p.block v.current).base
    (p.block v.current).stop
  current := v.current.other
  generation := v.generation + 1
  cursor := (p.block v.current.other).first +
    Record.totalSpan (survivors (recordsOf v.word (p.block v.current)))
  inService := v.inService

/-- A move to the spare block succeeds, or is cut at one of the memories of a compaction. -/
lemma acts_moveToSpare (hs : s.Operable) (hu : s.unlockDepth ≠ 0) :
    Acts moveToSpare s (fun _ _ v => v = s.view.compacted s.placement)
      (fun e _ v => e.FromDevice ∧ v.inService = s.inService ∧
        Compacting s.placement s.word s.current s.generation v.word) := by
  have hp := hs.regular
  unfold moveToSpare
  refine Acts.get_bind (Acts.get_bind ?_)
  refine Acts.bind (acts_wipeSpare hs hu) ?_
  rintro _ s₁ k hs₁ hk hv₁
  have hword₁ : s₁.word = wiped s.word s.spare.base s.spare.stop := congrArg View.word hv₁
  have hcur₁ : s₁.current = s.current := congrArg View.current hv₁
  have hgen₁ : s₁.generation = s.generation := congrArg View.generation hv₁
  have hin₁ : s₁.inService = s.inService := congrArg View.inService hv₁
  have hplace₁ := hk.placement_eq
  have hu₁ : s₁.unlockDepth ≠ 0 := hk.unlockDepth_eq ▸ hu
  have hblock₁ : s₁.block = s.block := by rw [block, hplace₁, hcur₁]; rfl
  have hspare₁ : s₁.spare = s.spare := by rw [spare, hplace₁, hcur₁]; rfl
  -- Wiping the spare block has not touched the records that are copied next.
  have hrec : s₁.chain.records = recordsOf s.word s.block := by
    have hold : AgreeOn s.block.base s.block.stop s.word s₁.word :=
      hword₁ ▸ (agreeOutside_wiped _ _ _).agreeOn (hp.apart s.current)
    rw [← recordsOf_congr hold, ← hblock₁]
    rfl
  refine Acts.get_bind (Acts.get_bind ?_)
  rw [hrec, hgen₁]
  have hfill := acts_fillSpare hs₁ hu₁ (hspare₁ ▸ hword₁) s.generation
  rw [hspare₁, hblock₁, hplace₁, hcur₁, hin₁] at hfill
  refine Acts.bind hfill ?_
  rintro z s₂ j hs₂ hj ⟨rfl, hv₂⟩
  have hword₂ : s₂.word = committed s.placement s.word s.current s.generation :=
    congrArg View.word hv₂
  have hcur₂ : s₂.current = s.current := (congrArg View.current hv₂).trans hcur₁
  have hin₂ : s₂.inService = s.inService := (congrArg View.inService hv₂).trans hin₁
  have hplace₂ := hj.placement_eq.trans hplace₁
  refine Acts.modify_bind ⟨rfl, rfl, reaches_refl _⟩ ?_
  rw [hcur₂]
  -- The store moves over before the old block is wiped.
  have hop : Operable { s₂ with
      current := s.current.other
      generation := s.generation + 1
      cursor := s.spare.first + Record.totalSpan (survivors (recordsOf s.word s.block)) } := by
    refine ⟨hs₂.fits, hs₂.unlocked, ?_, ?_⟩
    · show (s₂.placement.block s.current.other).first ≤ _
      rw [hplace₂]
      exact Nat.le_add_right _ _
    · show _ ≤ (s₂.placement.block s.current.other).stop
      rw [hplace₂]
      exact survivors_fit hp s.word s.current
  have hu₂ : s₂.unlockDepth ≠ 0 := hj.unlockDepth_eq ▸ hu₁
  refine (acts_wipeOld hop hu₂ hplace₂ hword₂).mono ?_ ?_
  · rintro _ i v hv
    have hin : s₂.inService = s.view.inService := hin₂
    rw [hv, View.compacted, ← hin]
    rfl
  · rintro e i v ⟨he, hin, hcut⟩
    exact ⟨he, hin.trans hin₂, hcut⟩

/-! ### Compactions -/

lemma span_entries (m : Memory) (rs : List Record) :
    Contents.span (entries m rs) = Record.totalSpan rs := by
  induction rs with
  | nil => rfl
  | cons r rs ih =>
    rw [entries_cons, Contents.span_cons, Record.totalSpan_cons, ih, Record.length_payload]
    rfl

lemma acts_compactNow_compacted (hs : s.Operable) :
    Acts compactNow s (fun _ _ v => v = s.view.compacted s.placement)
      (fun e _ v => e.FromDevice ∧ v.inService = s.inService ∧
        Compacting s.placement s.word s.current s.generation v.word) := by
  have h := acts_moveToSpare hs.beginUnlocked (Nat.succ_ne_zero _)
  rw [view_beginUnlocked, word_beginUnlocked] at h
  exact h.withUnlocked

/-- Whether it succeeds or not, a compaction of the block in use keeps the contents. -/
theorem acts_compactNow (hs : s.Operable)
    (hn : s.placement.newest s.word = some (s.current, s.generation)) :
    Acts compactNow s
      (fun _ _ v => v.inService = s.inService ∧
        Consistent s.placement v.word v.current v.generation v.cursor ∧
        s.placement.persisted v.word = s.placement.persisted s.word ∧
        v.cursor = (s.placement.block v.current).first +
          Contents.span (s.placement.persisted s.word))
      (fun e _ v => e.FromDevice ∧ v.inService = s.inService ∧
        s.placement.persisted v.word = s.placement.persisted s.word) := by
  have hp := hs.regular
  refine (acts_compactNow_compacted hs).mono ?_ ?_
  · rintro _ k v rfl
    obtain ⟨hc, hpers⟩ := consistent_of_compacted hp hn rfl
    refine ⟨rfl, hc, hpers, ?_⟩
    rw [Placement.persisted_of_newest hn, retained, span_entries]
    rfl
  · rintro e k v ⟨he, hin, hcut⟩
    exact ⟨he, hin, (persisted_of_compacting hp hn hcut).1⟩

/-! ### Stores in service -/

/-- A store in service that holds these contents. -/
structure View.Serves (p : Placement) (c : Contents) (v : View) : Prop where
  inService : v.inService = true
  consistent : Consistent p v.word v.current v.generation v.cursor
  persisted : p.persisted v.word = c

/-- A store out of service over these contents. -/
structure View.Suspended (p : Placement) (c : Contents) (v : View) : Prop where
  inService : v.inService = false
  persisted : p.persisted v.word = c

variable {c : Contents}

namespace Store

omit [LawfulFlash δ] in
lemma requireService_of_serves (h : s.view.Serves s.placement c) : s.requireService = .ok () :=
  requireService_eq_ok_iff.2 h.inService

/-- The chain of a store in service ends at its cursor. -/
lemma chain_of_serves (hs : s.Operable) (h : s.view.Serves s.placement c) :
    s.chain = ⟨recordsOf s.word s.block, endAt s.block.stop s.cursor⟩ :=
  h.consistent.chain_eq hs.regular

lemma requireIntact_of_serves (hs : s.Operable) (h : s.view.Serves s.placement c) :
    s.chain.requireIntact = .ok () := by
  rw [chain_of_serves hs h, requireIntact_endAt]

end Store

lemma reclaimable_of_serves (hs : s.Operable) (h : s.view.Serves s.placement c) :
    s.reclaimable = .ok s.chain.removedBytes := by
  rw [reclaimable, requireService_of_serves h, requireIntact_of_serves hs h]
  rfl

/-- A compaction in service that fails puts the store out of service over the same contents. -/
lemma acts_suspending_compactNow (hs : s.Operable) (h : s.view.Serves s.placement c) :
    Acts (suspendOnFailure compactNow) s (fun _ _ v => v.Serves s.placement c)
      (fun e _ v => e.FromDevice ∧ v.Suspended s.placement c) := by
  refine (Acts.suspendOnFailure (acts_compactNow hs h.consistent.newest)).mono ?_ ?_
  · rintro _ k v ⟨hin, hc, hpers, -⟩
    exact ⟨hin.trans h.inService, hc, hpers.trans h.persisted⟩
  · rintro e k _ ⟨v, ⟨he, -, hpers⟩, rfl⟩
    refine ⟨he, ?_, hpers.trans h.persisted⟩
    simp only [he.isDisruptive, Bool.not_true, Bool.and_false]

/-- A compaction keeps the contents. -/
theorem acts_compact (hs : s.Operable) (h : s.view.Serves s.placement c) :
    Acts compact s (fun _ _ v => v.Serves s.placement c)
      (fun e _ v => e.FromDevice ∧ v.Suspended s.placement c) := by
  unfold compact
  exact Acts.query_bind (requireService_of_serves h) (acts_suspending_compactNow hs h)

/-- A compaction for want of space keeps the contents. -/
theorem acts_compactIfLow (hs : s.Operable) (h : s.view.Serves s.placement c) :
    Acts compactIfLow s (fun _ _ v => v.Serves s.placement c)
      (fun e _ v => e.FromDevice ∧ v.Suspended s.placement c) := by
  unfold compactIfLow
  refine Acts.query_bind (requireService_of_serves h) (Acts.get_bind (Acts.get_bind ?_))
  by_cases hfree : s.placement.reserve.toNat ≤ s.free
  · rw [if_pos hfree]
    exact Acts.pure hs h
  · rw [if_neg hfree]
    have hquery : Acts (query reclaimable) s (fun _ _ v => v.Serves s.placement c)
        (fun _ _ _ => False) := Acts.query hs (reclaimable_of_serves hs h) h
    refine Acts.bind (hquery.suspendOnFailure.mono (fun _ _ _ h => h) ?_) ?_
    · rintro e k v ⟨v', hfalse, -⟩
      exact hfalse.elim
    · intro n s₁ k hs₁ hk h₁
      by_cases hn : n = 0
      · rw [if_pos hn]
        exact Acts.pure hs₁ h₁
      · rw [if_neg hn]
        rw [← hk.placement_eq] at h₁ ⊢
        refine Acts.bind (acts_suspending_compactNow hs₁ h₁) ?_
        rintro _ s₂ j hs₂ - h₂
        exact Acts.pure hs₂ h₂

end FlashStore
