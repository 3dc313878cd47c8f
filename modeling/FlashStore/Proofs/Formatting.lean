import FlashStore.Proofs.Compaction

/-!
# Formatting a store

A format wipes the first block, then the second, and stamps the first one. `Formatting` lists the
memories it may be cut at, by the programs and erases done. What is persisted in between is decided
by the second block alone (`persisted_of_formatting`): a header that it still carries counts again
as soon as the first block has lost its own.
-/

namespace FlashStore

open LawfulFlash Store

variable {δ : Type} [FlashDevice δ] [LawfulFlash δ]

lemma wiped_comm (m : Memory) (a b c d : Nat) :
    wiped (wiped m a b) c d = wiped (wiped m c d) a b := by
  funext i
  simp only [wiped]
  split_ifs <;> rfl

variable {m m' : Memory} {p : Placement} {g : Word} {page k : Nat}

/-- The memory after a format. -/
def formatted (p : Placement) (m : Memory) : Memory :=
  stamped (wiped m (p.block .b).base (p.block .b).stop) (p.block .a) 0 []

/-- The memories a format may be cut at, by the programs and erases done. -/
inductive Formatting (p : Placement) (page : Nat) (m : Memory) : Nat → Memory → Prop
  | first {k : Nat} (le : k ≤ p.blockSize.toNat / page) :
      Formatting p page m k (wiped m (p.block .a).base ((p.block .a).base + page * k))
  | second {k : Nat} (le : k ≤ p.blockSize.toNat / page) :
      Formatting p page m (p.blockSize.toNat / page + k)
        (wiped (wiped m (p.block .a).base (p.block .a).stop) (p.block .b).base
          ((p.block .b).base + page * k))
  | counter :
      Formatting p page m (2 * (p.blockSize.toNat / page) + 1)
        (Function.update (wiped (wiped m (p.block .a).base (p.block .a).stop) (p.block .b).base
          (p.block .b).stop) (p.block .a).counterAddress 0)

/-- What the second block holds, if it carries a header. -/
def Placement.leftover (p : Placement) (m : Memory) : Contents :=
  match header m (p.block .b) with
  | some _ => retained m (p.block .b)
  | none => []

lemma persisted_of_headers_none (ha : header m (p.block .a) = none)
    (hb : header m (p.block .b) = none) : p.persisted m = [] := by
  refine Placement.persisted_of_none (Placement.newest_eq_none_iff.2 ?_)
  rintro (_ | _)
  · exact ha
  · exact hb

lemma Placement.leftover_of_newest (hn : p.newest m = some (.b, g)) :
    p.leftover m = p.persisted m := by
  rw [leftover, header_of_newest hn, persisted_of_newest hn]

section Memory

variable (hp : p.Regular)
include hp

/-- A formatted store is empty and consistent. -/
theorem consistent_formatted (m : Memory) :
    Consistent p (formatted p m) .a 0 (p.block .a).first ∧ p.persisted (formatted p m) = [] := by
  have hroom := hp.first_add_le .a
  have hbase := (p.block .b).first_eq
  have hroom' := hp.first_add_le .b
  have hout : AgreeOutside (p.block .a).base (p.block .a).stop
      (wiped m (p.block .b).base (p.block .b).stop) (formatted p m) :=
    agreeOutside_stamped _ _ (by simp only [List.length_nil]; omega)
  have hother : header (formatted p m) (p.block .b) = none := by
    have hapart := hp.apart .a
    simp only [Side.other] at hapart
    refine header_eq_none ?_
    rw [hout _ (by omega), wiped_of_mem _ (by omega)]
  have hn : p.newest (formatted p m) = some (.a, 0) :=
    Placement.newest_of_header (header_stamped _ _ _ _) hother
  have hstamped : AgreeOn (p.block .a).base (p.block .a).stop
      (stamped (wiped m (p.block .b).base (p.block .b).stop) (p.block .a) 0
        (([] : List Record).flatMap fun r => r.image m)) (formatted p m) := fun _ _ _ => rfl
  exact Consistent.of_stamped hp hn hstamped (by simp only [Record.totalSpan_nil]; omega) (by simp)
    distinct_nil (by simp)

/-- Once the first block has lost its header, the second one decides. -/
lemma persisted_of_header_none (ha : header m' (p.block .a) = none)
    (hb : AgreeOn (p.block .b).base (p.block .b).stop m m') :
    p.persisted m' = p.leftover m := by
  have hroom := hp.first_add_le .b
  have hbase := (p.block .b).first_eq
  have hheader : header m' (p.block .b) = header m (p.block .b) :=
    header_congr (hb _ (by omega) (by omega)) (hb _ (by omega) (by omega))
  unfold Placement.leftover
  cases h : header m (p.block .b) with
  | some g =>
    rw [Placement.persisted_of_newest (Placement.newest_of_header (hheader.trans h) ha)]
    exact retained_congr hb
  | none => exact persisted_of_headers_none ha (hheader.trans h)

/-- A format that is cut has changed nothing, has brought up what the second block still carries, or
has emptied the store. -/
theorem persisted_of_formatting (hpos : 0 < page) (hdvd : page ∣ p.blockSize.toNat)
    (h : Formatting p page m k m') :
    p.persisted m' =
      if k = 0 then p.persisted m
      else if k ≤ p.blockSize.toNat / page then p.leftover m
      else [] := by
  have hroom := hp.first_add_le .a
  have hbase := (p.block .a).first_eq
  have hroom' := hp.first_add_le .b
  have hbase' := (p.block .b).first_eq
  have hapart := hp.apart .a
  simp only [Side.other] at hapart
  have hsize := Nat.div_mul_cancel hdvd
  have hn : p.blockSize.toNat / page ≠ 0 := by
    intro h0
    rw [h0, Nat.zero_mul] at hsize
    rw [Block.stop_eq, Placement.size_block, hbase] at hroom
    omega
  -- One case for each stage a format can be cut in.
  cases h with
  | first hle =>
    by_cases hk : k = 0
    · rw [if_pos hk, hk, Nat.mul_zero, Nat.add_zero, wiped_self]
    · rw [if_neg hk, if_pos hle]
      have hmul := Nat.mul_pos hpos (Nat.pos_of_ne_zero hk)
      have hend := Nat.mul_le_mul_left page hle
      rw [Nat.mul_comm page (_ / _), hsize] at hend
      refine persisted_of_header_none hp (header_eq_none (wiped_of_mem _ (by omega))) ?_
      refine (agreeOutside_wiped _ _ _).agreeOn ?_
      rw [Block.stop_eq, Placement.size_block] at hapart
      omega
  | @second j hle =>
    rw [if_neg (by omega)]
    have hout := agreeOutside_wiped m (p.block .a).base (p.block .a).stop
    have hagree := agreeOutside_wiped (wiped m (p.block .a).base (p.block .a).stop)
      (p.block .b).base ((p.block .b).base + page * j)
    have hend := Nat.mul_le_mul_left page hle
    rw [Nat.mul_comm page (_ / _), hsize] at hend
    have hstop : (p.block .b).stop = (p.block .b).base + p.blockSize.toNat := rfl
    have ha : header (wiped (wiped m (p.block .a).base (p.block .a).stop) (p.block .b).base
        ((p.block .b).base + page * j)) (p.block .a) = none := by
      refine header_eq_none ?_
      rw [hagree _ (by omega), wiped_of_mem _ (by omega)]
    -- The second block counts until its first page is gone.
    by_cases hj : j = 0
    · rw [if_pos (by omega)]
      refine persisted_of_header_none hp ha ?_
      rw [hj, Nat.mul_zero, Nat.add_zero, wiped_self]
      exact hout.agreeOn (by omega)
    · rw [if_neg (by omega)]
      have hmul := Nat.mul_pos hpos (Nat.pos_of_ne_zero hj)
      exact persisted_of_headers_none ha (header_eq_none (wiped_of_mem _ (by omega)))
  | counter =>
    rw [if_neg (by omega), if_neg (by omega)]
    -- A counter without a magic word is no header.
    have hcounter : (p.block .a).counterAddress = (p.block .a).base + 4 := rfl
    refine persisted_of_headers_none (header_eq_none ?_) (header_eq_none ?_)
    · rw [Function.update_of_ne (by omega), wiped_of_not_mem _ (by omega),
        wiped_of_mem _ (by omega)]
    · rw [Function.update_of_ne (by omega), wiped_of_mem _ (by omega)]

end Memory

/-! ### Programs and erases of a format -/

/-- Programs and erases of a format that runs to its end. -/
def formatCost (p : Placement) (page : Nat) : Nat := 2 * (p.blockSize.toNat / page) + 2

lemma formatted_eq (p : Placement) (m : Memory) :
    writeWords (wiped (wiped m (p.block .a).base (p.block .a).stop) (p.block .b).base
      (p.block .b).stop) (p.block .a).base [magic, 0] = formatted p m := by
  rw [wiped_comm]
  rfl

/-- Wipe both blocks and program the header of the first. -/
def formatDevice (p : Placement) : ProgramM δ Unit := do
  wipeBlock (p.block .a)
  wipeBlock (p.block .b)
  programVerified (p.block .a).counterAddress 0
  programVerified (p.block .a).magicAddress magic

/-- A format runs to its end or is cut at one of its memories. -/
lemma runs_formatDevice {d : δ} (hd : Unlocked d)
    (hf : p.Fits (FlashDevice.pageSize δ).toNat (FlashDevice.capacity d).toNat) :
    Runs (formatDevice p) d
      (fun _ k m => k = formatCost p (FlashDevice.pageSize δ).toNat ∧
        m = formatted p (FlashDevice.readWord d))
      (fun k m => k < formatCost p (FlashDevice.pageSize δ).toNat ∧
        Formatting p (FlashDevice.pageSize δ).toNat (FlashDevice.readWord d) k m) := by
  have hp := hf.regular pageSize_mod
  have hroom := hp.first_add_le .a
  have hbase := (p.block .a).first_eq
  have hmod := hp.base_mod .a
  have hstop_a := hf.stop_le .a
  have hapart := hp.apart .a
  simp only [Side.other] at hapart
  unfold formatDevice formatCost
  generalize hn : p.blockSize.toNat / (FlashDevice.pageSize δ).toNat = n
  have hwipe_a := runs_wipeBlock hd hf.pageSize_pos (hf.pageSize_dvd_base .a) hf.pageSize_dvd
    hstop_a
  rw [Placement.size_block, hn] at hwipe_a
  refine Runs.bind (hwipe_a.mono (fun _ _ _ h => h) ?_) ?_
  · rintro k m ⟨hk, rfl⟩
    exact ⟨by omega, .first (by omega)⟩
  · rintro _ d₁ k hd₁ hk ⟨hkn, hm₁⟩
    have hcap₁ := capacity_of_reaches hk
    -- The second block is wiped on the device that the first wipe leaves,
    have hwipe_b := runs_wipeBlock hd₁ hf.pageSize_pos (hf.pageSize_dvd_base .b) hf.pageSize_dvd
      (by rw [hcap₁]; exact hf.stop_le .b)
    rw [Placement.size_block, hn, hm₁] at hwipe_b
    refine Runs.bind (hwipe_b.mono (fun _ _ _ h => h) ?_) ?_
    · rintro j m ⟨hj, rfl⟩
      subst hn hkn
      exact ⟨by omega, .second (by omega)⟩
    · rintro _ d₂ j hd₂ hj ⟨hjn, hm₂⟩
      have hcap₂ := capacity_of_reaches hj
      -- and the header goes to words that the first wipe has erased and the second has spared.
      have hread : ∀ i, (p.block .a).base ≤ i → i < (p.block .a).stop →
          FlashDevice.readWord d₂ i = Word.erased := by
        intro i h₁ h₂
        rw [hm₂, wiped_of_not_mem _ (by omega), wiped_of_mem _ (by omega)]
      have hpair := runs_programPair magic 0 hd₂ hmod (by rw [hcap₂, hcap₁]; omega)
        (hread _ (by omega) (by omega)) (hread _ (by omega) (by omega))
      have hfull : (p.block .b).base + (FlashDevice.pageSize δ).toNat * n =
          (p.block .b).stop := by
        rw [← hn, Nat.mul_div_cancel' hf.pageSize_dvd]
        rfl
      refine hpair.mono ?_ ?_
      · rintro _ i m ⟨rfl, rfl⟩
        refine ⟨by omega, ?_⟩
        rw [hm₂]
        exact formatted_eq p _
      -- Cut before the counter or between it and the magic word.
      · rintro i m (⟨rfl, rfl⟩ | ⟨rfl, rfl⟩)
        · have h : Formatting p (FlashDevice.pageSize δ).toNat (FlashDevice.readWord d) _ _ :=
            .second (k := n) (Nat.le_of_eq hn.symm)
          rw [hfull, hn] at h
          rw [hm₂, hkn, hjn]
          exact ⟨by omega, h⟩
        · have h : Formatting p (FlashDevice.pageSize δ).toNat (FlashDevice.readWord d) _ _ :=
            .counter
          rw [hn] at h
          rw [hm₂]
          refine ⟨by omega, ?_⟩
          rwa [show k + (j + 1) = 2 * n + 1 by omega]

/-- A format succeeds with an empty store in service, or is cut and leaves it out of service. -/
theorem acts_format {s : Store δ} (hs : s.Operable) :
    Acts format s
      (fun _ k v => k = formatCost s.placement (FlashDevice.pageSize δ).toNat ∧
        v = ⟨formatted s.placement s.word, .a, 0, (s.placement.block .a).first, true⟩)
      (fun e k v => e.FromDevice ∧ v.inService = false ∧
        k < formatCost s.placement (FlashDevice.pageSize δ).toNat ∧
        Formatting s.placement (FlashDevice.pageSize δ).toNat s.word k v.word) := by
  unfold format
  refine Acts.modify_bind ⟨rfl, rfl, reaches_refl _⟩ (Acts.get_bind (Acts.get_bind ?_))
  have hop : Operable { s with inService := false } :=
    ⟨hs.fits, hs.unlocked, hs.first_le, hs.le_stop⟩
  have hroom := hs.regular.first_add_le .a
  have hrun := runs_formatDevice (p := s.placement) hop.unlocked_beginUnlocked
    hop.beginUnlocked.fits
  rw [readWord_beginUnlocked] at hrun
  refine Acts.bind ((Acts.withUnlocked_onDevice hop hrun).mono (fun _ _ _ h => h) ?_) ?_
  · rintro e k v ⟨he, hv, hk, hcut⟩
    exact ⟨he, by rw [hv]; rfl, hk, hcut⟩
  · rintro _ s₁ k hs₁ hk ⟨hv, hcost, hword⟩
    have hplace : s₁.placement = s.placement := hk.placement_eq
    refine Acts.modify ⟨hs₁.fits, hs₁.unlocked, ?_, ?_⟩ ⟨rfl, rfl, reaches_refl _⟩ ⟨hcost, ?_⟩
    · show (s₁.placement.block .a).first ≤ (s.placement.block .a).first
      exact Nat.le_of_eq (by rw [hplace])
    · show (s.placement.block .a).first ≤ (s₁.placement.block .a).stop
      rw [hplace]
      omega
    · rw [← show s₁.word = formatted s.placement s.word from hword]
      rfl

end FlashStore
