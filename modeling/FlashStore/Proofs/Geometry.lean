import Mathlib.Tactic.Common
import FlashStore.Placement

/-!
# Accepted placements

`Placement.accepts` works in machine arithmetic, and accepts what fits the device in exact numbers.
On a device whose pages hold whole words the blocks of such a placement are `Regular`, which is all
that the theory of the flash contents needs.
-/

namespace FlashStore

variable {p : Placement}

lemma Side.eq_or_eq_other (s t : Side) : s = t ∨ s = t.other := by
  cases s <;> cases t <;> simp [Side.other]

lemma Block.first_eq (block : Block) : block.first = block.base + 8 := rfl

lemma Block.stop_eq (block : Block) : block.stop = block.base + block.size := rfl

namespace Placement

/-- Both blocks consist of words, have room for a record and lie apart. -/
structure Regular (p : Placement) : Prop where
  base_mod : ∀ s, (p.block s).base % 4 = 0
  size_mod : p.blockSize.toNat % 4 = 0
  minBlockSize_le : minBlockSize ≤ p.blockSize.toNat
  apart : ∀ s, (p.block s).stop ≤ (p.block s.other).base ∨ (p.block s.other).stop ≤ (p.block s).base

namespace Regular

variable (hp : p.Regular)
include hp

lemma first_mod (side : Side) : (p.block side).first % 4 = 0 := by
  have h := hp.base_mod side
  simp only [Block.first, firstRecordOffset]
  omega

/-- A block has its header, then room for a record. -/
lemma first_add_le (side : Side) : (p.block side).first + 12 ≤ (p.block side).stop := by
  have h := hp.minBlockSize_le
  simp only [minBlockSize, firstRecordOffset, minPayload, recordSpan, roundToWords,
    payloadOffset] at h
  simp only [Block.first, Block.stop, size_block, firstRecordOffset]
  omega

/-- Both blocks have the same capacity for records. -/
lemma stop_eq (s t : Side) :
    (p.block s).stop = (p.block s).first + (p.block t).capacity := by
  have h := hp.first_add_le s
  simp only [Block.first_eq, Block.stop_eq, size_block] at h
  simp only [Block.first_eq, Block.stop_eq, Block.capacity, size_block, firstRecordOffset]
  omega

end Regular

lemma Fits.regular {pageSize capacity : Nat} (h : p.Fits pageSize capacity)
    (h4 : pageSize % 4 = 0) : p.Regular where
  base_mod s := Nat.mod_eq_zero_of_dvd
    (Nat.dvd_trans (Nat.dvd_of_mod_eq_zero h4) (h.pageSize_dvd_base s))
  size_mod := Nat.mod_eq_zero_of_dvd
    (Nat.dvd_trans (Nat.dvd_of_mod_eq_zero h4) h.pageSize_dvd)
  minBlockSize_le := h.minBlockSize_le
  apart s := by
    have hmin := h.minBlockSize_le
    have ha := h.disjoint (p.block .a).base
    have hb := h.disjoint (p.block .b).base
    simp only [minBlockSize, firstRecordOffset, Block.stop, size_block] at hmin ha hb ⊢
    cases s <;> simp only [Side.other] <;> omega

/-- A sum is in range and within a bound if the exact sum is within the bound. -/
lemma any_checkedAdd_iff {m n w : Word} :
    (checkedAdd m n).any (· ≤ w) = true ↔ m.toNat + n.toNat ≤ w.toNat := by
  have hm := m.toNat_lt
  have hn := n.toNat_lt
  have hw := w.toNat_lt
  have hadd := UInt32.toNat_add m n
  unfold checkedAdd
  split
  · rename_i hlt
    rw [UInt32.lt_iff_toNat_lt] at hlt
    simp only [Option.any_none, Bool.false_eq_true, false_iff]
    omega
  · rename_i hge
    rw [UInt32.lt_iff_toNat_lt] at hge
    simp only [Option.any_some, decide_eq_true_eq, UInt32.le_iff_toNat_le]
    omega

/-- A block starts on a page and ends inside the device. -/
lemma isOnDevice_iff {pageSize capacity : Word} {s : Side} :
    p.isOnDevice pageSize capacity s = true ↔
      pageSize.toNat ∣ (p.block s).base ∧ (p.block s).stop ≤ capacity.toNat := by
  have hmod : p.base s % pageSize = 0 ↔ pageSize.toNat ∣ (p.base s).toNat := by
    rw [← UInt32.toNat_inj, UInt32.toNat_mod, Nat.dvd_iff_mod_eq_zero]
    rfl
  simp only [isOnDevice, Bool.and_eq_true, beq_iff_eq, hmod, any_checkedAdd_iff, Block.stop,
    base_block, size_block]

lemma toNat_distance (m n : Word) :
    (distance m n).toNat = max m.toNat n.toNat - min m.toNat n.toNat := by
  unfold distance
  split
  · rename_i hlt
    have hle := Nat.le_of_lt (UInt32.lt_iff_toNat_lt.1 hlt)
    rw [UInt32.toNat_sub_of_le _ _ (UInt32.le_iff_toNat_le.2 hle)]
    omega
  · rename_i hge
    have hle := Nat.le_of_not_lt fun h => hge (UInt32.lt_iff_toNat_lt.2 h)
    rw [UInt32.toNat_sub_of_le _ _ (UInt32.le_iff_toNat_le.2 hle)]
    omega

/-- No address is in both blocks if their bases are as far apart as they are long. -/
lemma blockSize_le_distance_iff : p.blockSize ≤ distance p.blockA p.blockB ↔
    ∀ x, ¬ (((p.block .a).base ≤ x ∧ x < (p.block .a).stop) ∧
      ((p.block .b).base ≤ x ∧ x < (p.block .b).stop)) := by
  simp only [UInt32.le_iff_toNat_le, toNat_distance, Block.stop, base_block, size_block, base]
  constructor
  · intro h x
    omega
  · intro h
    have hmax := h (max p.blockA.toNat p.blockB.toNat)
    omega

/-- In machine arithmetic `accepts` checks what `Fits` says of exact numbers. -/
theorem accepts_iff_fits {pageSize capacity : Word} :
    p.accepts pageSize capacity = true ↔ p.Fits pageSize.toNat capacity.toNat := by
  have hpos : pageSize ≠ 0 ↔ 0 < pageSize.toNat := by
    rw [Nat.pos_iff_ne_zero, ne_eq, ne_eq, ← UInt32.toNat_inj]
    rfl
  have hdvd : p.blockSize % pageSize = 0 ↔ pageSize.toNat ∣ p.blockSize.toNat := by
    rw [← UInt32.toNat_inj, UInt32.toNat_mod, Nat.dvd_iff_mod_eq_zero]
    rfl
  have hmin : (UInt32.ofNat minBlockSize).toNat = minBlockSize := rfl
  simp only [accepts, Bool.and_eq_true, bne_iff_ne, decide_eq_true_eq, beq_iff_eq, hpos, hdvd,
    isOnDevice_iff, blockSize_le_distance_iff]
  rw [UInt32.le_iff_toNat_le, UInt32.lt_iff_toNat_lt, hmin]
  constructor
  · rintro ⟨⟨⟨⟨⟨⟨hpos, hmin⟩, hdvd⟩, hres⟩, ha⟩, hb⟩, hapart⟩
    refine ⟨hpos, hmin, hdvd, ?_, hres, ?_, hapart⟩
    · rintro (_ | _)
      · exact ha.1
      · exact hb.1
    · rintro (_ | _)
      · exact ha.2
      · exact hb.2
  · rintro ⟨hpos, hmin, hdvd, hbase, hres, hstop, hapart⟩
    exact ⟨⟨⟨⟨⟨⟨hpos, hmin⟩, hdvd⟩, hres⟩, hbase .a, hstop .a⟩, hbase .b, hstop .b⟩, hapart⟩

lemma fits_of_accepts {pageSize capacity : Word} (h : p.accepts pageSize capacity = true) :
    p.Fits pageSize.toNat capacity.toNat := accepts_iff_fits.1 h

end Placement

end FlashStore
