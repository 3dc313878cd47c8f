import Mathlib.Order.CompletePartialOrder
import Mathlib.Order.Interval.Set.Disjoint
import FlashStore.Proofs.Geometry

/-!
# Placements by adjustment

A placement is mostly made from two adjacent blocks of the default size, by setting the block size
and the reserve any number of times. Addresses may wrap around on the way: what counts are the last
size and the last reserve, and the placement is accepted exactly if two blocks of that size fit the
device one behind the other.
-/

namespace FlashStore.Placement

variable {pageSize capacity : Word}

/-- A placement is accepted exactly if page size, block size and reserve go together, both blocks
start on a page and end inside the device, and no address is in both. -/
theorem check_eq_ok_iff_fits {p : Placement} :
    p.check pageSize capacity = .ok () ↔
      0 < pageSize.toNat ∧ 20 ≤ p.blockSize.toNat ∧ pageSize.toNat ∣ p.blockSize.toNat ∧
        pageSize.toNat ∣ p.blockA.toNat ∧ pageSize.toNat ∣ p.blockB.toNat ∧
        p.reserve.toNat < p.blockSize.toNat ∧
        p.blockA.toNat + p.blockSize.toNat ≤ capacity.toNat ∧
        p.blockB.toNat + p.blockSize.toNat ≤ capacity.toNat ∧
        Disjoint (Set.Ico p.blockA.toNat (p.blockA.toNat + p.blockSize.toNat))
          (Set.Ico p.blockB.toNat (p.blockB.toNat + p.blockSize.toNat)) := by
  rw [check_eq_ok_iff, accepts_iff_fits, Set.disjoint_left]
  constructor
  · intro h
    exact ⟨h.pageSize_pos, h.minBlockSize_le, h.pageSize_dvd, h.pageSize_dvd_base .a,
      h.pageSize_dvd_base .b, h.reserve_lt, h.stop_le .a, h.stop_le .b,
      fun x ha hb => h.disjoint x ⟨ha, hb⟩⟩
  · rintro ⟨hpos, hmin, hdvd, hbaseA, hbaseB, hreserve, hstopA, hstopB, hdisjoint⟩
    refine ⟨hpos, hmin, hdvd, ?_, hreserve, ?_, fun x h => hdisjoint h.1 h.2⟩
    · rintro (_ | _)
      · exact hbaseA
      · exact hbaseB
    · rintro (_ | _)
      · exact hstopA
      · exact hstopB

/-! ### Adjustments -/

/-- A setting of a placement that is changed. -/
inductive Adjustment where
  | blockSize (n : Word)
  | reserve (n : Word)
  deriving DecidableEq, Repr

namespace Adjustment

/-- Change the setting. -/
def apply : Adjustment → Placement → Placement
  | blockSize n => withBlockSize n
  | reserve n => withReserve n

/-- The block size that is set, if any. -/
def blockSize? : Adjustment → Option Word
  | blockSize n => some n
  | reserve _ => none

/-- The reserve that is set, if any. -/
def reserve? : Adjustment → Option Word
  | blockSize _ => none
  | reserve n => some n

/-- The last value that a list of changes sets, or else the one there was. -/
def last (set? : Adjustment → Option Word) (changes : List Adjustment) (old : Word) : Word :=
  (changes.reverse.findSome? set?).getD old

lemma last_cons (set? : Adjustment → Option Word) (change : Adjustment)
    (changes : List Adjustment) (old : Word) :
    last set? (change :: changes) old = last set? changes ((set? change).getD old) := by
  rw [last, last, List.reverse_cons, List.findSome?_append, List.findSome?_singleton,
    Option.getD_or]

end Adjustment

/-- Make changes one after another. -/
def adjust (changes : List Adjustment) (p : Placement) : Placement :=
  changes.foldl (fun p change => change.apply p) p

/-- Adjacent blocks stay adjacent, whether or not the second one wraps around. -/
lemma Adjustment.apply_adjacent (change : Adjustment) (base n reserve : Word) :
    change.apply ⟨base, base + n, n, reserve⟩ =
      ⟨base, base + change.blockSize?.getD n, change.blockSize?.getD n,
        change.reserve?.getD reserve⟩ := by
  cases change with
  | blockSize m => simp [apply, withBlockSize, blockSize?, reserve?]
  | reserve m => rfl

/-- After any changes the second block is as far from the first as the last size says. -/
lemma adjust_adjacent (changes : List Adjustment) (base n reserve : Word) :
    adjust changes ⟨base, base + n, n, reserve⟩ =
      ⟨base, base + Adjustment.last (·.blockSize?) changes n,
        Adjustment.last (·.blockSize?) changes n,
        Adjustment.last (·.reserve?) changes reserve⟩ := by
  induction changes generalizing n reserve with
  | nil => rfl
  | cons change changes ih =>
    rw [Adjustment.last_cons, Adjustment.last_cons, ← ih, ← change.apply_adjacent]
    rfl

/-- Two blocks of one size, the second right behind the first, fit a device exactly if both fit
together. A second block that wraps around does not fit. -/
lemma check_adjacent {base n reserve : Word} :
    (⟨base, base + n, n, reserve⟩ : Placement).check pageSize capacity = .ok () ↔
      0 < pageSize.toNat ∧ 20 ≤ n.toNat ∧ pageSize.toNat ∣ n.toNat ∧
        pageSize.toNat ∣ base.toNat ∧ reserve.toNat < n.toNat ∧
        base.toNat + 2 * n.toNat ≤ capacity.toNat := by
  have hcap := capacity.toNat_lt
  have hexact (h : base.toNat + n.toNat ≤ capacity.toNat) :
      (base + n).toNat = base.toNat + n.toNat := by
    rw [UInt32.toNat_add]
    omega
  rw [check_eq_ok_iff_fits]
  dsimp only
  constructor
  · rintro ⟨hpos, hmin, hdvd, hbase, -, hreserve, hfirst, hsecond, -⟩
    rw [hexact hfirst] at hsecond
    exact ⟨hpos, hmin, hdvd, hbase, hreserve, by omega⟩
  · rintro ⟨hpos, hmin, hdvd, hbase, hreserve, hboth⟩
    have hfirst : base.toNat + n.toNat ≤ capacity.toNat := by omega
    rw [hexact hfirst, Set.Ico_disjoint_Ico]
    exact ⟨hpos, hmin, hdvd, hbase, Nat.dvd_add hbase hdvd, hreserve, hfirst, by omega, by omega⟩

/-- Checking a placement is exact: in numbers that do not wrap, it accepts the placements whose
blocks consist of whole pages, have room for a record and more than the reserve, lie on the device
and have no address in common. Starting with adjacent blocks of the default size, whatever sizes
and reserves are set one after another, the last ones decide: both blocks of that size must fit the
device one behind the other. -/
theorem checked_exactly (pageSize capacity : Word) :
    (∀ a b size reserve : Word,
      (⟨a, b, size, reserve⟩ : Placement).check pageSize capacity = .ok () ↔
        0 < pageSize.toNat ∧ 20 ≤ size.toNat ∧ pageSize.toNat ∣ size.toNat ∧
          pageSize.toNat ∣ a.toNat ∧ pageSize.toNat ∣ b.toNat ∧ reserve.toNat < size.toNat ∧
          a.toNat + size.toNat ≤ capacity.toNat ∧ b.toNat + size.toNat ≤ capacity.toNat ∧
          Disjoint (Set.Ico a.toNat (a.toNat + size.toNat))
            (Set.Ico b.toNat (b.toNat + size.toNat))) ∧
    ∀ (base : Word) (changes : List Adjustment),
      let size := Adjustment.last (·.blockSize?) changes 1024
      let reserve := Adjustment.last (·.reserve?) changes 32
      (adjust changes (adjacent base)).check pageSize capacity = .ok () ↔
        0 < pageSize.toNat ∧ 20 ≤ size.toNat ∧ pageSize.toNat ∣ size.toNat ∧
          pageSize.toNat ∣ base.toNat ∧ reserve.toNat < size.toNat ∧
          base.toNat + 2 * size.toNat ≤ capacity.toNat := by
  constructor
  · intro a b size reserve
    exact check_eq_ok_iff_fits
  · intro base changes size reserve
    have hadjust := adjust_adjacent changes base defaultBlockSize defaultReserve
    rw [show adjacent base = ⟨base, base + defaultBlockSize, defaultBlockSize, defaultReserve⟩
      from rfl, hadjust]
    exact check_adjacent

/-- A size with which the second block wraps around leaves no trace once it is replaced. -/
example : adjust [.blockSize 0xFFFFFC00, .reserve 8, .blockSize 2048] (adjacent 4096) =
    ⟨4096, 6144, 2048, 8⟩ := by decide

end FlashStore.Placement
