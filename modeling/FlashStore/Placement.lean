import FlashStore.Layout
import FlashStore.Store.Error

/-!
# Placement of a store

A `Placement` says where the two blocks lie and how early space is reclaimed. `Placement.check`
accepts it for a device in 32-bit arithmetic; `Placement.Fits` says the same of exact numbers.
-/

namespace FlashStore

/-- The smallest block: a header and one record of the shortest payload. -/
def minBlockSize : Nat := firstRecordOffset + recordSpan minPayload

/-- Where the two blocks of a store lie and how eagerly it is compacted. -/
structure Placement where
  blockA : Word
  blockB : Word
  blockSize : Word
  /-- Free space below which a compaction follows a write. -/
  reserve : Word
  deriving DecidableEq, Repr

namespace Placement

def defaultBlockSize : Word := 1024

def defaultReserve : Word := 32

/-- Blocks of the default size at two addresses. -/
def withBlocks (blockA blockB : Word) : Placement :=
  ⟨blockA, blockB, defaultBlockSize, defaultReserve⟩

/-- Two adjacent blocks of the default size. -/
def adjacent (base : Word) : Placement := withBlocks base (base + defaultBlockSize)

instance : Inhabited Placement := ⟨adjacent 0⟩

/-- Change the block size. Adjacent blocks stay adjacent. -/
def withBlockSize (n : Word) (p : Placement) : Placement :=
  { p with
    blockB := if p.blockB = p.blockA + p.blockSize then p.blockA + n else p.blockB
    blockSize := n }

/-- Change the free space below which a compaction follows a write. -/
def withReserve (n : Word) (p : Placement) : Placement := { p with reserve := n }

/-- The address of a block. -/
def base (p : Placement) : Side → Word
  | .a => p.blockA
  | .b => p.blockB

/-- The block on one side. -/
def block (p : Placement) (side : Side) : Block := ⟨(p.base side).toNat, p.blockSize.toNat⟩

@[simp] theorem base_block (p : Placement) (s : Side) : (p.block s).base = (p.base s).toNat := rfl

@[simp] theorem size_block (p : Placement) (s : Side) : (p.block s).size = p.blockSize.toNat := rfl

/-! ### Checking against a device -/

/-- The sum of two words, `none` if it does not fit a word. -/
def checkedAdd (m n : Word) : Option Word := if m + n < m then none else some (m + n)

/-- The distance between two words. -/
def distance (m n : Word) : Word := if m < n then n - m else m - n

/-- Whether a block starts on a page and ends inside the device. -/
def isOnDevice (p : Placement) (pageSize capacity : Word) (side : Side) : Bool :=
  p.base side % pageSize == 0 && (checkedAdd (p.base side) p.blockSize).any (· ≤ capacity)

/-- Whether blocks span whole pages and have room for a record, the reserve leaves room, both
blocks are on the device, and they do not overlap. -/
def accepts (p : Placement) (pageSize capacity : Word) : Bool :=
  pageSize != 0 && UInt32.ofNat minBlockSize ≤ p.blockSize && p.blockSize % pageSize == 0 &&
    p.reserve < p.blockSize && p.isOnDevice pageSize capacity .a &&
    p.isOnDevice pageSize capacity .b && p.blockSize ≤ distance p.blockA p.blockB

/-- Check the placement against the page size and capacity of a device. -/
def check (p : Placement) (pageSize capacity : Word) : Except StoreError Unit :=
  if p.accepts pageSize capacity then .ok () else .error .misplaced

/-- The rules of placement over exact numbers: whole pages, room for a record and a reserve inside
the block, both blocks on the device, and no address in both. -/
structure Fits (p : Placement) (pageSize capacity : Nat) : Prop where
  pageSize_pos : 0 < pageSize
  minBlockSize_le : minBlockSize ≤ p.blockSize.toNat
  pageSize_dvd : pageSize ∣ p.blockSize.toNat
  pageSize_dvd_base : ∀ s, pageSize ∣ (p.block s).base
  reserve_lt : p.reserve.toNat < p.blockSize.toNat
  stop_le : ∀ s, (p.block s).stop ≤ capacity
  disjoint : ∀ x, ¬ (((p.block .a).base ≤ x ∧ x < (p.block .a).stop) ∧
    ((p.block .b).base ≤ x ∧ x < (p.block .b).stop))

@[simp] theorem check_eq_ok_iff {p : Placement} {pageSize capacity : Word} :
    p.check pageSize capacity = .ok () ↔ p.accepts pageSize capacity = true := by
  unfold check
  split <;> simp_all

end Placement

end FlashStore
