import FlashStore.Layout

/-!
# Arithmetic in 32 bits

Addresses and sizes are 32-bit words of the machine, and a sum that does not fit is a fault. The
definitions that run take exact numbers for them. Here the sums, products and differences fault
where the machine does, so that it can be stated and proved where none of them does.
-/

namespace FlashStore

/-- A sum or product in 32 bits, `none` if it does not fit. -/
def ranged (n : Nat) : Option Nat := if n < 0x100000000 then some n else none

/-- A difference in 32 bits, `none` if it is negative. -/
def difference (m n : Nat) : Option Nat := if n ≤ m then some (m - n) else none

/-- A sum in 32 bits that stays at the largest word if it does not fit. -/
def saturated (n : Nat) : Nat := min n 0xFFFFFFFF

theorem ranged_of_lt {n : Nat} (h : n < 0x100000000) : ranged n = some n := if_pos h

theorem ranged_of_le {n : Nat} (h : 0x100000000 ≤ n) : ranged n = none := if_neg (Nat.not_lt.2 h)

theorem eq_of_ranged {m n : Nat} (h : ranged m = some n) : n = m :=
  (Option.some.inj (Option.ite_none_right_eq_some.1 h).2).symm

theorem difference_of_le {m n : Nat} (h : n ≤ m) : difference m n = some (m - n) := if_pos h

theorem saturated_of_lt {n : Nat} (h : n < 0x100000000) : saturated n = n :=
  Nat.min_eq_left (Nat.le_of_lt_succ h)

namespace Block

def magicAddress? (block : Block) : Option Nat := ranged (block.base + magicOffset)

def counterAddress? (block : Block) : Option Nat := ranged (block.base + counterOffset)

/-- Address of the first record. -/
def first? (block : Block) : Option Nat := ranged (block.base + firstRecordOffset)

/-- The first address past the block. -/
def stop? (block : Block) : Option Nat := ranged (block.base + block.size)

/-- The largest span of records the block can hold. -/
def capacity? (block : Block) : Option Nat := difference block.size firstRecordOffset

theorem stop?_of_lt {block : Block} (h : block.stop < 0x100000000) :
    block.stop? = some block.stop := ranged_of_lt h

end Block

end FlashStore
