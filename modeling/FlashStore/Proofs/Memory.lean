import Mathlib.Algebra.Group.Nat.Defs
import Mathlib.Logic.Function.Basic
import Mathlib.Tactic.Common
import FlashStore.Word

/-!
# What flash reads as

A device is seen here as a memory, a word at each address. Programming a word whose bits only clear
replaces it, so programs are writes of consecutive words, and erases set ranges to the erased word.
-/

namespace FlashStore

/-- A word at each address. -/
abbrev Memory := Nat → Word

@[simp] lemma Word.erased_and (w : Word) : Word.erased &&& w = w := UInt32.neg_one_and

/-! ### Writing words -/

/-- The memory with consecutive words from an address on. -/
def writeWords (m : Memory) (a : Nat) : List Word → Memory
  | [] => m
  | w :: ws => writeWords (Function.update m a w) (a + 4) ws

@[simp] lemma writeWords_nil (m : Memory) (a : Nat) : writeWords m a [] = m := rfl

lemma writeWords_cons (m : Memory) (a : Nat) (w : Word) (ws : List Word) :
    writeWords m a (w :: ws) = writeWords (Function.update m a w) (a + 4) ws := rfl

lemma writeWords_append (m : Memory) (a : Nat) (us vs : List Word) :
    writeWords m a (us ++ vs) = writeWords (writeWords m a us) (a + 4 * us.length) vs := by
  induction us generalizing m a with
  | nil => rfl
  | cons u us ih =>
    rw [List.cons_append, writeWords_cons, writeWords_cons, ih]
    congr 1
    simp only [List.length_cons]
    omega

/-- Words before the written ones stay. -/
lemma writeWords_of_lt (m : Memory) {a i : Nat} (ws : List Word) (h : i < a) :
    writeWords m a ws i = m i := by
  induction ws generalizing m a with
  | nil => rfl
  | cons w ws ih =>
    rw [writeWords_cons, ih _ (by omega), Function.update_of_ne (by omega)]

/-- Words after the written ones stay. -/
lemma writeWords_of_le (m : Memory) {a i : Nat} {ws : List Word} (h : a + 4 * ws.length ≤ i) :
    writeWords m a ws i = m i := by
  induction ws generalizing m a with
  | nil => rfl
  | cons w ws ih =>
    simp only [List.length_cons] at h
    rw [writeWords_cons, ih _ (by omega), Function.update_of_ne (by omega)]

/-- A written word reads back. -/
lemma writeWords_getElem (m : Memory) {a k : Nat} {ws : List Word} (h : k < ws.length) :
    writeWords m a ws (a + 4 * k) = ws[k] := by
  induction ws generalizing m a k with
  | nil => simp at h
  | cons w ws ih =>
    rw [writeWords_cons]
    cases k with
    | zero => rw [writeWords_of_lt _ _ (by omega)]; simp
    | succ k =>
      have ha : a + 4 * (k + 1) = a + 4 + 4 * k := by omega
      rw [ha, ih, List.getElem_cons_succ]

/-- Writing words below and one word apart from them can be done in any order. -/
lemma writeWords_update_comm (m : Memory) {a i : Nat} {ws : List Word} (w : Word)
    (h : i < a ∨ a + 4 * ws.length ≤ i) :
    writeWords (Function.update m i w) a ws = Function.update (writeWords m a ws) i w := by
  induction ws generalizing m a with
  | nil => rfl
  | cons v ws ih =>
    simp only [List.length_cons] at h
    rw [writeWords_cons, writeWords_cons, Function.update_comm (by omega), ih _ (by omega)]

/-- The first two words can be written after the others. -/
lemma writeWords_pair (m : Memory) (a : Nat) (v w : Word) (ws : List Word) :
    writeWords (writeWords m (a + 8) ws) a [v, w] = writeWords m a (v :: w :: ws) := by
  simp only [writeWords_cons, writeWords_nil]
  rw [Nat.add_assoc, writeWords_update_comm _ _ (by omega), writeWords_update_comm _ _ (by omega)]

/-! ### Erasing ranges -/

/-- The memory with the words from `lo` to before `hi` erased. -/
def wiped (m : Memory) (lo hi : Nat) : Memory :=
  fun i => if lo ≤ i ∧ i < hi then Word.erased else m i

lemma wiped_of_mem (m : Memory) {lo hi i : Nat} (h : lo ≤ i ∧ i < hi) :
    wiped m lo hi i = Word.erased := if_pos h

lemma wiped_of_not_mem (m : Memory) {lo hi i : Nat} (h : i < lo ∨ hi ≤ i) :
    wiped m lo hi i = m i := if_neg (by omega)

@[simp] lemma wiped_self (m : Memory) (lo : Nat) : wiped m lo lo = m := by
  funext i
  exact wiped_of_not_mem m (by omega)

lemma wiped_wiped (m : Memory) {lo mid hi : Nat} (h₁ : lo ≤ mid) (h₂ : mid ≤ hi) :
    wiped (wiped m lo mid) mid hi = wiped m lo hi := by
  funext i
  simp only [wiped]
  split_ifs <;> first | rfl | omega

/-! ### Ranges of agreement -/

/-- The memories agree on the words from `lo` to before `hi`. -/
def AgreeOn (lo hi : Nat) (m m' : Memory) : Prop := ∀ i, lo ≤ i → i < hi → m' i = m i

/-- The memories agree on the words before `lo` and from `hi` on. -/
def AgreeOutside (lo hi : Nat) (m m' : Memory) : Prop := ∀ i, i < lo ∨ hi ≤ i → m' i = m i

lemma AgreeOutside.refl (lo hi : Nat) (m : Memory) : AgreeOutside lo hi m m := fun _ _ => rfl

lemma AgreeOutside.trans {lo hi : Nat} {m m' m'' : Memory} (h : AgreeOutside lo hi m m')
    (h' : AgreeOutside lo hi m' m'') : AgreeOutside lo hi m m'' :=
  fun i hi => (h' i hi).trans (h i hi)

lemma AgreeOutside.mono {lo hi lo' hi' : Nat} {m m' : Memory} (h : AgreeOutside lo hi m m')
    (hlo : lo' ≤ lo) (hhi : hi ≤ hi') : AgreeOutside lo' hi' m m' :=
  fun i hi => h i (by omega)

/-- Ranges apart from a changed one agree. -/
lemma AgreeOutside.agreeOn {lo hi a b : Nat} {m m' : Memory} (h : AgreeOutside lo hi m m')
    (hd : b ≤ lo ∨ hi ≤ a) : AgreeOn a b m m' :=
  fun i h₁ h₂ => h i (by omega)

lemma agreeOutside_writeWords (m : Memory) (a : Nat) (ws : List Word) :
    AgreeOutside a (a + 4 * ws.length) m (writeWords m a ws) := by
  rintro i (h | h)
  · exact writeWords_of_lt m ws h
  · exact writeWords_of_le m h

lemma agreeOutside_wiped (m : Memory) (lo hi : Nat) : AgreeOutside lo hi m (wiped m lo hi) :=
  fun _ h => wiped_of_not_mem m h

end FlashStore
