import FlashStore.Flash.Nor
import FlashStore.Proofs.Memory
import FlashStore.Proofs.Outcome

/-!
# Lawful devices

A device is lawful if an erase of an unprotected page, or a program of an unprotected word that only
clears bits, does what it should or fails and changes nothing. Why it may fail is the device's own
affair: `LawfulFlash.Refuses` says when, and `LawfulFlash.Reaches` counts the programs and erases
done in between.

Pages of a lawful device hold whole words. NOR flash with such pages is lawful, and refuses only for
want of power. A placement only asks that blocks are made of pages, so on other pages a block may be
accepted that starts off a word boundary. Its header cannot be programmed then, and the compaction
that is to fill it fails on flash that is in order.
-/

namespace FlashStore

/-- A device whose pages hold whole words and whose programs and erases do what they should or
nothing. -/
class LawfulFlash (δ : Type) [FlashDevice δ] where
  Unlocked : δ → Prop
  /-- The second device is the first after so many programs and erases. -/
  Reaches : Nat → δ → δ → Prop
  /-- The device fails even a proper program or erase. -/
  Refuses : δ → DeviceError → Prop
  /-- Pages hold whole words, so every block that is made of pages starts with one. -/
  pageSize_mod : (FlashDevice.pageSize δ).toNat % 4 = 0
  reaches_refl (d : δ) : Reaches 0 d d
  reaches_trans {j k : Nat} {d d' d'' : δ} :
    Reaches j d d' → Reaches k d' d'' → Reaches (j + k) d d''
  capacity_of_reaches {k : Nat} {d d' : δ} :
    Reaches k d d' → FlashDevice.capacity d' = FlashDevice.capacity d
  unlocked_unlock (d : δ) : Unlocked (FlashDevice.unlock d)
  reaches_unlock (d : δ) : Reaches 0 d (FlashDevice.unlock d)
  reaches_lock (d : δ) : Reaches 0 d (FlashDevice.lock d)
  refuses_lock {d : δ} {e : DeviceError} : Refuses d e → Refuses (FlashDevice.lock d) e
  readWord_unlock (d : δ) : FlashDevice.readWord (FlashDevice.unlock d) = FlashDevice.readWord d
  readWord_lock (d : δ) : FlashDevice.readWord (FlashDevice.lock d) = FlashDevice.readWord d
  ensures_programWord {d : δ} {a : Nat} (w : Word) :
    Unlocked d → a % 4 = 0 → a + 4 ≤ (FlashDevice.capacity d).toNat →
      FlashDevice.readWord d a &&& w = w → Ensures (FlashDevice.programWord a w) d
        (fun _ d' => Unlocked d' ∧ Reaches 1 d d' ∧ FlashDevice.readWord d' =
          Function.update (FlashDevice.readWord d) a (FlashDevice.readWord d a &&& w))
        (fun e d' => Unlocked d' ∧ Reaches 0 d d' ∧ Refuses d' e ∧
          FlashDevice.readWord d' = FlashDevice.readWord d)
  ensures_erasePage {d : δ} {a : Nat} :
    Unlocked d → a % (FlashDevice.pageSize δ).toNat = 0 →
      a + (FlashDevice.pageSize δ).toNat ≤ (FlashDevice.capacity d).toNat →
      Ensures (FlashDevice.erasePage a) d
        (fun _ d' => Unlocked d' ∧ Reaches 1 d d' ∧ FlashDevice.readWord d' =
          wiped (FlashDevice.readWord d) a (a + (FlashDevice.pageSize δ).toNat))
        (fun e d' => Unlocked d' ∧ Reaches 0 d d' ∧ Refuses d' e ∧
          FlashDevice.readWord d' = FlashDevice.readWord d)

namespace NorFlash

variable {size page : Nat}

/-! ### Power -/

/-- The second device is the first with so many programs and erases taken off its power budget. -/
def SpentBy (k : Nat) (d d' : NorFlash size page) : Prop :=
  (d.budget = none ∧ d'.budget = none) ∨ ∃ n, d.budget = some (n + k) ∧ d'.budget = some n

lemma SpentBy.refl (d : NorFlash size page) : SpentBy 0 d d := by
  cases h : d.budget with
  | none => exact Or.inl ⟨h, h⟩
  | some n => exact Or.inr ⟨n, h, h⟩

lemma SpentBy.trans {j k : Nat} {d d' d'' : NorFlash size page} (h : SpentBy j d d')
    (h' : SpentBy k d' d'') : SpentBy (j + k) d d'' := by
  rcases h with ⟨h₀, h₁⟩ | ⟨n, h₀, h₁⟩ <;> rcases h' with ⟨h₂, h₃⟩ | ⟨n', h₂, h₃⟩
  · exact Or.inl ⟨h₀, h₃⟩
  · simp [h₁] at h₂
  · simp [h₁] at h₂
  · obtain rfl : n = n' + k := by simpa [h₁] using h₂
    exact Or.inr ⟨n', by rw [h₀, Nat.add_assoc, Nat.add_comm k], h₃⟩

lemma spentBy_one {d d' : NorFlash size page} (h : d.budget ≠ some 0)
    (h' : d'.budget = d.budget.map (· - 1)) : SpentBy 1 d d' := by
  cases hb : d.budget with
  | none => exact Or.inl ⟨hb, by simp [h', hb]⟩
  | some n =>
    cases n with
    | zero => exact absurd hb h
    | succ n => exact Or.inr ⟨n, hb, by simp [h', hb]⟩

/-- A proper access to an unprotected device is refused for want of power only. -/
lemma refusal_eq {d : NorFlash size page} {width a : Nat} (hl : d.locked = false)
    (ha : a % width = 0) (hs : a + width ≤ size) :
    d.refusal width a = if d.budget = some 0 then some .powerLoss else none := by
  simp [refusal, misplaced, isPoweredDown, hl, ha, Nat.not_lt.2 hs]

lemma misplaced_eq_none_iff {width a : Nat} :
    misplaced size width a = none ↔ a % width = 0 ∧ a + width ≤ size := by
  unfold misplaced
  split_ifs with ha hs
  · simp [ha]
  · simp [hs]
  · simp [not_not.1 ha, Nat.not_lt.1 hs]

/-- A program or erase is let through exactly if it is in place and finds the device unprotected and
with power. -/
lemma refusal_eq_none_iff {d : NorFlash size page} {width a : Nat} :
    d.refusal width a = none ↔
      (a % width = 0 ∧ a + width ≤ size) ∧ d.locked = false ∧ d.budget ≠ some 0 := by
  rw [← misplaced_eq_none_iff]
  unfold refusal isPoweredDown
  cases misplaced size width a with
  | some e => simp
  | none => cases d.locked <;> simp

/-- Power is what a program or erase lacks only if it lacks nothing else. -/
lemma refusal_eq_powerLoss_iff {d : NorFlash size page} {width a : Nat} :
    d.refusal width a = some .powerLoss ↔
      (a % width = 0 ∧ a + width ≤ size) ∧ d.locked = false ∧ d.budget = some 0 := by
  rw [← misplaced_eq_none_iff]
  unfold refusal isPoweredDown
  cases hm : misplaced size width a with
  | some e =>
    unfold misplaced at hm
    split_ifs at hm <;> cases hm <;> simp
  | none => cases d.locked <;> simp

/-! ### Words after a program or erase -/

lemma readWord_put_word (d : NorFlash size page) {a : Nat} (w : Word) (ha : a % 4 = 0)
    (hs : a + 4 ≤ size) :
    (d.put a w.toBytes).readWord = Function.update d.readWord a w := by
  funext i
  by_cases hi : i = a
  · subst hi
    rw [Function.update_self, readWord_put d w ha hs]
  · rw [Function.update_of_ne hi]
    by_cases hm : i % 4 = 0
    · exact readWord_put_of_disjoint d _ (by rw [Word.length_toBytes]; omega)
    · simp [readWord, hm]

/-- Erased bytes make an erased word. -/
lemma readWord_of_bytes_erased {d : NorFlash size page} {i : Nat}
    (h : ∀ k < 4, d.byte (i + k) = 0xFF) : d.readWord i = Word.erased := by
  have hbytes : d.bytesFrom i 4 = [0xFF, 0xFF, 0xFF, 0xFF] := by
    simp [bytesFrom, List.range, List.range.loop, h 1, h 2, h 3,
      show d.byte i = 0xFF from h 0 (by omega)]
  unfold readWord
  split
  · rw [hbytes]
    rfl
  · rfl

/-- Bytes that are put all alike. -/
lemma byte_put_replicate (d : NorFlash size page) {a i n : Nat} (b : UInt8) (hle : a ≤ i)
    (hlt : i < a + n) (hs : a + n ≤ size) : (d.put a (List.replicate n b)).byte i = b := by
  rw [byte_put, if_pos ⟨hle, by omega⟩, List.getElem?_replicate, if_pos (by omega)]
  rfl

lemma readWord_put_erased (d : NorFlash size page) {a n : Nat} (ha : a % 4 = 0) (hn : n % 4 = 0)
    (hs : a + n ≤ size) :
    (d.put a (List.replicate n 0xFF)).readWord = wiped d.readWord a (a + n) := by
  funext i
  by_cases hi : a ≤ i ∧ i < a + n
  · rw [wiped_of_mem _ hi]
    by_cases hm : i % 4 = 0
    · refine readWord_of_bytes_erased fun k hk => ?_
      exact d.byte_put_replicate 0xFF (by omega) (by omega) hs
    · simp [readWord, hm]
  · rw [wiped_of_not_mem _ (by omega)]
    by_cases hm : i % 4 = 0
    · exact readWord_put_of_disjoint d _ (by rw [List.length_replicate]; omega)
    · simp [readWord, hm]

lemma toNat_capacity_le (d : NorFlash size page) : (FlashDevice.capacity d).toNat ≤ size := by
  show (UInt32.ofNat size).toNat ≤ size
  rw [UInt32.toNat_ofNat']
  exact Nat.mod_le _ _

lemma toNat_pageSize (hp : page < 2 ^ 32) :
    (FlashDevice.pageSize (NorFlash size page)).toNat = page := by
  show (UInt32.ofNat page).toNat = page
  rw [UInt32.toNat_ofNat', Nat.mod_eq_of_lt hp]

/-- Pages of this size hold whole words, and the size is reported in a word. Over other pages NOR
flash is not lawful, as a block that starts off a word boundary cannot be compacted into. -/
class WordPages (page : Nat) : Prop where
  dvd : 4 ∣ page
  lt : page < 2 ^ 32

instance : WordPages 4 := ⟨by decide, by decide⟩

instance : WordPages 20 := ⟨by decide, by decide⟩

instance : WordPages 24 := ⟨by decide, by decide⟩

/-- NOR flash whose pages hold whole words is lawful. -/
instance [hp : WordPages page] : LawfulFlash (NorFlash size page) where
  Unlocked d := d.locked = false
  Reaches := SpentBy
  Refuses d e := e = .powerLoss ∧ d.budget = some 0
  pageSize_mod := by
    rw [toNat_pageSize hp.lt]
    exact Nat.mod_eq_zero_of_dvd hp.dvd
  reaches_refl := SpentBy.refl
  reaches_trans := SpentBy.trans
  capacity_of_reaches _ := rfl
  unlocked_unlock _ := rfl
  reaches_unlock := SpentBy.refl
  reaches_lock := SpentBy.refl
  refuses_lock h := h
  readWord_unlock _ := rfl
  readWord_lock _ := rfl
  ensures_programWord {d a} w hd ha hs _ := by
    have hs' : a + 4 ≤ size := Nat.le_trans hs d.toNat_capacity_le
    by_cases hb : d.budget = some 0
    · have h : (programWord a w).run d = .error .powerLoss d := by
        rw [run_programWord, refusal_eq hd ha hs', if_pos hb]
      exact .intro_error h ⟨hd, SpentBy.refl d, ⟨rfl, hb⟩, rfl⟩
    · -- With the bytes generalized nothing below looks into them.
      obtain ⟨bytes, hbytes⟩ : ∃ bytes, (d.readWord a &&& w).toBytes = bytes := ⟨_, rfl⟩
      have h : (programWord a w).run d =
          .ok () { (d.put a bytes).spend with programs := d.programs + 1 } := by
        rw [run_programWord, refusal_eq hd ha hs', if_neg hb, hbytes]
      have hword : (d.put a bytes).readWord =
          Function.update d.readWord a (d.readWord a &&& w) := by
        rw [← hbytes, d.readWord_put_word _ ha hs']
      exact .intro_ok h ⟨hd, spentBy_one hb rfl, hword⟩
  ensures_erasePage {d a} hd ha hs := by
    rw [toNat_pageSize hp.lt] at ha hs ⊢
    have hs' : a + page ≤ size := Nat.le_trans hs d.toNat_capacity_le
    by_cases hb : d.budget = some 0
    · have h : (erasePage a).run d = .error .powerLoss d := by
        rw [run_erasePage, refusal_eq hd ha hs', if_pos hb]
      exact .intro_error h ⟨hd, SpentBy.refl d, ⟨rfl, hb⟩, rfl⟩
    · have h : (erasePage a).run d = .ok ()
          { (d.put a (List.replicate page 0xFF)).spend with erases := d.erases + 1 } := by
        rw [run_erasePage, refusal_eq hd ha hs', if_neg hb]
      -- A page that holds whole words starts on a word boundary.
      have h4a : a % 4 = 0 :=
        Nat.mod_eq_zero_of_dvd (Nat.dvd_trans hp.dvd (Nat.dvd_of_mod_eq_zero ha))
      exact .intro_ok h ⟨hd, spentBy_one hb rfl,
        d.readWord_put_erased h4a (Nat.mod_eq_zero_of_dvd hp.dvd) hs'⟩

end NorFlash

end FlashStore
