import FlashStore.Flash.Device

/-!
# NOR flash

`NorFlash size page` is internal NOR flash of `size` bytes with `page` byte erase pages: it comes
up write protected, programming a word is bitwise AND with its old value, and erasing a page sets
it to `0xFF`. A power budget cuts power after a number of programs and erases, and both are
counted.

Every call is first checked for alignment, bounds, write protection and power, in this order. A
refused call changes nothing, and spends nothing of the budget.
-/

namespace FlashStore

variable {size page : Nat}

/-! ### Byte images -/

/-- The byte at an address of an image; past its end everything reads as erased. -/
def byteAt (image : Vector UInt8 size) (a : Nat) : UInt8 := image[a]?.getD 0xFF

/-- Put bytes into an image from an address on; what falls past the end is dropped. -/
def overwrite (image : Vector UInt8 size) (a : Nat) : List UInt8 → Vector UInt8 size
  | [] => image
  | b :: bs => overwrite (image.setIfInBounds a b) (a + 1) bs

@[simp] theorem overwrite_nil (image : Vector UInt8 size) (a : Nat) :
    overwrite image a [] = image := rfl

@[simp] theorem byteAt_setIfInBounds (image : Vector UInt8 size) (a i : Nat) (b : UInt8) :
    byteAt (image.setIfInBounds a b) i = if a = i ∧ i < size then b else byteAt image i := by
  simp only [byteAt, Vector.getElem?_setIfInBounds]
  by_cases h : a = i <;> by_cases hi : i < size <;> simp [h, hi]

/-- An overwritten address holds the new byte, every other address its old one. -/
theorem byteAt_overwrite (image : Vector UInt8 size) (a i : Nat) (bs : List UInt8) :
    byteAt (overwrite image a bs) i =
      if a ≤ i ∧ i < size then bs[i - a]?.getD (byteAt image i) else byteAt image i := by
  induction bs generalizing image a with
  | nil => simp
  | cons b bs ih =>
    rw [overwrite, ih, byteAt_setIfInBounds]
    rcases Nat.lt_trichotomy a i with h | h | h
    · have hs : i - a = i - (a + 1) + 1 := by omega
      simp [Nat.le_of_lt h, Nat.succ_le_of_lt h, Nat.ne_of_lt h, hs]
    · subst h
      rw [if_neg (by omega : ¬ (a + 1 ≤ a ∧ a < size))]
      by_cases hi : a < size <;> simp [hi]
    · have h₁ : ¬ a ≤ i := by omega
      have h₂ : ¬ a + 1 ≤ i := by omega
      have h₃ : a ≠ i := by omega
      simp [h₁, h₂, h₃]

/-! ### The device -/

/-- Flash of `size` bytes with erase pages of `page` bytes, its write protection and power. -/
structure NorFlash (size page : Nat) where
  bytes : Vector UInt8 size
  /-- Whether the device is write protected. -/
  locked : Bool
  /-- Programs and erases left before power is cut, `none` if it stays on. -/
  budget : Option Nat
  /-- Programs done so far. -/
  programs : Nat
  /-- Page erases done so far. -/
  erases : Nat

namespace NorFlash

/-- A new device with these contents. -/
def ofBytes (bytes : Vector UInt8 size) : NorFlash size page := ⟨bytes, true, none, 0, 0⟩

def filled (b : UInt8) : NorFlash size page := ofBytes (Vector.replicate size b)

/-- A fully erased device. -/
def blank : NorFlash size page := filled 0xFF

/-- A device loaded with an image: a short image is followed by erased bytes, a long one is cut. -/
def ofImage (image : List UInt8) : NorFlash size page :=
  ofBytes (overwrite (Vector.replicate size 0xFF) 0 image)

def byte (d : NorFlash size page) (a : Nat) : UInt8 := byteAt d.bytes a

/-- `n` bytes from an address on. -/
def bytesFrom (d : NorFlash size page) (a : Nat) (n : Nat) : List UInt8 :=
  (List.range n).map fun i => d.byte (a + i)

def image (d : NorFlash size page) : List UInt8 := d.bytes.toList

/-! ### Reading -/

/-- The word at an address; an unaligned or outside one reads as erased. -/
def readWord (d : NorFlash size page) (a : Nat) : Word :=
  if a % 4 = 0 ∧ a + 4 ≤ size then Word.ofBytes (d.bytesFrom a 4) else Word.erased

/-- The bytes at an address, `none` if the range leaves the device. -/
def slice (d : NorFlash size page) (a : Nat) (n : Nat) : Option (List UInt8) :=
  if a + n ≤ size then some (d.bytesFrom a n) else none

/-! ### Programming and erasing -/

/-- Why an access to `width` bytes at an address is misplaced, `none` if it is not. -/
def misplaced (size width : Nat) (a : Nat) : Option DeviceError :=
  if a % width ≠ 0 then some .unaligned
  else if size < a + width then some .outOfBounds
  else none

def isPoweredDown (d : NorFlash size page) : Bool := d.budget == some 0

/-- Why a program or erase of `width` bytes at an address is refused, `none` if it is not. -/
def refusal (d : NorFlash size page) (width : Nat) (a : Nat) : Option DeviceError :=
  match misplaced size width a with
  | some e => some e
  | none =>
    if d.locked then some .locked
    else if d.isPoweredDown then some .powerLoss
    else none

def put (d : NorFlash size page) (a : Nat) (bs : List UInt8) : NorFlash size page :=
  { d with bytes := overwrite d.bytes a bs }

/-- Take one program or erase off the power budget. -/
def spend (d : NorFlash size page) : NorFlash size page :=
  { d with budget := d.budget.map (· - 1) }

/-- Clear the bits of a word that are clear in `w`. -/
def programWord (a : Nat) (w : Word) : DeviceM (NorFlash size page) Unit := fun d =>
  match d.refusal 4 a with
  | some e => .error e d
  | none =>
    .ok () { (d.put a (d.readWord a &&& w).toBytes).spend with programs := d.programs + 1 }

/-- Set a page to `0xFF`. -/
def erasePage (a : Nat) : DeviceM (NorFlash size page) Unit := fun d =>
  match d.refusal page a with
  | some e => .error e d
  | none =>
    .ok () { (d.put a (List.replicate page 0xFF)).spend with erases := d.erases + 1 }

/-- Overwrite a word whatever it holds, as no program can. -/
def poke (a : Nat) (w : Word) : DeviceM (NorFlash size page) Unit := fun d =>
  match misplaced size 4 a with
  | some e => .error e d
  | none => .ok () (d.put a w.toBytes)

/-! ### Power and write protection -/

/-- Let `n` more programs and erases through. -/
def cutPowerAfter (n : Nat) (d : NorFlash size page) : NorFlash size page :=
  { d with budget := some n }

def restorePower (d : NorFlash size page) : NorFlash size page := { d with budget := none }

def unlock (d : NorFlash size page) : NorFlash size page := { d with locked := false }

def lock (d : NorFlash size page) : NorFlash size page := { d with locked := true }

instance : FlashDevice (NorFlash size page) where
  pageSize := UInt32.ofNat page
  capacity _ := UInt32.ofNat size
  readWord := readWord
  programWord := programWord
  erasePage := erasePage
  unlock := unlock
  lock := lock

instance : Addressable (NorFlash size page) where
  slice := slice

instance : PowerControlled (NorFlash size page) where
  cutPowerAfter := cutPowerAfter
  restorePower := restorePower

@[simp] theorem flashDevice_readWord (d : NorFlash size page) (a : Nat) :
    FlashDevice.readWord d a = d.readWord a := rfl

@[simp] theorem flashDevice_programWord (a : Nat) (w : Word) :
    (FlashDevice.programWord a w : DeviceM (NorFlash size page) Unit) = programWord a w := rfl

@[simp] theorem flashDevice_erasePage (a : Nat) :
    (FlashDevice.erasePage a : DeviceM (NorFlash size page) Unit) = erasePage a := rfl

@[simp] theorem flashDevice_unlock (d : NorFlash size page) : FlashDevice.unlock d = d.unlock := rfl

@[simp] theorem flashDevice_lock (d : NorFlash size page) : FlashDevice.lock d = d.lock := rfl

/-! ### What the operations do to the bytes -/

theorem byte_put (d : NorFlash size page) (a i : Nat) (bs : List UInt8) :
    (d.put a bs).byte i =
      if a ≤ i ∧ i < size then bs[i - a]?.getD (d.byte i) else d.byte i :=
  byteAt_overwrite d.bytes a i bs

@[simp] theorem byte_spend (d : NorFlash size page) (i : Nat) :
    d.spend.byte i = d.byte i := rfl

@[simp] theorem length_bytesFrom (d : NorFlash size page) (a : Nat) (n : Nat) :
    (d.bytesFrom a n).length = n := by
  simp [bytesFrom]

theorem run_programWord (a : Nat) (w : Word) (d : NorFlash size page) :
    (programWord a w).run d =
      match d.refusal 4 a with
      | some e => .error e d
      | none =>
        .ok () { (d.put a (d.readWord a &&& w).toBytes).spend with programs := d.programs + 1 } :=
  rfl

theorem run_erasePage (a : Nat) (d : NorFlash size page) :
    (erasePage a).run d =
      match d.refusal page a with
      | some e => .error e d
      | none =>
        .ok () { (d.put a (List.replicate page 0xFF)).spend with erases := d.erases + 1 } :=
  rfl

/-- A word reads back as the bytes that were put at its address. -/
theorem readWord_put (d : NorFlash size page) {a : Nat} (w : Word) (ha : a % 4 = 0)
    (hs : a + 4 ≤ size) : (d.put a w.toBytes).readWord a = w := by
  have h : (d.put a w.toBytes).bytesFrom a 4 = w.toBytes := by
    simp only [bytesFrom, byte_put, List.range, List.range.loop, List.map, Word.toBytes]
    have h₀ : a < size := by omega
    have h₁ : a + 1 < size := by omega
    have h₂ : a + 2 < size := by omega
    have h₃ : a + 3 < size := by omega
    simp [h₀, h₁, h₂, h₃]
  rw [readWord, if_pos ⟨ha, hs⟩, h, Word.ofBytes_toBytes]

/-- Words apart from the bytes that were put do not change. -/
theorem readWord_put_of_disjoint (d : NorFlash size page) {a i : Nat} (bs : List UInt8)
    (h : i + 4 ≤ a ∨ a + bs.length ≤ i) : (d.put a bs).readWord i = d.readWord i := by
  have hb : ∀ k < 4, (d.put a bs).byte (i + k) = d.byte (i + k) := by
    intro k hk
    rw [byte_put]
    split
    · rw [List.getElem?_eq_none (by omega)]; rfl
    · rfl
  have : (d.put a bs).bytesFrom i 4 = d.bytesFrom i 4 :=
    List.map_congr_left fun k hk => hb k (List.mem_range.1 hk)
  simp [readWord, this]

end NorFlash

end FlashStore
