/-!
# Words and bytes

Flash is read and programmed in 32-bit words, least significant byte first. `Word.ofBytes` and
`Word.toBytes` convert between a word and its bytes and are inverse to each other; `packWords`
cuts a byte string into words, the last one padded with zero bytes.

Addresses are byte addresses and natural numbers: their sums are exact and never wrap.
-/

namespace FlashStore

/-- A 32-bit flash word. -/
abbrev Word := UInt32

namespace Word

/-- What an erased word reads as. -/
def erased : Word := 0xFFFFFFFF

/-- The number spelled by bytes, least significant first. -/
def littleEndian : List UInt8 → Nat
  | [] => 0
  | b :: bs => b.toNat + 256 * littleEndian bs

@[simp] theorem littleEndian_nil : littleEndian [] = 0 := rfl

@[simp] theorem littleEndian_cons (b : UInt8) (bs : List UInt8) :
    littleEndian (b :: bs) = b.toNat + 256 * littleEndian bs := rfl

/-- The word spelled by up to four bytes; absent high bytes count as zero. -/
def ofBytes (bs : List UInt8) : Word := UInt32.ofNat (littleEndian bs)

/-- The four bytes of a word. -/
def toBytes (w : Word) : List UInt8 :=
  [UInt8.ofNat w.toNat, UInt8.ofNat (w.toNat / 0x100), UInt8.ofNat (w.toNat / 0x10000),
    UInt8.ofNat (w.toNat / 0x1000000)]

@[simp] theorem length_toBytes (w : Word) : (toBytes w).length = 4 := rfl

@[simp] theorem ofBytes_toBytes (w : Word) : ofBytes (toBytes w) = w := by
  have := w.toNat_lt
  apply UInt32.toNat_inj.1
  simp [ofBytes, toBytes]
  omega

@[simp] theorem toBytes_ofBytes (b₀ b₁ b₂ b₃ : UInt8) :
    toBytes (ofBytes [b₀, b₁, b₂, b₃]) = [b₀, b₁, b₂, b₃] := by
  have h₀ := b₀.toNat_lt
  have h₁ := b₁.toNat_lt
  have h₂ := b₂.toNat_lt
  have h₃ := b₃.toNat_lt
  simp only [toBytes, ofBytes, List.cons.injEq, and_true, ← UInt8.toNat_inj]
  simp
  omega

end Word

/-- A byte string as words: four bytes each, the last word padded with zero bytes. -/
def packWords : List UInt8 → List Word
  | b₀ :: b₁ :: b₂ :: b₃ :: rest => Word.ofBytes [b₀, b₁, b₂, b₃] :: packWords rest
  | [] => []
  | tail => [Word.ofBytes tail]

/-- The bytes of consecutive words. -/
def unpackWords (words : List Word) : List UInt8 := words.flatMap Word.toBytes

@[simp] theorem packWords_nil : packWords [] = [] := rfl

@[simp] theorem unpackWords_nil : unpackWords [] = [] := rfl

@[simp] theorem unpackWords_cons (w : Word) (ws : List Word) :
    unpackWords (w :: ws) = w.toBytes ++ unpackWords ws := rfl

@[simp] theorem length_unpackWords (words : List Word) :
    (unpackWords words).length = 4 * words.length := by
  induction words with
  | nil => rfl
  | cons w ws ih => simp only [unpackWords_cons, List.length_append, Word.length_toBytes, ih,
      List.length_cons]; omega

theorem length_packWords (bs : List UInt8) : (packWords bs).length = (bs.length + 3) / 4 := by
  fun_induction packWords bs with
  | case1 b₀ b₁ b₂ b₃ rest ih => simp [ih]; omega
  | case2 => rfl
  | case3 tail h₄ h₀ =>
    match tail with
    | [] => exact absurd rfl h₀
    | [_] | [_, _] | [_, _, _] => simp
    | b₀ :: b₁ :: b₂ :: b₃ :: rest => exact absurd rfl (h₄ b₀ b₁ b₂ b₃ rest)

/-- Packing loses nothing: the bytes come back, followed by the padding only. -/
theorem unpackWords_packWords (bs : List UInt8) :
    unpackWords (packWords bs) =
      bs ++ List.replicate (4 * ((bs.length + 3) / 4) - bs.length) 0 := by
  fun_induction packWords bs with
  | case1 b₀ b₁ b₂ b₃ rest ih =>
    simp only [unpackWords_cons, Word.toBytes_ofBytes, ih, List.length_cons, List.cons_append,
      List.nil_append]
    congr 6
    omega
  | case2 => rfl
  | case3 tail h₄ h₀ =>
    match tail with
    | [] => exact absurd rfl h₀
    | [b] => simpa [Word.ofBytes, List.replicate] using Word.toBytes_ofBytes b 0 0 0
    | [b, c] => simpa [Word.ofBytes, List.replicate] using Word.toBytes_ofBytes b c 0 0
    | [b, c, d] => simpa [Word.ofBytes, List.replicate] using Word.toBytes_ofBytes b c d 0
    | b₀ :: b₁ :: b₂ :: b₃ :: rest => exact absurd rfl (h₄ b₀ b₁ b₂ b₃ rest)

end FlashStore
