import FlashStore.Word

/-!
# Single precision numbers

Coefficients are stored and loaded as their bits and never computed with, so a `Single` is kept as
its bit pattern, and what is no number keeps its payload. `Single.numericEq` compares two as
numbers.
-/

namespace FlashStore

/-- A single precision number, kept as its bit pattern. -/
structure Single where
  bits : Word
  deriving DecidableEq, Repr

namespace Single

def ofFloat (x : Float32) : Single := ⟨x.toBits⟩

/-- Whether the bits stand for no number: the largest exponent and a fraction. -/
def isNaN (x : Single) : Bool := 0x7F800000 < x.bits &&& 0x7FFFFFFF

/-- Whether the bits stand for zero of either sign. -/
def isZero (x : Single) : Bool := x.bits &&& 0x7FFFFFFF == 0

/-- Equality of numbers: both zeros are the same, and what is no number equals nothing. -/
def numericEq (x y : Single) : Bool :=
  !x.isNaN && !y.isNaN && (x == y || x.isZero && y.isZero)

theorem numericEq_self {x : Single} : x.numericEq x = !x.isNaN := by simp [numericEq]

end Single

end FlashStore
