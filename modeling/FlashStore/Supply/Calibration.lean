import FlashStore.Supply.Parameter
import FlashStore.Supply.Single
import FlashStore.Supply.Stored

/-!
# Calibration

Each coefficient is a value of its own. One that is missing or unreadable falls back to the factory
value of the power supply model, so a partial calibration is usable.
-/

namespace FlashStore

/-- The power supply models. -/
inductive Model where
  | dps5015
  | dps5005
  | dp50v5a
  | dps3005
  deriving DecidableEq, Repr

instance : Inhabited Model := ⟨.dps5005⟩

/-- A value for every coefficient. -/
abbrev Calibration := Coefficient → Single

namespace Calibration

/-- Replace one coefficient. -/
def set (cal : Calibration) (c : Coefficient) (x : Single) : Calibration :=
  fun c' => if c' = c then x else cal c'

/-- Equality of all coefficients as numbers. -/
def numericEq (cal cal' : Calibration) : Bool :=
  Coefficient.all.all fun c => (cal c).numericEq (cal' c)

/-- A calibration equals itself as numbers unless a coefficient is no number. -/
theorem numericEq_self_iff {cal : Calibration} :
    cal.numericEq cal = true ↔ ∀ c, (cal c).isNaN = false := by
  simp [numericEq, Single.numericEq_self]

@[simp] theorem set_self (cal : Calibration) (c : Coefficient) (x : Single) :
    cal.set c x c = x := by
  simp [set]

@[simp] theorem set_of_ne (cal : Calibration) {c c' : Coefficient} (x : Single) (h : c' ≠ c) :
    cal.set c x c' = cal c' := by
  simp [set, h]

end Calibration

/-- The factory calibration of a model. -/
def Model.defaults : Model → Calibration
  | .dps5015, .aAdcK => .ofFloat 6.8403
  | .dps5015, .aAdcC => .ofFloat (-394.06)
  | .dps5015, .aDacK => .ofFloat 0.166666
  | .dps5015, .aDacC => .ofFloat 261.6666
  | .dps5015, .vDacK => .ofFloat 0.072266
  | .dps5015, .vDacC => .ofFloat 4.444777
  | .dps5015, .vAdcK => .ofFloat 13.012
  | .dps5015, .vAdcC => .ofFloat (-125.732)
  | .dps5005, .aAdcK => .ofFloat 1.713
  | .dps5005, .aAdcC => .ofFloat (-118.51)
  | .dps5005, .aDacK => .ofFloat 0.652
  | .dps5005, .aDacC => .ofFloat 288.611
  | .dps5005, .vDacK => .ofFloat 0.072
  | .dps5005, .vDacC => .ofFloat 1.85
  | .dps5005, .vAdcK => .ofFloat 13.164
  | .dps5005, .vAdcC => .ofFloat (-100.751)
  | .dp50v5a, .aAdcK => .ofFloat 1.74096
  | .dp50v5a, .aAdcC => .ofFloat (-121.3943805)
  | .dp50v5a, .aDacK => .ofFloat 0.6402
  | .dp50v5a, .aDacC => .ofFloat 299.5518
  | .dp50v5a, .vDacK => .ofFloat 0.07544
  | .dp50v5a, .vDacC => .ofFloat 2.1563
  | .dp50v5a, .vAdcK => .ofFloat 13.253
  | .dp50v5a, .vAdcC => .ofFloat (-103.105)
  | .dps3005, .aAdcK => .ofFloat 1.751
  | .dps3005, .aAdcC => .ofFloat (-1.101)
  | .dps3005, .aDacK => .ofFloat 0.653
  | .dps3005, .aDacC => .ofFloat 262.5
  | .dps3005, .vDacK => .ofFloat 0.0761
  | .dps3005, .vDacC => .ofFloat 2.2857
  | .dps3005, .vAdcK => .ofFloat 13.131
  | .dps3005, .vAdcC => .ofFloat (-111.9)
  | _, .vinAdcK => .ofFloat 16.746
  | _, .vinAdcC => .ofFloat 64.112

namespace Calibration

instance : Inhabited Calibration := ⟨Model.defaults default⟩

variable {δ : Type} [FlashDevice δ]

/-- The stored coefficients, over the factory values of a model. -/
def load (model : Model) (s : Store δ) : Calibration := fun c =>
  match loadWord c.id s with
  | .ok (some bits) => ⟨bits⟩
  | _ => model.defaults c

/-- Store the listed coefficients that differ from what is stored. Returns how many were written. -/
def saveEach (cal : Calibration) : List Coefficient → SettingM δ Nat
  | [] => return 0
  | c :: cs => do
    let written ← updateWord c.id (cal c).bits
    let rest ← saveEach cal cs
    return rest + if written then 1 else 0

/-- Store every coefficient that differs from what is stored. Returns how many were written. -/
def save (cal : Calibration) : SettingM δ Nat := cal.saveEach Coefficient.all

/-- Store the coefficient of a name. -/
def store (name : String) (x : Single) : SettingM δ Unit :=
  match Coefficient.ofName? name with
  | some c => discard (updateWord c.id x.bits)
  | none => throw .unknownParameter

/-- Remove every stored coefficient, back to the factory values. -/
def clear : SettingM δ Unit := Coefficient.all.forM fun c => removeWord c.id

end Calibration

end FlashStore
