import FlashStore.Layout

/-!
# Parameters of the power supply

Every setting has its record id. Ids are shared between bootloader and application and never change.
Screens own the ids with their number in the top byte; the catalogue has ids of number 0.
-/

namespace FlashStore

/-! ### Calibration coefficients -/

/-- Conversions are linear, `reading = k * value + c`, with one pair of coefficients for each of
the five converters. -/
inductive Coefficient where
  | aAdcK
  | aAdcC
  | aDacK
  | aDacC
  | vDacK
  | vDacC
  | vAdcK
  | vAdcC
  | vinAdcK
  | vinAdcC
  deriving DecidableEq, Repr

namespace Coefficient

/-- All coefficients in the order they are saved and listed in. -/
def all : List Coefficient :=
  [aAdcK, aAdcC, aDacK, aDacC, vDacK, vDacC, vAdcK, vAdcC, vinAdcK, vinAdcC]

/-- The name a host knows the coefficient by. -/
def name : Coefficient → String
  | aAdcK => "A_ADC_K"
  | aAdcC => "A_ADC_C"
  | aDacK => "A_DAC_K"
  | aDacC => "A_DAC_C"
  | vDacK => "V_DAC_K"
  | vDacC => "V_DAC_C"
  | vAdcK => "V_ADC_K"
  | vAdcC => "V_ADC_C"
  | vinAdcK => "VIN_ADC_K"
  | vinAdcC => "VIN_ADC_C"

/-- The coefficient of a name. -/
def ofName? (name : String) : Option Coefficient := all.find? (·.name == name)

@[simp] theorem mem_all (c : Coefficient) : c ∈ all := by cases c <;> decide

theorem all_nodup : all.Nodup := by decide

end Coefficient

/-! ### The catalogue -/

/-- The two firmware images. -/
inductive Firmware where
  | boot
  | app
  deriving DecidableEq, Repr

/-- The settings in the catalogue. -/
inductive Parameter where
  /-- Output voltage and current limit. -/
  | output
  | inversion
  | version (image : Firmware)
  | calibration (coefficient : Coefficient)
  | brightness
  /-- Present while a firmware upgrade has not completed. -/
  | upgradeStarted
  deriving DecidableEq, Repr

namespace Parameter

/-- The record id of a setting. -/
def id : Parameter → Word
  | output => 1
  | inversion => 2
  | version .boot => 3
  | version .app => 4
  | calibration .aAdcK => 5
  | calibration .aAdcC => 6
  | calibration .aDacK => 7
  | calibration .aDacC => 8
  | calibration .vDacK => 9
  | calibration .vDacC => 10
  | calibration .vAdcK => 11
  | calibration .vAdcC => 12
  | calibration .vinAdcK => 13
  | calibration .vinAdcC => 14
  | brightness => 15
  | upgradeStarted => 0xFF

/-- All settings in the order of their ids. -/
def all : List Parameter :=
  [output, inversion, version .boot, version .app] ++ Coefficient.all.map calibration ++
    [brightness, upgradeStarted]

/-- The setting of a record id. -/
def ofId? (id : Word) : Option Parameter := all.find? (·.id == id)

@[simp] theorem mem_all (p : Parameter) : p ∈ all := by
  rcases p with _ | _ | f | c | _ | _
  · decide
  · decide
  · cases f <;> decide
  · cases c <;> decide
  · decide
  · decide

@[simp] theorem ofId?_id (p : Parameter) : ofId? p.id = some p := by
  have hall : ∀ p ∈ all, ofId? p.id = some p := by decide
  exact hall p (mem_all p)

theorem id_injective {p q : Parameter} (h : p.id = q.id) : p = q := by
  have hp := ofId?_id p
  rw [h, ofId?_id q] at hp
  exact (Option.some.inj hp).symm

theorem isUsableId_id (p : Parameter) : isUsableId p.id = true := by
  have hall : ∀ p ∈ all, isUsableId p.id = true := by decide
  exact hall p (mem_all p)

end Parameter

/-- The record id of a coefficient. -/
def Coefficient.id (c : Coefficient) : Word := (Parameter.calibration c).id

theorem Coefficient.id_injective {c c' : Coefficient} (h : c.id = c'.id) : c = c' :=
  Parameter.calibration.inj (Parameter.id_injective h)

/-! ### Screens -/

/-- The record id of a value of a screen: the screen number in the top byte, the key below it. -/
def screenId (number : UInt8) (key : Word) : Word := number.toUInt32 <<< 24 ||| key &&& 0x00FFFFFF

/-- A function screen. Screens are numbered from 1. -/
structure Screen where
  number : UInt8
  number_ne_zero : number ≠ 0
  deriving DecidableEq

namespace Screen

/-- The screen of a number. -/
def ofNumber? (number : UInt8) : Option Screen :=
  if h : number ≠ 0 then some ⟨number, h⟩ else none

/-- The record id of a value. -/
def id (screen : Screen) (key : Word) : Word := screenId screen.number key

@[simp] theorem ofNumber?_eq_none_iff {number : UInt8} : ofNumber? number = none ↔ number = 0 := by
  unfold ofNumber?
  split <;> simp_all

end Screen

end FlashStore
