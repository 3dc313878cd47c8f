import FlashStore.Supply.Parameter
import FlashStore.Supply.Stored

/-!
# Front panel

What the panel of the supply keeps over a power cycle: output settings, display settings, and the
values of function screens. What is missing or unreadable falls back to a default.
-/

namespace FlashStore

variable {δ : Type} [FlashDevice δ]

/-! ### Output -/

/-- Output voltage in millivolts and current limit in milliamperes. -/
structure Output where
  millivolts : UInt16
  milliamperes : UInt16
  deriving DecidableEq, Repr

namespace Output

instance : Inhabited Output := ⟨⟨5000, 500⟩⟩

/-- The word that settings are stored as: the limit in the high half, the voltage in the low. -/
def pack (o : Output) : Word := o.milliamperes.toUInt32 <<< 16 ||| o.millivolts.toUInt32

/-- The settings that a word stands for. -/
def unpack (w : Word) : Output := ⟨w.toUInt16, (w >>> 16).toUInt16⟩

/-- The stored settings. The defaults stand in when nothing readable is stored or either value is
zero. -/
def load (s : Store δ) : Output :=
  match loadWord Parameter.output.id s with
  | .ok (some w) =>
    let o := unpack w
    if o.millivolts ≠ 0 ∧ o.milliamperes ≠ 0 then o else default
  | _ => default

/-- Store the settings if they changed. Returns whether they were written. -/
def save (o : Output) : SettingM δ Bool := updateWord Parameter.output.id o.pack

end Output

/-! ### Display -/

/-- Inversion and backlight brightness in percent, each a value of its own. -/
structure Display where
  inverted : Bool
  brightness : UInt8
  deriving DecidableEq, Repr

namespace Display

instance : Inhabited Display := ⟨⟨false, 73⟩⟩

def maxBrightness : UInt8 := 100

def loadInversion (s : Store δ) : Bool :=
  match loadWord Parameter.inversion.id s with
  | .ok (some w) => w != 0
  | _ => (default : Display).inverted

def loadBrightness (s : Store δ) : UInt8 :=
  match loadWord Parameter.brightness.id s with
  | .ok (some w) =>
    if w ≤ maxBrightness.toUInt32 then w.toUInt8 else (default : Display).brightness
  | _ => (default : Display).brightness

/-- The stored settings, each with its default if it is out of range. -/
def load (s : Store δ) : Display := ⟨loadInversion s, loadBrightness s⟩

/-- Store whichever setting changed. Returns whether anything was written. A brightness out of range
is refused before that. -/
def save (d : Display) : SettingM δ Bool := do
  if maxBrightness < d.brightness then throw .outOfRange
  let inversion ← updateWord Parameter.inversion.id d.inverted.toUInt32
  let brightness ← updateWord Parameter.brightness.id d.brightness.toUInt32
  return inversion || brightness

end Display

/-! ### Screens -/

namespace Screen

/-- The value stored under a key, if any. -/
def load (screen : Screen) (key : Word) (s : Store δ) : Except SettingError (Option Word) :=
  loadWord (screen.id key) s

/-- Store a value under a key unless it is stored already. Returns whether it was written. -/
def save (screen : Screen) (key value : Word) : SettingM δ Bool :=
  updateWord (screen.id key) value

end Screen

end FlashStore
