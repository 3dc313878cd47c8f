import FlashStore.Store.Read

/-!
# Stored words

Most settings are one word, stored as a value of four bytes. A word is written only if another one
or none is stored.
-/

namespace FlashStore

/-- Why loading or saving a setting fails. -/
inductive SettingError where
  /-- The store failed. -/
  | store (error : StoreError)
  /-- A text or a stored value has another length than it should. -/
  | invalidLength
  /-- A stored text is not UTF-8. -/
  | invalidUtf8
  /-- No parameter has this name. -/
  | unknownParameter
  /-- The setting does not accept this value. -/
  | outOfRange
  deriving DecidableEq, Repr

/-- The text an error is reported by. -/
def SettingError.message : SettingError → String
  | store error => "past: " ++ error.message
  | invalidLength => "value has wrong length"
  | invalidUtf8 => "stored string is not UTF-8"
  | unknownParameter => "unknown parameter"
  | outOfRange => "value out of range"

/-- An operation on the settings of a store. -/
abbrev SettingM (δ : Type) := EStateM SettingError (Store δ)

variable {δ α : Type}

/-- Run a store operation. -/
def onStore (x : StoreM δ α) : SettingM δ α := fun s =>
  match x.run s with
  | .ok a s' => .ok a s'
  | .error e s' => .error (.store e) s'

@[simp] theorem run_onStore (x : StoreM δ α) (s : Store δ) :
    (onStore x).run s =
      match x.run s with
      | .ok a s' => .ok a s'
      | .error e s' => .error (.store e) s' := rfl

variable [FlashDevice δ]

/-- The word stored under an id, if any. -/
def loadWord (id : Word) (s : Store δ) : Except SettingError (Option Word) :=
  match s.readInto id (List.replicate 4 0) with
  | .ok (n, buffer) => if n = 4 then .ok (some (Word.ofBytes buffer)) else .error .invalidLength
  | .error .bufferTooSmall => .error .invalidLength
  | .error .notFound => .ok none
  | .error e => .error (.store e)

/-- Store a word under an id. -/
def saveWord (id value : Word) : SettingM δ Unit := onStore (Store.write id value.toBytes)

/-- Store a word under an id unless it is stored already. Returns whether it was written. A value
that cannot be loaded is replaced. -/
def updateWord (id value : Word) : SettingM δ Bool := do
  match loadWord id (← get) with
  | .ok (some stored) => if stored = value then return false
  | _ => pure ()
  saveWord id value
  return true

/-- Remove the value of an id, if any. -/
def removeWord (id : Word) : SettingM δ Unit := fun s =>
  match (Store.erase id).run s with
  | .ok () s' => .ok () s'
  | .error .notFound s' => .ok () s'
  | .error e s' => .error (.store e) s'

theorem run_updateWord_of_stored {id value : Word} {s : Store δ}
    (h : loadWord id s = .ok (some value)) : (updateWord id value).run s = .ok false s := by
  simp [updateWord, h]

end FlashStore
