import FlashStore.Record.Basic
import FlashStore.Store.Error

/-!
# Programming records

Records are laid out on a device and removed from it by word programs, each read back. A record is
committed in a fixed order: payload, then length, then id. Until its id is programmed its place
still reads as vacant, so a power cut leaves a state that recovery can recognize.
-/

namespace FlashStore

variable {δ : Type} [FlashDevice δ]

/-- A sequence of programs and erases that are read back. -/
abbrev ProgramM (δ : Type) := EStateM StoreError δ

/-- Program a word and read it back. -/
def programVerified (a : Nat) (w : Word) : ProgramM δ Unit := do
  EStateM.adaptExcept StoreError.device (FlashDevice.programWord a w)
  if FlashDevice.readWord (← get) a ≠ w then throw (.readBack a)

/-- Program consecutive words from an address on. -/
def programWords (a : Nat) : List Word → ProgramM δ Unit
  | [] => pure ()
  | w :: ws => do
    programVerified a w
    programWords (a + 4) ws

/-- Erase every page of a block and check that the whole block reads as erased. -/
def wipeBlock (block : Block) : ProgramM δ Unit := do
  (block.pages (FlashDevice.pageSize δ).toNat).forM fun a =>
    EStateM.adaptExcept StoreError.device (FlashDevice.erasePage a)
  let d ← get
  match (block.wordsFrom block.base).find? fun a => FlashDevice.readWord d a != Word.erased with
  | some a => throw (.readBack a)
  | none => pure ()

/-- Lay out a record with its payload words, the id last. -/
def commitRecord (r : Record) (words : List Word) : ProgramM δ Unit := do
  programWords r.payloadAddress words
  programVerified r.lengthAddress r.length
  programVerified r.idAddress r.id

/-- Write a record at an address, and return the address after it. -/
def writeRecord (a : Nat) (id : Word) (data : List UInt8) : ProgramM δ Nat := do
  let r : Record := ⟨a, id, UInt32.ofNat data.length⟩
  commitRecord r (packWords data)
  return r.stop

/-- Copy a record to an address, and return the address after it. -/
def copyRecord (r : Record) (a : Nat) : ProgramM δ Nat := do
  let words := r.words (FlashDevice.readWord (← get))
  let copy := { r with address := a }
  commitRecord copy words
  return copy.stop

/-- Copy records one after another from an address on, and return the address after the last. -/
def copyRecords : List Record → Nat → ProgramM δ Nat
  | [], a => pure a
  | r :: rs, a => do copyRecords rs (← copyRecord r a)

/-- Clear the payload of a record, then its id. The length stays, so that records after it can be
found. -/
def removeRecord (r : Record) : ProgramM δ Unit := do
  programWords r.payloadAddress (List.replicate r.wordCount 0)
  programVerified r.idAddress removedId

@[simp] theorem programWords_nil (a : Nat) : programWords (δ := δ) a [] = pure () := rfl

theorem programWords_cons (a : Nat) (w : Word) (ws : List Word) :
    programWords (δ := δ) a (w :: ws) =
      (do programVerified a w; programWords (a + 4) ws) := rfl

/-- A program succeeds if the device takes it and reads back the word. -/
theorem run_programVerified (a : Nat) (w : Word) (d : δ) :
    (programVerified a w).run d =
      match (FlashDevice.programWord a w).run d with
      | .ok () d' =>
        if FlashDevice.readWord d' a = w then .ok () d' else .error (.readBack a) d'
      | .error e d' => .error (.device e) d' := by
  simp only [programVerified, EStateM.run_bind, EStateM.run_adaptExcept]
  cases (FlashDevice.programWord a w).run d with
  | error e d' => rfl
  | ok u d' => by_cases h : FlashDevice.readWord d' a = w <;> simp [h]

end FlashStore
