import FlashStore.Chain
import FlashStore.Contents
import FlashStore.Placement
import FlashStore.Record.Program

/-!
# The store

A `Store` owns a device and keeps in memory which block is current, its generation and where the
next record goes. All of it can be rebuilt from flash.

Operations run in `StoreM`, where a failure keeps the store it left behind. `withUnlocked` lifts
write protection around an operation, `suspendOnFailure` puts the store out of service when one
fails part way.
-/

namespace FlashStore

/-- A store of records over two blocks of a device. -/
structure Store (δ : Type) where
  device : δ
  placement : Placement
  /-- The side of the current block. -/
  current : Side
  /-- Counter of the current block. -/
  generation : Word
  /-- Where the next record of the current block goes. -/
  cursor : Nat
  /-- Whether the fields above can be trusted. -/
  inService : Bool
  /-- How many operations need write protection lifted. -/
  unlockDepth : Nat

/-- An operation on a store. -/
abbrev StoreM (δ : Type) := EStateM StoreError (Store δ)

namespace Store

variable {δ α : Type}

def block (s : Store δ) : Block := s.placement.block s.current

/-- The block that the next compaction moves to. -/
def spare (s : Store δ) : Block := s.placement.block s.current.other

/-- Bytes between the last record and the end of the current block. -/
def free (s : Store δ) : Nat := s.block.stop - s.cursor

def requireService (s : Store δ) : Except StoreError Unit :=
  if s.inService then .ok () else .error .outOfService

@[simp] theorem requireService_eq_ok_iff {s : Store δ} :
    s.requireService = .ok () ↔ s.inService = true := by
  unfold requireService
  split <;> simp_all

/-- Take over the answer of a question about the store. -/
def query (f : Store δ → Except StoreError α) : StoreM δ α := fun s =>
  match f s with
  | .ok a => .ok a s
  | .error e => .error e s

@[simp] theorem run_query (f : Store δ → Except StoreError α) (s : Store δ) :
    (query f).run s =
      match f s with
      | .ok a => .ok a s
      | .error e => .error e s := rfl

/-- Run programs and erases on the device. -/
def onDevice (x : ProgramM δ α) : StoreM δ α := fun s =>
  match x.run s.device with
  | .ok a d => .ok a { s with device := d }
  | .error e d => .error e { s with device := d }

@[simp] theorem run_onDevice (x : ProgramM δ α) (s : Store δ) :
    (onDevice x).run s =
      match x.run s.device with
      | .ok a d => .ok a { s with device := d }
      | .error e d => .error e { s with device := d } := rfl

/-- Put the store out of service if an operation fails part way: its cursor can no longer be
trusted, and only recovery finds it. -/
def suspendOnFailure (x : StoreM δ α) : StoreM δ α := fun s =>
  match x.run s with
  | .ok a s' => .ok a s'
  | .error e s' => .error e { s' with inService := s'.inService && !e.isDisruptive }

@[simp] theorem run_suspendOnFailure (x : StoreM δ α) (s : Store δ) :
    (suspendOnFailure x).run s =
      match x.run s with
      | .ok a s' => .ok a s'
      | .error e s' => .error e { s' with inService := s'.inService && !e.isDisruptive } := rfl

variable [FlashDevice δ]

/-! ### What the device holds -/

def word (s : Store δ) (a : Nat) : Word := FlashDevice.readWord s.device a

/-- The records of the current block. -/
def chain (s : Store δ) : Chain := Chain.ofBlock s.word s.block

/-- The stored values: the ids and payloads of the live records. -/
def contents (s : Store δ) : Contents := s.chain.live.map fun r => ⟨r.id, r.payload s.word⟩

/-! ### Write protection -/

/-- Lift write protection, unless an outer operation has. -/
def beginUnlocked (s : Store δ) : Store δ :=
  { s with
    device := if s.unlockDepth = 0 then FlashDevice.unlock s.device else s.device
    unlockDepth := s.unlockDepth + 1 }

/-- Restore write protection, unless an outer operation still needs it lifted. -/
def endUnlocked (s : Store δ) : Store δ :=
  { s with
    device := if s.unlockDepth = 1 then FlashDevice.lock s.device else s.device
    unlockDepth := s.unlockDepth - 1 }

/-- Run an operation with write protection lifted. Nested ones keep it lifted until the outermost
returns, whether it succeeds or not. -/
def withUnlocked (x : StoreM δ α) : StoreM δ α := fun s =>
  match x.run s.beginUnlocked with
  | .ok a s' => .ok a s'.endUnlocked
  | .error e s' => .error e s'.endUnlocked

@[simp] theorem unlockDepth_beginUnlocked (s : Store δ) :
    s.beginUnlocked.unlockDepth = s.unlockDepth + 1 := rfl

@[simp] theorem unlockDepth_endUnlocked (s : Store δ) :
    s.endUnlocked.unlockDepth = s.unlockDepth - 1 := rfl

@[simp] theorem run_withUnlocked (x : StoreM δ α) (s : Store δ) :
    (withUnlocked x).run s =
      match x.run s.beginUnlocked with
      | .ok a s' => .ok a s'.endUnlocked
      | .error e s' => .error e s'.endUnlocked := rfl

end Store

end FlashStore
