import FlashStore.Word

/-!
# Checksum of an image

The 32-bit FNV-1a hash: each byte is mixed in by exclusive or, and the product with a prime spreads
it over the word.
-/

namespace FlashStore.Checksum

def offsetBasis : Word := 0x811C9DC5

def prime : Word := 0x01000193

/-- The hash of a byte string. -/
def fnv1a (bytes : List UInt8) : Word :=
  bytes.foldl (fun h b => (h ^^^ b.toUInt32) * prime) offsetBasis

end FlashStore.Checksum
