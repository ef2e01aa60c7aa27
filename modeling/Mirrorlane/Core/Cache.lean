import Mirrorlane.Core.Message
import Mirrorlane.Foundation.Delimited
import Mirrorlane.Foundation.Hexadecimal

/-!
# The cache key of a message

A message is keyed by a hash of its id and its body, so editing a message in place gives another
key.  What the hasher makes of the bytes it is fed is a parameter (`finish`), about which nothing is
assumed; its 64 bits are written as sixteen hexadecimal digits.
-/

namespace Mirrorlane

/-- What hashing a string feeds the hasher: its UTF-8 bytes and a terminator. -/
def hashedStr (s : String) : List UInt8 :=
  -- `0xFF` is no byte of any UTF-8 text
  utf8 s ++ [0xFF]

/-- A 64-bit hash as text: `{:016x}`. -/
def hashText (hash : UInt64) : String := String.ofList (paddedHex 16 hash.toNat)

theorem hashText_injective : Function.Injective hashText := by
  intro hash hash' h
  have hdigits : paddedHex 16 hash.toNat = paddedHex 16 hash'.toNat := String.ofList_injective h
  exact UInt64.toNat_inj.mp (paddedHex_injective 16 hdigits)

example : hashText 0xBEEF = "000000000000beef" := by decide

/-- The text of a finished hash. -/
def finishText (finish : List UInt8 → UInt64) (bytes : List UInt8) : String :=
  hashText (finish bytes)

namespace MessageEnvelope

/-- The bytes a message feeds the hasher of its cache key: its id, then its body. -/
def keyBytes (message : MessageEnvelope) : List UInt8 :=
  hashedStr message.id.val ++ hashedStr message.body

/-- The cache key of a message. -/
def cacheKey (digest : List UInt8 → String) (message : MessageEnvelope) : String :=
  digest message.keyBytes

end MessageEnvelope

end Mirrorlane
