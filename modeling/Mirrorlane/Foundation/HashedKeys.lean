import Mathlib.Logic.Function.Basic

/-!
# Keys that are hashes of an encoding

A key is often computed in three steps: a value is encoded, the encoding is hashed, and the hash is
written down.  When the first and the last step lose nothing, two values share a key for two reasons
only: they are the same, or the hash collides on their encodings (`KeyedBy.of_injective`).
-/

namespace Mirrorlane

variable {α β η κ : Type*}

/-- Two different encodings with one hash. -/
def Collision (hash : β → η) (b b' : β) : Prop := b ≠ b' ∧ hash b = hash b'

/-- `key` is the hash of an encoding that determines its value up to `same`. -/
structure KeyedBy (hash : β → η) (encode : α → β) (key : α → κ) (same : α → α → Prop) : Prop where
  /-- The encoding is uniquely decodable. -/
  encode_iff : ∀ a a', encode a = encode a' ↔ same a a'
  /-- A shared key is the same value or a collision of the hash. -/
  key_iff : ∀ a a', key a = key a' ↔ same a a' ∨ Collision hash (encode a) (encode a')

/-- Writing the hash down injectively adds no collision. -/
theorem KeyedBy.of_injective {hash : β → η} {encode : α → β} {write : η → κ}
    {same : α → α → Prop} (hwrite : Function.Injective write)
    (hencode : ∀ a a', encode a = encode a' ↔ same a a') :
    KeyedBy hash encode (fun a => write (hash (encode a))) same where
  encode_iff := hencode
  key_iff a a' := by
    rw [hwrite.eq_iff, ← hencode]
    constructor
    · intro hhash
      by_cases hsame : encode a = encode a'
      · exact Or.inl hsame
      · exact Or.inr ⟨hsame, hhash⟩
    · rintro (hsame | ⟨-, hhash⟩)
      · rw [hsame]
      · exact hhash

end Mirrorlane
