import Mirrorlane.Core.Derivation
import Mirrorlane.Foundation.TextCodec

/-!
# The JSON text of cached values

What `serde_json` writes and parses of the payloads of the two caches.  A payload is parsed as it
was written but for its numbers: the default float parser may be off in the last bit, so a number
`x` comes back as `number x`.
-/

namespace Mirrorlane

/-- The JSON text of projections and derivations. -/
structure CacheJson (τ : Type) where
  /-- What a number is parsed as. -/
  number : ℚ → ℚ
  projection : TextCodec (Projection.mapNumbers number) τ
  derivation : TextCodec (ConversationDerivation.mapNumbers number) τ

/-- A payload that is kept decoded. -/
inductive DecodedPayload where
  | message (message : MessageEnvelope)
  | projection (projection : Projection)
  | derivation (derivation : ConversationDerivation)

/-- Payloads that are kept decoded, when numbers are parsed as `number` says. -/
def CacheJson.decoded (number : ℚ → ℚ) : CacheJson DecodedPayload where
  number := number
  projection := {
    toText := fun p => .projection (p.mapNumbers number)
    fromText := fun
      | .projection p => some p
      | .message _ | .derivation _ => none
    fromText_toText := fun _ => rfl }
  derivation := {
    toText := fun d => .derivation (d.mapNumbers number)
    fromText := fun
      | .derivation d => some d
      | .message _ | .projection _ => none
    fromText_toText := fun _ => rfl }

end Mirrorlane
