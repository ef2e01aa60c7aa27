import Mirrorlane.Llm.Version

/-!
# The LLM projector

A projector asks its backend for the strict projection JSON and attaches the id of the message.  A
transport error and a response that is not the documented JSON both panic at the boundary: the
answer is `none` then.
-/

namespace Mirrorlane

/-- The strict JSON shape the model is asked to emit. -/
structure ProjectionDto where
  intent : Intent
  topics : List String
  entities : List String
  confidence : ℚ

/-- A projection from a model response: the id comes from the envelope and the confidence is
clamped. -/
def parseProjection (dto : ProjectionDto) (id : MessageId) : Projection where
  messageId := id
  intent := dto.intent
  topics := dto.topics.map Topic.mk
  entities := dto.entities.map Entity.mk
  confidence := .new dto.confidence

namespace LlmProjector

/-- The step kind of an LLM projector. -/
def kind : String := "mirrorlane.projection.llm"

/-- Project a message, given what the backend answers. -/
def run (answer : Option ProjectionDto) (message : MessageEnvelope) : Option Projection :=
  answer.map fun dto => parseProjection dto message.id

theorem messageId_of_run {answer : Option ProjectionDto} {message : MessageEnvelope}
    {p : Projection} (h : run answer message = some p) : p.messageId = message.id := by
  obtain ⟨dto, -, rfl⟩ := Option.map_eq_some_iff.mp h
  rfl

end LlmProjector

end Mirrorlane
