import Mirrorlane.Core.Derivation

/-!
# The version of an LLM projector

A projector over a backend is identified by the backend's tag, the model, the prompt version and a
fingerprint of the prompt template.  The tag keys the projection cache; together with the strategy
id it keys the derived-output cache.
-/

namespace Mirrorlane

/-- The LLM backends. -/
inductive LlmBackend where
  | ollama
  | openai
  deriving DecidableEq

/-- A stable identifier for the backend. -/
def LlmBackend.providerTag : LlmBackend → String
  | .ollama => "ollama"
  | .openai => "openai"

/-- The projection version tag. -/
def versionTag (provider model promptVersion : String) : String :=
  provider ++ ":" ++ model ++ ":" ++ promptVersion

/-- A provider-agnostic projector, as configured. -/
structure LlmProjector where
  client : LlmBackend
  model : String
  promptVersion : String
  deriving DecidableEq

/-- The cache version tag of a projector.  The fingerprint is that of the prompt template and the
parser version, which are constants of a build. -/
def LlmProjector.cacheVersion (promptFingerprint : String) (projector : LlmProjector) : String :=
  versionTag projector.client.providerTag projector.model projector.promptVersion ++ ":" ++
    promptFingerprint

/-- The version a projector reports as a step. -/
def LlmProjector.version (promptFingerprint : String) (projector : LlmProjector) : StepVersion :=
  ⟨projector.cacheVersion promptFingerprint⟩

end Mirrorlane
