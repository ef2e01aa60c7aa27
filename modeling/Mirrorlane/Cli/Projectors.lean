import Mirrorlane.Core.Cache
import Mirrorlane.Llm.Projector
import Mirrorlane.Provider.Mock
import Mirrorlane.Storage.SqliteProjectionCache

/-!
# Runs over one projection-cache database

`projector_for` builds the projector of a run.  The mock needs no cache; a real provider is wrapped
in a caching projector over the durable table, and opening it reclaims the rows of every other
version.  A model may answer differently on every call, so a run is executed against the answers it
would get.
-/

namespace Mirrorlane

/-- The providers a run can select. -/
inductive Provider where
  | mock
  | ollama
  | openai
  deriving DecidableEq

/-- The model and the prompt version of one backend. -/
structure BackendSettings where
  model : String
  promptVersion : String
  deriving DecidableEq

/-- All LLM-provider settings. -/
structure LlmSettings where
  ollama : BackendSettings
  openai : BackendSettings
  deriving DecidableEq

/-- The real projector of a provider; the mock has none. -/
def llmProjectorFor (provider : Provider) (llm : LlmSettings) : Option LlmProjector :=
  match provider with
  | .mock => none
  | .ollama => some ⟨.ollama, llm.ollama.model, llm.ollama.promptVersion⟩
  | .openai => some ⟨.openai, llm.openai.model, llm.openai.promptVersion⟩

/-- One run of the command line: what it is configured with and the messages it projects. -/
structure CliRun where
  provider : Provider
  llm : LlmSettings
  messages : List MessageEnvelope

/-- What the model answers to the calls of one run. -/
abbrev Answers := ℕ → Option ProjectionDto

section Runs

variable {τ : Type} {json : CacheJson τ}

variable (promptFingerprint : String) (toLowercase : String → String)
  (cacheKey : MessageId → String → String)

/-- The cache version of a run, if it uses the cache. -/
def CliRun.version (run : CliRun) : Option StepVersion :=
  (llmProjectorFor run.provider run.llm).map (LlmProjector.version promptFingerprint)

/-- The request a message is projected under: the key covers its id and its body. -/
def projectionRequest (version : StepVersion) (message : MessageEnvelope) : CacheRequest :=
  ⟨LlmProjector.kind, version, cacheKey message.id message.body⟩

@[simp] theorem projectionRequest_version (version : StepVersion) (message : MessageEnvelope) :
    (projectionRequest cacheKey version message).version = version := rfl

/-- The key of the caching projector: the hash that is the message's cache key. -/
def hashedKey (digest : List UInt8 → String) (id : MessageId) (body : String) : String :=
  digest (hashedStr id.val ++ hashedStr body)

/-- Project messages through the caching projector from call `n` on: the table it leaves, and what
it returned for each message. -/
def projectAll (version : StepVersion) (answers : Answers) :
    ℕ → List MessageEnvelope → ProjectionRows json →
      ProjectionRows json × List (MessageEnvelope × Option Projection)
  | _, [], rows => (rows, [])
  | n, message :: messages, rows =>
    -- a hit does not call the model: its answer `n` is then never looked at
    let run := Cached.run rows (projectionRequest cacheKey version message)
      (LlmProjector.run (answers n) message)
    let rest := projectAll version answers (n + 1) messages run.2
    (rest.1, (message, run.1) :: rest.2)

/-- Execute a run: build the projector, which prunes, and project the messages. -/
def CliRun.exec (run : CliRun) (answers : Answers) (rows : ProjectionRows json) :
    ProjectionRows json × List (MessageEnvelope × Option Projection) :=
  match run.version promptFingerprint with
  -- the mock opens no table, so it prunes nothing
  | none => (rows, run.messages.map fun m => (m, some (MockProjector.run toLowercase m)))
  | some version =>
    projectAll cacheKey version answers 0 run.messages (rows.pruneSuperseded version)

/-- The table after some runs, the first of which is the `n`-th. -/
def rowsAfter (answers : ℕ → Answers) : ℕ → List CliRun → ProjectionRows json → ProjectionRows json
  | _, [], rows => rows
  | n, run :: runs, rows =>
    rowsAfter answers (n + 1) runs
      (run.exec promptFingerprint toLowercase cacheKey (answers n) rows).1

end Runs

end Mirrorlane
