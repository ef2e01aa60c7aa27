import Mirrorlane.Core.Ports
import Mirrorlane.Foundation.Rounding
import Mathlib.Data.List.Infix

/-!
# The mock projector

A deterministic, keyword-based projector.  Keywords are matched as substrings of the lowercased
body; `toLowercase` is the standard library's Unicode lowercasing.
-/

namespace Mirrorlane

/-- Known topic keywords. -/
def topicKeywords : List String := ["rust", "backend", "sdk", "infra", "ai", "auth", "oauth", "ci"]

/-- Known entity keywords. -/
def entityKeywords : List String :=
  ["postgres", "sqlite", "refresh-token", "authservice", "opentelemetry"]

/-- `str::contains` with a string pattern. -/
def containsStr (body pattern : String) : Bool := pattern.toList <:+: body.toList

/-- The intent of a lowercased body: the first pattern group that occurs. -/
def detectIntent (body : String) : Intent :=
  -- the order decides: a body with a question mark is a question whatever else it says
  if containsStr body "?" then .question
  else if containsStr body "propose" || containsStr body "proposal" ||
      containsStr body "suggest" then
    .proposal
  else if containsStr body "decided" || containsStr body "let's" || containsStr body "we will" then
    .decision
  else if containsStr body "bug" || containsStr body "error" || containsStr body "broken" then
    .issue
  else if containsStr body "todo" || containsStr body "task" || containsStr body "need to" then
    .task
  else .social

namespace MockProjector

/-- The version a mock projector reports. -/
def version : StepVersion := ⟨"mock:v1"⟩

/-- Project a message. -/
def run (toLowercase : String → String) (message : MessageEnvelope) : Projection :=
  let body := toLowercase message.body
  let topics := topicKeywords.filter (containsStr body)
  let entities := entityKeywords.filter (containsStr body)
  let double := Rounding.binary64.round
  -- more recognized signal, higher confidence
  let signal := topics.length + entities.length
  { messageId := message.id
    intent := detectIntent body
    topics := topics.map Topic.mk
    entities := entities.map Entity.mk
    confidence := .new (double (1 / 2 + double (double (1 / 10) * (signal : ℚ)))) }

/-- The mock as a port: it never fails. -/
def projector (toLowercase : String → String) : Projector where
  version := version
  run message := some (run toLowercase message)
  run_messageId h := by rw [← Option.some.inj h]; rfl

theorem total_projector (toLowercase : String → String) : (projector toLowercase).Total :=
  fun _ => rfl

end MockProjector

end Mirrorlane
