import Mirrorlane.Core.Ports

/-!
# The mock warm-up builder

Groups a session's projections by intent, takes the focus from the scope and renders a fixed-format
summary.  It does not read message bodies.
-/

namespace Mirrorlane

namespace MockWarmupBuilder

/-- The ids of the projections with one intent, in request order. -/
def idsWith (intent : Intent) (projections : List Projection) : List MessageId :=
  (projections.filter fun projection => projection.intent = intent).map Projection.messageId

/-- The fixed-format summary. -/
def render (conversation : ConversationId) (scope : Option Scope) (focus : List Component)
    (decisions openQuestions tasks : List MessageId) : String :=
  let focusLine :=
    -- also when there is a scope that loads nothing
    if focus = [] then "Focus: (no scope yet)"
    else "Focus: " ++ String.intercalate ", " (focus.map Component.val)
  let why := (scope.map fun scope => "\nWhy: " ++ scope.reason).getD ""
  "You are joining " ++ conversation.val ++ ".\n" ++ focusLine ++ why ++
    "\nRecent decisions: " ++ toString decisions.length ++
    "\nOpen questions: " ++ toString openQuestions.length ++
    "\nTasks: " ++ toString tasks.length

/-- The warm-up document of a conversation. -/
def build (conversation : ConversationId) (scope : Option Scope) (projections : List Projection) :
    WarmupDocument :=
  let decisions := idsWith .decision projections
  let openQuestions := idsWith .question projections
  let tasks := idsWith .task projections
  let focus := (scope.map Scope.load).getD []
  { conversation, focus, decisions, openQuestions, tasks
    summary := render conversation scope focus decisions openQuestions tasks }

/-- The mock as a port. -/
def builder : WarmupBuilder where
  build := build
  build_conversation _ _ _ := rfl

/-- A document lists a message once per projection of it, under the projection's intent only. -/
theorem mem_idsWith {intent : Intent} {projections : List Projection} {id : MessageId} :
    id ∈ idsWith intent projections ↔
      ∃ projection ∈ projections, projection.intent = intent ∧ projection.messageId = id := by
  simp [idsWith, and_assoc]

end MockWarmupBuilder

end Mirrorlane
