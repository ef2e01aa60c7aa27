import Mathlib.Tactic.SplitIfs
import Mirrorlane.Core.Derivation
import Mirrorlane.Core.Routing

/-!
# The derivation ports

The six deterministic, I/O-free ports a strategy is wired from, and the router.  Each is a function
together with the identity it preserves: what it returns is keyed by what it was asked about, which
is what lets the pipeline store results by id.  A projector may fail at its boundary (it panics, and
nothing is stored): `run` is then `none`.
-/

namespace Mirrorlane

/-- Maps a message to its projection, or fails at the boundary. -/
structure Projector where
  /-- The identity-version of what it computes. -/
  version : StepVersion
  run : MessageEnvelope → Option Projection
  /-- A projection is keyed by the id of its message. -/
  run_messageId : ∀ {message p}, run message = some p → p.messageId = message.id

@[ext] theorem Projector.ext {projector projector' : Projector}
    (hversion : projector.version = projector'.version) (hrun : projector.run = projector'.run) :
    projector = projector' := by
  obtain ⟨version, run, _⟩ := projector
  obtain ⟨version', run', _⟩ := projector'
  subst hversion hrun
  rfl

/-- The projector succeeds on every message. -/
def Projector.Total (projector : Projector) : Prop :=
  ∀ message, (projector.run message).isSome

/-- The projector while it fails on some messages. -/
def Projector.failing (projector : Projector) (fails : MessageEnvelope → Bool) : Projector where
  version := projector.version
  run message := if fails message then none else projector.run message
  run_messageId h := by
    split_ifs at h
    exact projector.run_messageId h

/-- A total projector fails exactly where it is made to. -/
theorem Projector.Total.isSome_run_failing {projector : Projector} (h : projector.Total)
    {fails : MessageEnvelope → Bool} {message : MessageEnvelope} :
    ((projector.failing fails).run message).isSome ↔ fails message = false := by
  show (if fails message then none else projector.run message).isSome ↔ _
  cases fails message <;> simp [h message]

/-- Maps a session to a scope. -/
structure ScopeProjector where
  scope : ConversationId → List Projection → Scope
  scope_conversation : ∀ c ps, (scope c ps).conversation = c

/-- Maps a session and its optional scope to a warm-up document. -/
structure WarmupBuilder where
  build : ConversationId → Option Scope → List Projection → WarmupDocument
  build_conversation : ∀ c s ps, (build c s ps).conversation = c

/-- Builds a skill index from authored contributions across the whole log. -/
structure SkillBuilder where
  build : List SkillContribution → SkillIndex

/-- Maps a projection and the ownerships of its topics to a routing hint. -/
structure RoutingHinter where
  hint : Projection → List TopicOwnership → RoutingHint
  hint_messageId : ∀ p os, (hint p os).messageId = p.messageId

/-- Maps a session's participants and the ownerships of its topics to its developers. -/
structure DeveloperSnapshotBuilder where
  build : ConversationId → List Participant → List TopicOwnership → SessionDevelopers
  build_conversation : ∀ c ps os, (build c ps os).conversation = c

/-- Maps a projection to the decision which consumer should receive it, and the trace of how the
decision was reached. -/
structure Router where
  route : Projection → RoutingDecision × RoutingTrace
  decision_messageId : ∀ p, (route p).1.messageId = p.messageId
  trace_messageId : ∀ p, (route p).2.messageId = p.messageId

/-- The resolved derivation ports a strategy wires from. -/
structure StrategyContext where
  projector : Projector
  scoper : ScopeProjector
  builder : WarmupBuilder
  skillBuilder : SkillBuilder
  hinter : RoutingHinter
  snapshotter : DeveloperSnapshotBuilder

/-- The ports while the projector fails on some messages. -/
def StrategyContext.failing (ports : StrategyContext) (fails : MessageEnvelope → Bool) :
    StrategyContext :=
  { ports with projector := ports.projector.failing fails }

end Mirrorlane
