import Mirrorlane.Core.Projection

/-!
# The routing model

Routing decides, per projection, which `ConsumerKind` should receive it.  A decision is derived
state: it carries the message id, the target, a readable reason and whether it was escalated.  A
`RoutingTrace` records the evaluation steps the decision was reached by.
-/

namespace Mirrorlane

/-- Who a projection's context is routed to. -/
inductive ConsumerKind where
  | human
  | agent
  | worklaneJob
  | gitHub
  deriving DecidableEq

/-- A rule mapping a projection intent to a target. -/
structure RoutingRule where
  intent : Intent
  target : ConsumerKind
  deriving DecidableEq

/-- Where a projection was routed, and why. -/
structure RoutingDecision where
  messageId : MessageId
  target : ConsumerKind
  reason : String
  escalated : Bool
  deriving DecidableEq

/-- A single step in the routing rule evaluation. -/
structure EvaluationStep where
  ruleName : String
  matched : Bool
  resultingTarget : Option ConsumerKind
  deriving DecidableEq

/-- The trace of how a routing decision was reached. -/
structure RoutingTrace where
  messageId : MessageId
  steps : List EvaluationStep
  deriving DecidableEq

end Mirrorlane
