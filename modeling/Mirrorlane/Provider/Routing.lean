import Mirrorlane.Core.Ports
import Mirrorlane.Foundation.Rounding
import Mathlib.Algebra.Order.Floor.Ring
import Mathlib.Data.Rat.Floor

/-!
# The rule-based router

Maps a projection's intent to a target by the first matching rule, and escalates to a human when the
confidence is below the threshold.
-/

namespace Mirrorlane

/-- `{:.2}`: two decimals, ties to even. -/
def formatTwoDecimals (q : ℚ) : String :=
  let scaled := |q| * 100
  let below := ⌊scaled⌋.toNat
  let rest := scaled - below
  let hundredths :=
    if rest < 1 / 2 ∨ rest = 1 / 2 ∧ below % 2 = 0 then below else below + 1
  let decimals := hundredths % 100
  (if q < 0 then "-" else "") ++ toString (hundredths / 100) ++ "." ++
    (if decimals < 10 then "0" else "") ++ toString decimals

/-- The label of an intent. -/
def intentLabel : Intent → String
  | .question => "question"
  | .decision => "decision"
  | .proposal => "proposal"
  | .task => "task"
  | .issue => "issue"
  | .social => "social"

/-- The label of a target. -/
def targetLabel : ConsumerKind → String
  | .human => "human"
  | .agent => "agent"
  | .worklaneJob => "worklane-job"
  | .gitHub => "github"

/-- A rule set with a threshold and a default target. -/
structure RuleRouter where
  rules : List RoutingRule
  escalationThreshold : ℚ
  defaultTarget : ConsumerKind

namespace RuleRouter

/-- The default confidence threshold: the double nearest to `0.6`. -/
def defaultEscalationThreshold : ℚ := Rounding.binary64.round (6 / 10)

/-- The default rule set. -/
def defaultRules : List RoutingRule :=
  [⟨.question, .human⟩, ⟨.decision, .agent⟩, ⟨.proposal, .gitHub⟩, ⟨.issue, .gitHub⟩,
    ⟨.task, .worklaneJob⟩, ⟨.social, .human⟩]

/-- The reference router. -/
def new : RuleRouter := ⟨defaultRules, defaultEscalationThreshold, .human⟩

/-- The target of an intent: the first matching rule's, else the default. -/
def targetFor (router : RuleRouter) (intent : Intent) : ConsumerKind :=
  ((router.rules.find? fun rule => rule.intent = intent).map RoutingRule.target).getD
    router.defaultTarget

/-- Route a projection. -/
def route (router : RuleRouter) (projection : Projection) : RoutingDecision × RoutingTrace :=
  let confidence := projection.confidence.get
  let threshold := router.escalationThreshold
  let escalated : Bool := confidence < threshold
  let first : EvaluationStep :=
    ⟨"confidence_threshold", escalated, if escalated then some .human else none⟩
  if escalated then
    -- the rules are not looked at
    (⟨projection.messageId, .human,
      "confidence " ++ formatTwoDecimals confidence ++ " below " ++ formatTwoDecimals threshold ++
        " threshold; escalated to human", true⟩,
      ⟨projection.messageId, [first]⟩)
  else
    let target := router.targetFor projection.intent
    (⟨projection.messageId, target,
      "intent=" ++ intentLabel projection.intent ++ " routed to " ++ targetLabel target, false⟩,
      ⟨projection.messageId, [first, ⟨"intent_routing", true, some target⟩]⟩)

/-- A decision is about the projection it was made from. -/
@[simp] theorem route_messageId (router : RuleRouter) (projection : Projection) :
    (router.route projection).1.messageId = projection.messageId := by
  simp only [route]
  split_ifs <;> rfl

/-- The rule-based router behind the port. -/
def port (router : RuleRouter) : Router where
  route := router.route
  decision_messageId := router.route_messageId
  trace_messageId projection := by
    simp only [route]
    split_ifs <;> rfl

/-- The last step of a trace names the target of the decision. -/
theorem getLast?_steps_route (router : RuleRouter) (projection : Projection) :
    ((router.route projection).2.steps.getLast?.bind EvaluationStep.resultingTarget) =
      some (router.route projection).1.target := by
  simp only [route]
  split_ifs with h <;> simp [h]

/-- The default rules cover every intent. -/
theorem find?_defaultRules (intent : Intent) :
    (defaultRules.find? fun rule => rule.intent = intent).isSome := by
  cases intent <;> decide

end RuleRouter

end Mirrorlane
