import Mirrorlane.Foundation.Machine
import Mirrorlane.Provider.Routing
import Mirrorlane.Worker.Routing

/-!
# The inspect command

`inspect` shows a message with its projection, the routing decision and the routing trace.  The
decision is re-derived under the current configuration; the trace is the one a route job stored.
`Inspected.machine` has every history of the three things the command reads: messages are appended
and appended again, the router is configured anew, route jobs record traces, and a bounded trace
store drops them.
-/

namespace Mirrorlane

/-- The context returned by the inspect command. -/
structure InspectContext where
  message : MessageEnvelope
  projection : Projection
  trace : Option RoutingTrace
  decision : RoutingDecision
  deriving DecidableEq

/-- Load a message, project it, and fetch its routing trace from the store; `none` when the
projector panics. -/
def inspect (store : MessageLog) (traces : InMemoryRoutingTraceStore) (messageId : MessageId)
    (projector : Projector) (router : RuleRouter) : Option (Option InspectContext) :=
  match store.get messageId with
  | none => some none
  | some message => (projector.run message).map fun projection =>
    -- the trace of this decision is not kept
    let decision := (router.route projection).1
    some { message, projection, trace := traces messageId, decision }

theorem inspect_eq_some_iff {store : MessageLog} {traces : InMemoryRoutingTraceStore}
    {messageId : MessageId} {projector : Projector} {router : RuleRouter}
    {context : InspectContext} :
    inspect store traces messageId projector router = some (some context) ↔
      ∃ message projection, store.get messageId = some message ∧
        projector.run message = some projection ∧
          context = ⟨message, projection, traces messageId, (router.route projection).1⟩ := by
  unfold inspect
  cases hget : store.get messageId with
  | none => simp
  | some message => simp [eq_comm]

/-! ### What the command reads, over time -/

/-- What `inspect` reads, and what the stored traces were written for. -/
structure Inspected where
  log : MessageLog
  traces : InMemoryRoutingTraceStore
  /-- The configured router. -/
  router : RuleRouter
  /-- The rule set and the projection that a stored trace is of: nothing reads it. -/
  origin : MessageId → Option (RuleRouter × Projection)

/-- What happens between two inspections. -/
inductive InspectEvent where
  | append (message : MessageEnvelope)
  /-- The configuration changes. -/
  | configure (router : RuleRouter)
  /-- A route job, started under some rule set, stores the trace of a message. -/
  | record (router : RuleRouter) (messageId : MessageId)
  /-- The trace of a message is pruned. -/
  | drop (messageId : MessageId)

namespace Inspected

/-- Nothing is logged and nothing was routed. -/
def new (router : RuleRouter) : Inspected := ⟨.empty, .empty, router, fun _ => none⟩

/-- One event. -/
inductive Move (projector : Projector) : Inspected → InspectEvent → Inspected → Prop
  | append (s : Inspected) (message : MessageEnvelope) :
      Move projector s (.append message) { s with log := s.log.append message }
  | configure (s : Inspected) (router : RuleRouter) :
      Move projector s (.configure router) { s with router }
  | record {s : Inspected} {messageId : MessageId} {message : MessageEnvelope}
      {projection : Projection} (router : RuleRouter)
      (hmessage : s.log.get messageId = some message)
      (hprojection : projector.run message = some projection) :
      Move projector s (.record router messageId)
        { s with
          traces := s.traces.upsert (router.route projection).2
          origin := Function.update s.origin messageId (some (router, projection)) }
  | drop (s : Inspected) (messageId : MessageId) :
      Move projector s (.drop messageId)
        { s with
          traces := s.traces.erase messageId
          origin := Function.update s.origin messageId none }

/-- The histories. -/
def machine (projector : Projector) : Machine Inspected InspectEvent where
  init s := ∃ router, s = new router
  step := Move projector

end Inspected

end Mirrorlane
