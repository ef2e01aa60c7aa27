import Mirrorlane.Core.Ports
import Mirrorlane.Core.Stores

/-!
# The route job

Routing is a dispatch path of its own: each requested message's projection is routed, the decision
and the trace are stored, and the decision goes to the consumer registered for its target.  The
first consumer that fails fails the job, which is then retried from the start.

Consumers have side effects, so a consumer is a function that changes the world `σ`.
-/

namespace Mirrorlane

/-- An error from a consumer. -/
structure ConsumerError where
  message : String
  deriving DecidableEq

/-- A sink for routed context. -/
abbrev Consumer (σ : Type) := RoutingDecision → Projection → σ → Except ConsumerError Unit × σ

/-- The consumers by kind. -/
structure ConsumerRegistry (σ : Type) where
  consumers : KeyedStore ConsumerKind (Consumer σ)

namespace ConsumerRegistry

variable {σ : Type}

/-- An empty registry. -/
def new : ConsumerRegistry σ := ⟨.empty⟩

/-- Register the consumer for a kind, replacing any prior one. -/
def register (registry : ConsumerRegistry σ) (kind : ConsumerKind) (consumer : Consumer σ) :
    ConsumerRegistry σ :=
  ⟨registry.consumers.insert kind consumer⟩

/-- Dispatch a decision to its target consumer. -/
def dispatch (registry : ConsumerRegistry σ) (decision : RoutingDecision) (projection : Projection)
    (world : σ) : Except ConsumerError Unit × σ :=
  match registry.consumers decision.target with
  | some consumer => consumer decision projection world
  -- an unregistered target is a successful no-op
  | none => (.ok (), world)

end ConsumerRegistry

/-- The routing decisions and traces. -/
structure RoutingStores where
  traces : InMemoryRoutingTraceStore
  routes : InMemoryRoutingStore

/-- Store the trace and the decision of one projection. -/
def RoutingStores.record (stores : RoutingStores) (routed : RoutingDecision × RoutingTrace) :
    RoutingStores where
  traces := stores.traces.upsert routed.2
  routes := stores.routes.upsert routed.1

/-- Store some traces and decisions, in order. -/
def RoutingStores.recordAll (stores : RoutingStores)
    (routed : List (RoutingDecision × RoutingTrace)) : RoutingStores :=
  routed.foldl RoutingStores.record stores

/-- A request to route some messages. -/
structure RoutingRequest where
  messages : List MessageId
  deriving DecidableEq

/-- What a route job carries, next to the stores it writes. -/
structure RouteJob (σ : Type) where
  projections : InMemoryProjectionStore
  router : Router
  consumers : ConsumerRegistry σ

namespace RouteJob

variable {σ : Type} (job : RouteJob σ)

/-- The loop over the requested messages. -/
def runMessages : List MessageId → RoutingStores → σ →
    Except ConsumerError Unit × RoutingStores × σ
  | [], stores, world => (.ok (), stores, world)
  | id :: ids, stores, world =>
    match job.projections id with
    | none => runMessages ids stores world
    | some projection =>
      let routed := job.router.route projection
      let stores := stores.record routed
      match job.consumers.dispatch routed.1 projection world with
      -- the decisions and traces written so far stay
      | (.error error, world) => (.error error, stores, world)
      | (.ok (), world) => runMessages ids stores world

/-- One attempt. -/
def run (request : RoutingRequest) (stores : RoutingStores) (world : σ) :
    Except ConsumerError Unit × RoutingStores × σ :=
  job.runMessages request.messages stores world

end RouteJob

end Mirrorlane
