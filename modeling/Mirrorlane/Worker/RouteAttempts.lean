import Mirrorlane.Foundation.Machine
import Mirrorlane.Worker.RoutedWork

/-!
# Attempts of a route job next to a worker

A route job is attempted again and again: an attempt may fail at any dispatch and is then retried
from the start.  Meanwhile a worker reserves and completes routed-work jobs on the same broker, also
between two dispatches of one attempt.

An attempt that the worker does not interleave with is `RouteJob.run` (`run_of_routeJob`).
-/

namespace Mirrorlane

/-- Where the route job stands. -/
inductive RoutePhase where
  /-- Between two attempts. -/
  | idle
  | running (rest : List MessageId)
  /-- The decision and the trace are stored, and the consumer is called. -/
  | dispatching (decision : RoutingDecision) (projection : Projection) (rest : List MessageId)
  deriving DecidableEq

/-- The stores, the broker and the route job.  `delivered` lists the successful dispatches: nothing
reads it. -/
structure Routing where
  stores : RoutingStores
  broker : Broker
  phase : RoutePhase
  delivered : List RoutingDecision

/-- What happens next. -/
inductive RouteEvent where
  | start
  /-- The next message has no stored projection. -/
  | skip
  /-- Route the next message, and store its trace and decision. -/
  | record
  /-- The consumer returns `Ok`. -/
  | deliver
  /-- The consumer returns an error, and so does the attempt. -/
  | fail (error : ConsumerError)
  | finish
  /-- The worker reserves the job at a position. -/
  | reserve (position : ℕ)
  /-- The worker completes the job at a position. -/
  | complete (position : ℕ)
  deriving DecidableEq

/-- What the attempts have in common: the job and the kinds that have a consumer. -/
structure RouteSetup where
  projections : InMemoryProjectionStore
  router : Router
  request : RoutingRequest
  registered : ConsumerKind → Bool

namespace RouteSetup

variable (setup : RouteSetup)

/-- The route job of the setup. -/
def job : RouteJob DispatchWorld :=
  ⟨setup.projections, setup.router, routingConsumers setup.registered⟩

/-- The Worklane consumer has its own target, and the other kinds have what is registered. -/
theorem consumers_job (kind : ConsumerKind) :
    setup.job.consumers.consumers kind =
      if kind = .worklaneJob then some WorklaneJobConsumer.consume
      else if setup.registered kind then some otherConsumer else none :=
  rfl

/-- A target that has a consumer, which may fail. -/
def HasConsumer (kind : ConsumerKind) : Prop :=
  kind = .worklaneJob ∨ setup.registered kind = true

instance : DecidablePred setup.HasConsumer := fun kind =>
  inferInstanceAs (Decidable (kind = .worklaneJob ∨ setup.registered kind = true))

end RouteSetup

/-- What a successful dispatch does on the broker. -/
def deliverTo (decision : RoutingDecision) (projection : Projection) (broker : Broker) : Broker :=
  if decision.target = .worklaneJob then
    broker.enqueueUnique (uniqueKey decision.messageId) ⟨decision.messageId, projection⟩
  else broker

namespace Routing

/-- One atomic event. -/
inductive Move (setup : RouteSetup) : Routing → RouteEvent → Routing → Prop
  | start {s : Routing} (h : s.phase = .idle) :
      Move setup s .start { s with phase := .running setup.request.messages }
  | skip {s : Routing} {id : MessageId} {rest : List MessageId}
      (h : s.phase = .running (id :: rest)) (hnone : setup.projections id = none) :
      Move setup s .skip { s with phase := .running rest }
  | record {s : Routing} {id : MessageId} {rest : List MessageId} {projection : Projection}
      (h : s.phase = .running (id :: rest)) (hsome : setup.projections id = some projection) :
      Move setup s .record { s with
        stores := s.stores.record (setup.router.route projection)
        phase := .dispatching (setup.router.route projection).1 projection rest }
  | deliver {s : Routing} {decision : RoutingDecision} {projection : Projection}
      {rest : List MessageId} (h : s.phase = .dispatching decision projection rest) :
      Move setup s .deliver { s with
        broker := deliverTo decision projection s.broker
        phase := .running rest
        delivered := s.delivered ++ [decision] }
  -- nothing is undone: the next attempt starts over with what is stored and enqueued
  | fail {s : Routing} {decision : RoutingDecision} {projection : Projection}
      {rest : List MessageId} {error : ConsumerError}
      (h : s.phase = .dispatching decision projection rest)
      (hconsumer : setup.HasConsumer decision.target) :
      Move setup s (.fail error) { s with phase := .idle }
  | finish {s : Routing} (h : s.phase = .running []) :
      Move setup s .finish { s with phase := .idle }
  | reserve {s : Routing} {position : ℕ} {job : QueuedJob}
      (hjob : s.broker.jobs[position]? = some job) (hstatus : job.status = .pending) :
      Move setup s (.reserve position) { s with broker := s.broker.setStatus position .reserved }
  | complete {s : Routing} {position : ℕ} {job : QueuedJob}
      (hjob : s.broker.jobs[position]? = some job) (hstatus : job.status = .reserved) :
      Move setup s (.complete position) { s with broker := s.broker.setStatus position .completed }

/-- The attempts of one route job, over any stores and a new broker. -/
def machine (setup : RouteSetup) : Machine Routing RouteEvent where
  init s := s.phase = .idle ∧ s.broker = .new ∧ s.delivered = []
  step := Move setup

/-! ### An attempt on its own -/

/-- How an attempt ends. -/
def endEvent : Except ConsumerError Unit → RouteEvent
  | .ok () => .finish
  | .error error => .fail error

/-- A dispatch of the setup's job fails at a target with a consumer, or it has its effect on the
broker. -/
theorem dispatch_eq (setup : RouteSetup) (decision : RoutingDecision) (projection : Projection)
    (world : DispatchWorld) :
    (∃ error outcomes, setup.HasConsumer decision.target ∧
      setup.job.consumers.dispatch decision projection world =
        (.error error, ⟨world.broker, outcomes⟩)) ∨
    ∃ outcomes, setup.job.consumers.dispatch decision projection world =
      (.ok (), ⟨deliverTo decision projection world.broker, outcomes⟩) := by
  unfold ConsumerRegistry.dispatch deliverTo RouteSetup.HasConsumer
  rw [setup.consumers_job]
  by_cases htarget : decision.target = .worklaneJob
  · simp only [if_pos htarget]
    rcases world.attempt_cases fun broker => broker.enqueueUnique (uniqueKey decision.messageId)
      ⟨decision.messageId, projection⟩ with ⟨error, outcomes, h⟩ | ⟨outcomes, h⟩
    · exact Or.inl ⟨error, outcomes, Or.inl htarget, h⟩
    · exact Or.inr ⟨outcomes, h⟩
  · simp only [if_neg htarget]
    by_cases hregistered : setup.registered decision.target = true
    · simp only [if_pos hregistered]
      rcases world.attempt_cases id with ⟨error, outcomes, h⟩ | ⟨outcomes, h⟩
      · exact Or.inl ⟨error, outcomes, Or.inr hregistered, h⟩
      · exact Or.inr ⟨outcomes, h⟩
    · -- nobody is registered, so nothing fails and nothing is used up
      simp only [if_neg hregistered]
      exact Or.inr ⟨world.outcomes, rfl⟩

/-- When no failure is ahead, a dispatch has its effect. -/
theorem dispatch_of_no_failure (setup : RouteSetup) (decision : RoutingDecision)
    (projection : Projection) (broker : Broker) :
    setup.job.consumers.dispatch decision projection ⟨broker, []⟩ =
      (.ok (), ⟨deliverTo decision projection broker, []⟩) := by
  unfold ConsumerRegistry.dispatch deliverTo
  rw [setup.consumers_job]
  split_ifs <;> rfl

/-- From the remaining messages on, an attempt on its own runs the loop of the job. -/
theorem run_of_runMessages {setup : RouteSetup} :
    ∀ {rest : List MessageId} {s : Routing} (outcomes : List (Option ConsumerError)),
      s.phase = .running rest → ∃ es s',
        (machine setup).Run s
          (es ++ [endEvent (setup.job.runMessages rest s.stores ⟨s.broker, outcomes⟩).1]) s' ∧
        s'.phase = .idle ∧
        s'.stores = (setup.job.runMessages rest s.stores ⟨s.broker, outcomes⟩).2.1 ∧
        s'.broker = (setup.job.runMessages rest s.stores ⟨s.broker, outcomes⟩).2.2.broker := by
  intro rest
  induction rest with
  | nil => exact fun outcomes h => ⟨[], _, .cons (.finish h) (.nil _), rfl, rfl, rfl⟩
  | cons id rest ih =>
    intro s outcomes h
    rw [RouteJob.runMessages]
    cases hprojection : setup.job.projections id with
    | none =>
      obtain ⟨es, s', hrun, hphase, hstores, hbroker⟩ :=
        @ih { s with phase := .running rest } outcomes rfl
      exact ⟨.skip :: es, s', .cons (.skip h hprojection) hrun, hphase, hstores, hbroker⟩
    | some projection =>
      let routed := setup.router.route projection
      let dispatching : Routing := { s with
        stores := s.stores.record routed
        phase := .dispatching routed.1 projection rest }
      have hrecord : (machine setup).step s .record dispatching := .record h hprojection
      have hrouted : setup.job.router.route projection = routed := rfl
      simp only [hrouted]
      -- the two ways a dispatch goes are the moves `fail` and `deliver`
      rcases dispatch_eq setup routed.1 projection ⟨s.broker, outcomes⟩ with
        ⟨error, outcomes', hconsumer, hdispatch⟩ | ⟨outcomes', hdispatch⟩
      · simp only [hdispatch]
        have hfail : (machine setup).step dispatching (.fail error)
            { dispatching with phase := .idle } := .fail rfl hconsumer
        exact ⟨[.record], _, .cons hrecord (.cons hfail (.nil _)), rfl, rfl, rfl⟩
      · simp only [hdispatch]
        let delivered : Routing := { dispatching with
          broker := deliverTo routed.1 projection s.broker
          phase := .running rest
          delivered := s.delivered ++ [routed.1] }
        have hdeliver : (machine setup).step dispatching .deliver delivered := .deliver rfl
        obtain ⟨es, s', hrun, hphase, hstores, hbroker⟩ := @ih delivered outcomes' rfl
        exact ⟨.record :: .deliver :: es, s', .cons hrecord (.cons hdeliver hrun), hphase, hstores,
          hbroker⟩

/-- **An attempt that the worker does not interleave with is `RouteJob.run`.** -/
theorem run_of_routeJob {setup : RouteSetup} {s : Routing} (h : s.phase = .idle)
    (outcomes : List (Option ConsumerError)) :
    ∃ es s', (machine setup).Run s (.start :: (es ++
        [endEvent (setup.job.run setup.request s.stores ⟨s.broker, outcomes⟩).1])) s' ∧
      s'.phase = .idle ∧
      s'.stores = (setup.job.run setup.request s.stores ⟨s.broker, outcomes⟩).2.1 ∧
      s'.broker = (setup.job.run setup.request s.stores ⟨s.broker, outcomes⟩).2.2.broker := by
  obtain ⟨es, s', hrun, hend⟩ := @run_of_runMessages setup setup.request.messages
    { s with phase := .running setup.request.messages } outcomes rfl
  exact ⟨es, s', .cons (.start h) hrun, hend⟩

end Routing

end Mirrorlane
