import Mirrorlane.Worker.Routing

/-!
# Routed work

A decision for `worklaneJob` becomes a routed-work job on a durable broker, enqueued under a key
that is unique to the message.  The broker suppresses an enqueue while a live job holds the key; a
completed job holds it no longer.
-/

namespace Mirrorlane

/-- The lane routed-work jobs are enqueued to. -/
def routedWorkLane : String := "mirrorlane.routed_work"

/-- The payload of a routed-work job. -/
structure RoutedWorkPayload where
  messageId : MessageId
  projection : Projection
  deriving DecidableEq

/-- The uniqueness key a routed message enqueues under. -/
def uniqueKey (messageId : MessageId) : String := routedWorkLane ++ ":" ++ messageId.val

theorem uniqueKey_injective : Function.Injective uniqueKey := by
  intro id id' h
  have hval : id.val = id'.val := String.append_right_inj _ |>.mp h
  cases id
  cases id'
  exact congrArg MessageId.mk hval

/-! ### The broker -/

/-- Where a job stands. -/
inductive JobStatus where
  | pending
  | reserved
  | completed
  deriving DecidableEq

/-- A job that was enqueued. -/
structure QueuedJob where
  key : String
  payload : RoutedWorkPayload
  status : JobStatus
  deriving DecidableEq

/-- The job is live and holds the key. -/
def QueuedJob.Holds (key : String) (job : QueuedJob) : Bool :=
  job.key = key ∧ job.status ≠ .completed

/-- A broker: every job that was ever enqueued on the lane. -/
structure Broker where
  jobs : List QueuedJob
  deriving DecidableEq

namespace Broker

/-- A broker nothing was enqueued on. -/
def new : Broker := ⟨[]⟩

/-- Enqueue a job under a key, unless a live job holds it. -/
def enqueueUnique (broker : Broker) (key : String) (payload : RoutedWorkPayload) : Broker :=
  if broker.jobs.any (QueuedJob.Holds key) then broker
  else ⟨broker.jobs ++ [⟨key, payload, .pending⟩]⟩

/-- The worker moves the job at a position on. -/
def setStatus (broker : Broker) (position : ℕ) (status : JobStatus) : Broker :=
  ⟨broker.jobs.modify position fun job => { job with status }⟩

end Broker

/-! ### The consumers -/

/-- The broker, and which of the next dispatches fail.  When the list is used up, none does. -/
structure DispatchWorld where
  broker : Broker
  outcomes : List (Option ConsumerError)

/-- A dispatch with an effect on the broker. -/
def DispatchWorld.attempt (world : DispatchWorld) (effect : Broker → Broker) :
    Except ConsumerError Unit × DispatchWorld :=
  match world.outcomes with
  | some error :: outcomes => (.error error, ⟨world.broker, outcomes⟩)
  | none :: outcomes => (.ok (), ⟨effect world.broker, outcomes⟩)
  | [] => (.ok (), ⟨effect world.broker, []⟩)

/-- A dispatch fails without an effect, or it has its effect. -/
theorem DispatchWorld.attempt_cases (world : DispatchWorld) (effect : Broker → Broker) :
    (∃ error outcomes, world.attempt effect = (.error error, ⟨world.broker, outcomes⟩)) ∨
      ∃ outcomes, world.attempt effect = (.ok (), ⟨effect world.broker, outcomes⟩) := by
  obtain ⟨broker, outcomes⟩ := world
  match outcomes with
  | some error :: outcomes => exact Or.inl ⟨error, outcomes, rfl⟩
  | none :: outcomes => exact Or.inr ⟨outcomes, rfl⟩
  | [] => exact Or.inr ⟨[], rfl⟩

/-- `WorklaneJobConsumer::consume`: enqueue the routed work of the message. -/
def WorklaneJobConsumer.consume : Consumer DispatchWorld := fun decision projection world =>
  world.attempt fun broker =>
    broker.enqueueUnique (uniqueKey decision.messageId) ⟨decision.messageId, projection⟩

/-- A consumer of another kind: what it does is not on the broker. -/
def otherConsumer : Consumer DispatchWorld := fun _ _ world => world.attempt id

/-- The registry with the Worklane consumer, and consumers for some of the other kinds. -/
def routingConsumers (registered : ConsumerKind → Bool) : ConsumerRegistry DispatchWorld :=
  (ConsumerRegistry.mk ⟨fun kind => if registered kind then some otherConsumer else none⟩).register
    .worklaneJob WorklaneJobConsumer.consume

end Mirrorlane
