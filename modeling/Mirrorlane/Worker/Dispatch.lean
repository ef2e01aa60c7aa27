import Mirrorlane.Github.Consumer
import Mirrorlane.Worker.Routing

/-!
# The consumers that record

Two consumers keep what they are given, keyed so that a redelivery changes nothing: a recording
consumer one receipt per kind and message, and the GitHub consumer one draft per message.  Neither
of them fails.  `SinkSetup.deliver` executes route jobs whose consumers are of these two kinds.
-/

namespace Mirrorlane

/-- A record that a consumer received a routed message. -/
structure ConsumerReceipt where
  kind : ConsumerKind
  messageId : MessageId
  deriving DecidableEq

/-- The receipts of a recording consumer: a set. -/
abbrev RecordingConsumer := UpsertStore fun receipt : ConsumerReceipt => receipt

namespace RecordingConsumer

/-- Whether a message was received under a kind. -/
def received (receipts : RecordingConsumer) (kind : ConsumerKind) (messageId : MessageId) : Bool :=
  (receipts ⟨kind, messageId⟩).isSome

/-- Record what is received. -/
def consume : Consumer RecordingConsumer := fun decision _ receipts =>
  (.ok (), receipts.upsert ⟨decision.target, decision.messageId⟩)

end RecordingConsumer

/-- The drafts of a GitHub consumer, by message id. -/
abbrev GitHubConsumer := UpsertStore GitHubDraft.messageId

/-- Draft what is received. -/
def GitHubConsumer.consume : Consumer GitHubConsumer := fun _ projection drafts =>
  (.ok (), drafts.upsert (draftFor projection))

/-! ### A registry of them -/

/-- What the registered consumers hold: a recording consumer for every kind, and a GitHub one. -/
@[ext] structure Sinks where
  receipts : ConsumerKind → RecordingConsumer
  drafts : GitHubConsumer

/-- Sinks that received nothing. -/
def Sinks.empty : Sinks := ⟨fun _ => .empty, .empty⟩

/-- The recording consumer of a kind. -/
def Sinks.recording (kind : ConsumerKind) : Consumer Sinks := fun decision projection sinks =>
  let consumed := RecordingConsumer.consume decision projection (sinks.receipts kind)
  (consumed.1, { sinks with
    receipts := fun kind' => if kind' = kind then consumed.2 else sinks.receipts kind' })

/-- The GitHub consumer. -/
def Sinks.gitHub : Consumer Sinks := fun decision projection sinks =>
  let consumed := GitHubConsumer.consume decision projection sinks.drafts
  (consumed.1, { sinks with drafts := consumed.2 })

/-- Which consumers are registered: some kinds are recorded, and then perhaps the GitHub consumer is
registered for its kind. -/
structure SinkSetup where
  records : ConsumerKind → Bool
  drafts : Bool

/-- The registry. -/
def SinkSetup.registry (setup : SinkSetup) : ConsumerRegistry Sinks :=
  let recorded : ConsumerRegistry Sinks :=
    ⟨⟨fun kind => if setup.records kind then some (Sinks.recording kind) else none⟩⟩
  if setup.drafts then recorded.register .gitHub Sinks.gitHub else recorded

/-! ### Route jobs -/

/-- The routing stores and the consumers. -/
abbrev DispatchState := RoutingStores × Sinks

namespace SinkSetup

variable (setup : SinkSetup) (projections : InMemoryProjectionStore) (router : RuleRouter)

/-- The route job over some projections. -/
def job : RouteJob Sinks := ⟨projections, router.port, setup.registry⟩

/-- Execute some requests one after the other, whatever each attempt answers. -/
def deliver (deliveries : List RoutingRequest) : DispatchState :=
  deliveries.foldl (fun state request => ((setup.job projections router).run request state.1
    state.2).2) (⟨.empty, .empty⟩, .empty)

end SinkSetup

end Mirrorlane
