import Mirrorlane.Foundation.SortedAssoc
import Mirrorlane.Worker.Jobs
import Mathlib.Data.String.Basic

/-!
# The reference strategy: project, then scope, warm up, index, hint, snapshot

`run_phases` reads the log once and runs six stages over fresh stores.  A stage registers one job,
enqueues its payloads and drains a broker that delivers each of them at least once; what a stage
executes is therefore a list of deliveries.  `Schedule` holds the deliveries of the six stages:
`runSchedule` executes a schedule, and `runPhases` the schedule that delivers every payload once, in
log order.
-/

namespace Mirrorlane

/-- The stores a run produces. -/
structure ReplayStores where
  projections : InMemoryProjectionStore
  scopes : InMemoryScopeStore
  warmups : InMemoryWarmupStore
  skills : InMemorySkillStore
  hints : InMemoryRoutingHintStore
  developers : InMemoryDeveloperSnapshotStore

/-! ### Fan-out -/

/-- One payload per message in the log. -/
def perMessage {π : Type} (log : List MessageEnvelope) (build : MessageEnvelope → π) : List π :=
  log.map build

/-- One payload per conversation. -/
def perConversation {π : Type} (conversations : List (ConversationId × List MessageId))
    (build : ConversationId → List MessageId → π) : List π :=
  conversations.map fun conversation => build conversation.1 conversation.2

/-- A single payload over the whole input. -/
def global {π : Type} (payload : π) : List π := [payload]

/-- Group a log's messages by conversation, preserving first-seen order of both. -/
def groupByConversation (log : List MessageEnvelope) : List (ConversationId × List MessageId) :=
  groupFirstSeen (·.conversation.id) MessageEnvelope.id log

/-- One message's author among the participants of its conversation: the last-seen display name
wins. -/
def addParticipant (byConversation : KeyedStore ConversationId (SortedAssoc String String))
    (message : MessageEnvelope) : KeyedStore ConversationId (SortedAssoc String String) :=
  byConversation.insert message.conversation.id
    (((byConversation message.conversation.id).getD .empty).alter message.author.id.val
      fun _ => message.author.displayName)

/-- The distinct participants of each conversation, ordered by author id. -/
def participantsByConversation (log : List MessageEnvelope) :
    KeyedStore ConversationId (List Participant) :=
  let byConversation := log.foldl addParticipant .empty
  ⟨fun conversation => (byConversation conversation).map fun authors =>
    authors.entries.map fun entry => ⟨⟨entry.1⟩, entry.2⟩⟩

/-! ### Schedules -/

/-- The deliveries of the six stages. -/
structure Schedule where
  messages : List MessageEnvelope
  scopes : List ScopeRequest
  warmups : List WarmupRequest
  skills : List SkillRequest
  hints : List RoutingHintRequest
  developers : List DeveloperSnapshotRequest

/-- The payloads the six stages enqueue for a log, in order. -/
def Schedule.payloads (log : List MessageEnvelope) : Schedule :=
  let conversations := groupByConversation log
  let participants := participantsByConversation log
  { messages := perMessage log fun message => message
    scopes := perConversation conversations fun conversation messages => ⟨conversation, messages⟩
    warmups := perConversation conversations fun conversation messages => ⟨conversation, messages⟩
    skills := global
      ⟨log.map fun message => ⟨message.author.id, message.author.displayName, message.id⟩⟩
    hints := global ⟨log.map fun message => message.id⟩
    developers := perConversation conversations fun conversation messages =>
      ⟨conversation, (participants conversation).getD [], messages⟩ }

/-- Every stage executes each of its payloads at least once, in any order, and nothing else. -/
structure Schedule.Delivers (schedule : Schedule) (log : List MessageEnvelope) : Prop where
  messages : Mirrorlane.Delivers (payloads log).messages schedule.messages
  scopes : Mirrorlane.Delivers (payloads log).scopes schedule.scopes
  warmups : Mirrorlane.Delivers (payloads log).warmups schedule.warmups
  skills : Mirrorlane.Delivers (payloads log).skills schedule.skills
  hints : Mirrorlane.Delivers (payloads log).hints schedule.hints
  developers : Mirrorlane.Delivers (payloads log).developers schedule.developers

/-- Execute a schedule over fresh stores, stage after stage. -/
def runSchedule (ports : StrategyContext) (schedule : Schedule) : ReplayStores :=
  -- a stage drains its broker before the next one starts, so it reads finished stores
  let projections := schedule.messages.foldl (ProcessMessageJob.run ports.projector) .empty
  let scopes := schedule.scopes.foldl (BuildScopeJob.run projections ports.scoper) .empty
  let warmups := schedule.warmups.foldl (BuildWarmupJob.run projections scopes ports.builder) .empty
  let skills := schedule.skills.foldl (BuildSkillJob.run projections ports.skillBuilder) .empty
  let hints := schedule.hints.foldl
    (BuildRoutingHintJob.run projections skills ports.hinter) .empty
  let developers := schedule.developers.foldl
    (BuildDeveloperSnapshotJob.run projections skills ports.snapshotter) .empty
  { projections, scopes, warmups, skills, hints, developers }

/-- The in-process run: every payload once, in order. -/
def runPhases (ports : StrategyContext) (messages : MessageLog) : ReplayStores :=
  runSchedule ports (.payloads messages.all)

end Mirrorlane
