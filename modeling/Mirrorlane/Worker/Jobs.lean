import Mirrorlane.Core.Ports
import Mirrorlane.Core.Stores
import Mirrorlane.Foundation.FirstSeen

/-!
# The jobs of the projection pipeline

One definition per job: what an execution does to the store it writes, given the stores it reads.
Every job upserts, so an execution is an `upsertAll` of the values its payload determines; the
`run_eq` lemmas say so for the jobs whose code is a loop.
-/

namespace Mirrorlane

/-! ### Projections, scopes, warm-ups -/

/-- Project one message.  A projector that panics at its boundary leaves the store as it was. -/
def ProcessMessageJob.run (projector : Projector) (store : InMemoryProjectionStore)
    (payload : MessageEnvelope) : InMemoryProjectionStore :=
  match projector.run payload with
  | some projection => store.upsert projection
  -- the broker dead-letters the payload after its retries and the drain goes on
  | none => store

theorem ProcessMessageJob.run_eq (projector : Projector) (store : InMemoryProjectionStore)
    (payload : MessageEnvelope) :
    run projector store payload = store.upsertAll (projector.run payload).toList := by
  unfold run
  cases projector.run payload <;> rfl

/-- The stored projections of some messages, in request order. -/
def storedProjections (projections : InMemoryProjectionStore) (messages : List MessageId) :
    List Projection :=
  messages.filterMap projections

/-- Build the scope of one conversation. -/
def BuildScopeJob.run (projections : InMemoryProjectionStore) (scoper : ScopeProjector)
    (scopes : InMemoryScopeStore) (request : ScopeRequest) : InMemoryScopeStore :=
  scopes.upsert (scoper.scope request.conversation (storedProjections projections request.messages))

/-- Build the warm-up document of one conversation. -/
def BuildWarmupJob.run (projections : InMemoryProjectionStore) (scopes : InMemoryScopeStore)
    (builder : WarmupBuilder) (warmups : InMemoryWarmupStore) (request : WarmupRequest) :
    InMemoryWarmupStore :=
  warmups.upsert (builder.build request.conversation (scopes request.conversation)
    (storedProjections projections request.messages))

/-! ### The skill index -/

/-- The contribution of one entry, if its message has a stored projection. -/
def SkillEntry.contribution (projections : InMemoryProjectionStore) (entry : SkillEntry) :
    Option SkillContribution :=
  (projections entry.message).map fun projection =>
    { author := entry.author
      displayName := entry.displayName
      topics := projection.topics
      confidence := projection.confidence }

/-- Build the global skill index and store it per topic. -/
def BuildSkillJob.run (projections : InMemoryProjectionStore) (builder : SkillBuilder)
    (skills : InMemorySkillStore) (request : SkillRequest) : InMemorySkillStore :=
  let contributions := request.entries.filterMap (SkillEntry.contribution projections)
  (builder.build contributions).ownerships.foldl UpsertStore.upsert skills

/-! ### Routing hints -/

namespace BuildRoutingHintJob

/-- The hint of a projection, from the stored ownerships of its topics. -/
def hintFor (skills : InMemorySkillStore) (hinter : RoutingHinter) (projection : Projection) :
    RoutingHint :=
  hinter.hint projection (projection.topics.filterMap skills)

/-- Build the routing hint of every requested message. -/
def run (projections : InMemoryProjectionStore) (skills : InMemorySkillStore)
    (hinter : RoutingHinter) (hints : InMemoryRoutingHintStore) (request : RoutingHintRequest) :
    InMemoryRoutingHintStore :=
  request.messages.foldl (fun hints id =>
    match projections id with
    -- a message that was not projected is skipped
    | none => hints
    | some projection => hints.upsert (hintFor skills hinter projection)) hints

theorem run_eq (projections : InMemoryProjectionStore) (skills : InMemorySkillStore)
    (hinter : RoutingHinter) (hints : InMemoryRoutingHintStore) (request : RoutingHintRequest) :
    run projections skills hinter hints request =
      hints.upsertAll
        ((storedProjections projections request.messages).map (hintFor skills hinter)) := by
  unfold run storedProjections
  induction request.messages generalizing hints with
  | nil => rfl
  | cons id ids ih =>
    rw [List.foldl_cons, ih, List.filterMap_cons]
    cases projections id <;> rfl

end BuildRoutingHintJob

/-! ### Developer snapshots -/

namespace BuildDeveloperSnapshotJob

/-- One topic of a session: fetch its ownership when it is met first. -/
def collectTopic (skills : InMemorySkillStore) (acc : List Topic × List TopicOwnership)
    (topic : Topic) : List Topic × List TopicOwnership :=
  if topic ∈ acc.1 then acc else (acc.1 ++ [topic], acc.2 ++ (skills topic).toList)

/-- The ownerships of a session's distinct topics. -/
def ownerships (projections : InMemoryProjectionStore) (skills : InMemorySkillStore)
    (messages : List MessageId) : List TopicOwnership :=
  (messages.foldl (fun acc id =>
    match projections id with
    | none => acc
    | some projection => projection.topics.foldl (collectTopic skills) acc) ([], [])).2

/-- Build the developer snapshot of one conversation. -/
def run (projections : InMemoryProjectionStore) (skills : InMemorySkillStore)
    (snapshotter : DeveloperSnapshotBuilder) (developers : InMemoryDeveloperSnapshotStore)
    (request : DeveloperSnapshotRequest) : InMemoryDeveloperSnapshotStore :=
  developers.upsert (snapshotter.build request.conversation request.participants
    (ownerships projections skills request.messages))

/-- The loop over a session's topics fetches the distinct ones, in first-seen order. -/
theorem foldl_collectTopic (skills : InMemorySkillStore) (topics : List Topic) :
    topics.foldl (collectTopic skills) ([], []) =
      (firstSeen topics, (firstSeen topics).filterMap skills) := by
  induction topics using List.reverseRecOn with
  | nil => rfl
  | append_singleton topics topic ih =>
    rw [List.foldl_append, ih, List.foldl_cons, List.foldl_nil, firstSeen_concat, collectTopic]
    simp only [mem_firstSeen]
    split_ifs
    · rfl
    · rw [List.filterMap_append]
      cases h : skills topic <;> simp [h]

theorem ownerships_eq (projections : InMemoryProjectionStore) (skills : InMemorySkillStore)
    (messages : List MessageId) :
    ownerships projections skills messages =
      (firstSeen ((storedProjections projections messages).flatMap Projection.topics)).filterMap
        skills := by
  have hflat : ∀ acc : List Topic × List TopicOwnership,
      messages.foldl (fun acc id =>
        match projections id with
        | none => acc
        | some projection => projection.topics.foldl (collectTopic skills) acc) acc =
      ((storedProjections projections messages).flatMap Projection.topics).foldl
        (collectTopic skills) acc := by
    unfold storedProjections
    induction messages with
    | nil => exact fun _ => rfl
    | cons id ids ih =>
      intro acc
      rw [List.foldl_cons, ih, List.filterMap_cons]
      cases projections id with
      | none => rfl
      | some projection => rw [List.flatMap_cons, List.foldl_append]
  unfold ownerships
  rw [hflat, foldl_collectTopic]

end BuildDeveloperSnapshotJob

end Mirrorlane
