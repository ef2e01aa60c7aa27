import Mirrorlane.Cli.Projectors
import Mirrorlane.Worker.Replay

/-!
# Runs whose projector is a model behind the durable cache

A run of the reference strategy with a real provider: `projector_for` opens the table and prunes it,
the message stage projects every delivery through the caching projector, and the other stages read
what it stored.  The model may give another answer, or none, on every call.
-/

namespace Mirrorlane

/-- One run over a log: what the model would answer, and what the brokers deliver. -/
structure CachedRun where
  version : StepVersion
  /-- Whether pruning succeeded: an error is ignored. -/
  prunes : Bool
  log : MessageLog
  answers : Answers
  schedule : Schedule
  /-- Every payload is delivered at least once. -/
  delivers : schedule.Delivers log.all

/-- What a delivery stores: the projection, unless the projector failed. -/
def storeProjected (store : InMemoryProjectionStore)
    (projected : MessageEnvelope × Option Projection) : InMemoryProjectionStore :=
  match projected.2 with
  | some projection => store.upsert projection
  | none => store

/-- The stages that follow the projections. -/
def runStages (ports : StrategyContext) (schedule : Schedule)
    (projections : InMemoryProjectionStore) : ReplayStores :=
  let scopes := schedule.scopes.foldl (BuildScopeJob.run projections ports.scoper) .empty
  let warmups := schedule.warmups.foldl (BuildWarmupJob.run projections scopes ports.builder) .empty
  let skills := schedule.skills.foldl (BuildSkillJob.run projections ports.skillBuilder) .empty
  let hints := schedule.hints.foldl
    (BuildRoutingHintJob.run projections skills ports.hinter) .empty
  let developers := schedule.developers.foldl
    (BuildDeveloperSnapshotJob.run projections skills ports.snapshotter) .empty
  { projections, scopes, warmups, skills, hints, developers }

section Runs

variable {τ : Type} {json : CacheJson τ} (cacheKey : MessageId → String → String)

/-- The table once the projector is built. -/
def CachedRun.open (run : CachedRun) (rows : ProjectionRows json) : ProjectionRows json :=
  if run.prunes then rows.pruneSuperseded run.version else rows

/-- The message stage of a run: the table it leaves, and what it returned for each delivery. -/
def CachedRun.project (run : CachedRun) (rows : ProjectionRows json) :
    ProjectionRows json × List (MessageEnvelope × Option Projection) :=
  projectAll cacheKey run.version run.answers 0 run.schedule.messages (run.open rows)

/-- Execute a run: the table it leaves and the stores it produces. -/
def CachedRun.exec (ports : StrategyContext) (run : CachedRun) (rows : ProjectionRows json) :
    ProjectionRows json × ReplayStores :=
  let projected := run.project cacheKey rows
  (projected.1, runStages ports run.schedule (projected.2.foldl storeProjected .empty))

/-- The table after some runs. -/
def tableAfter (runs : List CachedRun) (rows : ProjectionRows json) : ProjectionRows json :=
  runs.foldl (fun rows run => (run.project cacheKey rows).1) rows

/-- The projector that looks every message up in a table. -/
def frozenProjector (version : StepVersion) (rows : ProjectionRows json) : Projector where
  version := version
  run message := (Cache.get rows (projectionRequest cacheKey version message)).filter
    fun projection => projection.messageId = message.id
  run_messageId h := by simpa using (Option.filter_eq_some_iff.mp h).2

/-- A message has no row. -/
def unfrozen (version : StepVersion) (rows : ProjectionRows json) (message : MessageEnvelope) :
    Bool :=
  (Cache.get rows (projectionRequest cacheKey version message)).isNone

end Runs

end Mirrorlane
