import Mirrorlane.Cli.Process
import Mirrorlane.Storage.SqliteDerivedOutputCache

/-!
# What processes answer

The processes on a file, one level up: `Invocation.answer` says with the port-level commands what a
process answers on the contents of the stores, and what it leaves in them.  A store whose table was
never created is `none`, and a statement on it fails.
-/

namespace Mirrorlane

/-! ### Contents and answers -/

/-- What the stores of a file hold, as far as their tables exist. -/
structure FileContents {τ : Type} (json : CacheJson τ) where
  log : MessageLog
  projections : Option (ProjectionRows json)
  derived : Option (DerivedRows json)
  traces : Option InMemoryRoutingTraceStore

/-- An answer, and the contents a process leaves. -/
abbrev Answered {τ : Type} (json : CacheJson τ) (α : Type) :=
  Except ProcessFailure α × FileContents json

variable {τ : Type} {json : CacheJson τ}

/-- Answer further when there was no failure. -/
def Answered.andThen {α β : Type} (answered : Answered json α)
    (f : α → FileContents json → Answered json β) : Answered json β :=
  match answered.1 with
  | .ok a => f a answered.2
  | .error e => (.error e, answered.2)

namespace FileContents

variable (contents : FileContents json)

/-- A command over the derived-output cache; without a table, it fails when it reaches one. -/
def onCache (reached : Bool) (command : DerivedRows json → DerivedRows json × ProcessOutput) :
    Answered json ProcessOutput :=
  match contents.derived with
  | some cache => (.ok (command cache).2, { contents with derived := some (command cache).1 })
  | none =>
    if reached then (.error (.statement .derivedOutputCache), contents)
    else (.ok (command ⟨.empty⟩).2, contents)

/-- Building the projector of a real provider prunes its cache. -/
def projectorFor : SelectedProvider → FileContents json
  | .mock => contents
  | .model version =>
    { contents with
      projections := contents.projections.map fun rows => rows.pruneSuperseded version }

variable (cacheKey : MessageId → String → String) (ports : StrategyContext)

/-- Project a message through the caching projector, as the `n`-th call. -/
def project (version : StepVersion) (answers : Answers) (n : ℕ) (message : MessageEnvelope) :
    Answered json Projection :=
  match contents.projections with
  | none => (.error (.statement .projectionCache), contents)
  | some rows =>
    let run := Cached.run rows (projectionRequest cacheKey version message)
      (LlmProjector.run (answers n) message)
    (match run.1 with
      | some projection => .ok projection
      | none => .error .projector, { contents with projections := some run.2 })

/-- The strategy that an id selects. -/
def buildStrategy (id : String) : Answered json ReplayStrategy :=
  match StrategyRegistry.withBuiltins.build id ports with
  | .ok strategy => (.ok strategy, contents)
  | .error unknown => (.error (.unknownStrategy unknown), contents)

theorem buildStrategy_snd (id : String) : (contents.buildStrategy ports id).2 = contents := by
  unfold buildStrategy
  split <;> rfl

/-- The run of a strategy: with a real provider and its table it is a run behind the cache; without
the table every projection fails. -/
def runStrategy (provider : SelectedProvider) (calls : ModelCalls) (id : String)
    (strategy : ReplayStrategy) : ReplayStores × FileContents json :=
  match provider with
  | .mock => (strategy contents.log, contents)
  | .model version =>
    if id = StrategyRegistry.default then
      match contents.projections with
      | some rows =>
        let run : CachedRun := ⟨version, false, contents.log, calls.answers,
          calls.schedule contents.log, calls.delivers contents.log⟩
        let executed := run.exec cacheKey ports rows
        (executed.2, { contents with projections := some executed.1 })
      | none => (runPhases (ports.failing fun _ => true) contents.log, contents)
    else (strategy contents.log, contents)

/-- A run touches no table but the projection cache's. -/
theorem runStrategy_frame (provider : SelectedProvider) (calls : ModelCalls) (id : String)
    (strategy : ReplayStrategy) :
    let ran := contents.runStrategy cacheKey ports provider calls id strategy
    ran.2.log = contents.log ∧ ran.2.derived = contents.derived ∧
      ran.2.traces = contents.traces := by
  intro ran
  have hframe : ∃ projections, ran.2 = { contents with projections } := by
    cases provider with
    | mock => exact ⟨contents.projections, rfl⟩
    | model version =>
      simp only [ran, runStrategy]
      split
      · cases hprojections : contents.projections with
        | some rows => exact ⟨_, rfl⟩
        | none => exact ⟨contents.projections, rfl⟩
      · exact ⟨contents.projections, rfl⟩
  obtain ⟨projections, hran⟩ := hframe
  rw [hran]
  exact ⟨rfl, rfl, rfl⟩

end FileContents

section Answer

variable (cacheKey : MessageId → String → String) (ports : StrategyContext)
  (digest : List UInt8 → String) (debug : String → String)

/-- The stores of a run give something to put into the cache. -/
def Publishes (log : MessageLog) (stores : ReplayStores) : Bool :=
  !(cacheEntries digest log stores).isEmpty

namespace Invocation

variable (invocation : Invocation) (contents : FileContents json)

/-- What `replay`, `warmup` and `verify` do before they start. -/
def answerPrepare : Answered json ReplayStrategy :=
  ((contents.projectorFor invocation.provider).buildStrategy ports invocation.strategy).andThen
    fun strategy contents => (.ok strategy, contents.projectorFor invocation.provider)

/-- The run of the strategy that was built. -/
def runOn (strategy : ReplayStrategy) : ReplayStores × FileContents json :=
  contents.runStrategy cacheKey ports invocation.provider invocation.calls invocation.strategy
    strategy

def answerReplay (strategy : ReplayStrategy) : Answered json ProcessOutput :=
  let ran := invocation.runOn cacheKey ports contents strategy
  ran.2.onCache (Publishes digest contents.log ran.1) fun cache =>
    let replayed := replay digest contents.log (fun _ => ran.1) cache (invocation.version ports)
      invocation.router
    (replayed.1, .replayed replayed.2)

/-- A `warmup` that hits does not run the strategy. -/
def answerWarmup (c : ConversationId) (strategy : ReplayStrategy) : Answered json ProcessOutput :=
  let ran := invocation.runOn cacheKey ports contents strategy
  let hits := contents.derived.any fun cache =>
    (DerivedOutputCache.get cache (invocation.version ports) c
      (contentHashOf digest (contents.log.messagesFor c))).isSome
  (if hits ∨ contents.derived.isNone then contents else ran.2).onCache true fun cache =>
    let warmed := warmup digest contents.log c (fun _ => ran.1) cache (invocation.version ports)
      invocation.router
    (warmed.1, .warmed warmed.2)

def answerVerify (c : Option ConversationId) (strategy : ReplayStrategy) :
    Answered json ProcessOutput :=
  let ran := invocation.runOn cacheKey ports contents strategy
  ran.2.onCache (Publishes digest contents.log ran.1) fun cache =>
    let verified := verifyCommand digest contents.log (fun _ => ran.1) cache
      (invocation.version ports) c
    (verified.1, .verified verified.2)

/-- The projection that `inspect` shows. -/
def answerProject (message : MessageEnvelope) : Answered json Projection :=
  match invocation.provider with
  | .model version => contents.project cacheKey version invocation.calls.answers 0 message
  | .mock =>
    match ports.projector.run message with
    | some projection => (.ok projection, contents)
    | none => (.error .projector, contents)

/-- The context that `inspect` prints for a projection. -/
def answerTrace (id : MessageId) (message : MessageEnvelope) (projection : Projection) :
    Answered json (Option InspectContext) :=
  match contents.traces with
  | none => (.error (.statement .routingTraces), contents)
  | some traces =>
    (.ok (some ⟨message, projection, traces id, (invocation.router.route projection).1⟩),
      contents)

/-- The context of a message. -/
def answerInspect (id : MessageId) : Answered json (Option InspectContext) :=
  match contents.log.get id with
  | none => (.ok none, contents)
  | some message =>
    (invocation.answerProject cacheKey ports (contents.projectorFor invocation.provider)
      message).andThen fun projection contents =>
        invocation.answerTrace contents id message projection

end Invocation

/-- How the handler of a submission ends, and the contents it leaves. -/
def answerRun (provider : SelectedProvider) (contents : FileContents json)
    (delivered : StrategyRunRequest × ModelCalls) : Answered json Unit :=
  (contents.buildStrategy ports delivered.1.strategy).andThen fun strategy contents =>
    let ran := contents.runStrategy cacheKey ports provider delivered.2 delivered.1.strategy
      strategy
    match ran.2.derived with
    | some cache =>
      (.ok (), { ran.2 with derived := some (populateCache digest contents.log ran.1 cache
        (derivationVersion delivered.1.strategy (provider.version ports))).1 })
    | none =>
      if Publishes digest contents.log ran.1 then
        (.error (.statement .derivedOutputCache), ran.2)
      else (.ok (), ran.2)

/-- What a process answers on the contents of its file, and the contents it leaves. -/
def Invocation.answer (invocation : Invocation) (contents : FileContents json) :
    Answered json ProcessOutput :=
  match invocation.subcommand with
  | .ingest (.error e) => (.error (.message e), contents)
  | .ingest (.ok message) =>
    (.ok (.ingested message.id), { contents with log := contents.log.append message })
  | .github client source spec =>
    let ingested := githubIngestRest debug contents.log client source spec
    (match ingested.2 with
      | .ok ids => .ok (.fetched ids)
      | .error e => .error (.github e), { contents with log := ingested.1 })
  | .replay => (invocation.answerPrepare ports contents).andThen fun strategy contents =>
    invocation.answerReplay cacheKey ports digest contents strategy
  | .warmup c => (invocation.answerPrepare ports contents).andThen fun strategy contents =>
    invocation.answerWarmup cacheKey ports digest contents c strategy
  | .verify c => (invocation.answerPrepare ports contents).andThen fun strategy contents =>
    invocation.answerVerify cacheKey ports digest contents c strategy
  | .inspect id => (invocation.answerInspect cacheKey ports contents id).andThen
    fun context contents => (.ok (.inspected context), contents)
  | .work delivered =>
    let worked := serve (fun submission contents =>
      answerRun cacheKey ports digest invocation.provider contents submission) delivered
      (contents.projectorFor invocation.provider)
    (.ok (.worked worked.1), worked.2)
  | .queue => (.ok .queued, contents)

/-- The log a process leaves. -/
def Invocation.logs (log : MessageLog) (invocation : Invocation) : MessageLog :=
  match invocation.subcommand with
  | .ingest (.ok message) => log.append message
  | .github client source spec => (githubIngestRest debug log client source spec).1
  | _ => log

end Answer

end Mirrorlane
