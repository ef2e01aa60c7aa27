import Mirrorlane.Cli.CachedRuns
import Mirrorlane.Cli.Commands
import Mirrorlane.Cli.Github
import Mirrorlane.Cli.Inspect
import Mirrorlane.Foundation.Serve
import Mirrorlane.Storage.DatabaseFile
import Mirrorlane.Worker.Submission

/-!
# The processes on one database file

Every command is a process of its own: it opens the message log and the traces on the `--db` path,
opens what else it needs, and works on the tables statement by statement.  Each statement commits
on its own, so a process that fails leaves what it has written.

The mock provider's projector is a function and keeps nothing in the file.  A real provider's asks a
model, which may answer differently on every call, and keeps the answers in the projection cache.
-/

namespace Mirrorlane

/-- Why a process ends without its output. -/
inductive ProcessFailure where
  /-- The open of a store returned an error. -/
  | openStore (kind : StoreKind)
  /-- A statement on a store's table failed: the port panics. -/
  | statement (kind : StoreKind)
  /-- The projector panicked. -/
  | projector
  | unknownStrategy (unknown : UnknownStrategy)
  /-- What was given as a message is none. -/
  | message (error : String)
  /-- The repository was not fetched. -/
  | github (error : String)
  deriving DecidableEq

/-- The selected provider: the mock one, or a real one with its cache version. -/
inductive SelectedProvider where
  | mock
  | model (version : StepVersion)
  deriving DecidableEq

/-- The version of the projector that is built for a provider. -/
def SelectedProvider.version (ports : StrategyContext) : SelectedProvider → StepVersion
  | .mock => ports.projector.version
  | .model version => version

/-- What happens while a strategy runs with a real provider: what the model answers to its calls,
and what the brokers deliver. -/
structure ModelCalls where
  answers : Answers
  schedule : MessageLog → Schedule
  /-- Every payload is delivered at least once. -/
  delivers : ∀ log, (schedule log).Delivers log.all

/-- A process on a database file. -/
abbrev Process (τ α : Type) := EStateM ProcessFailure (Database τ) α

namespace Process

variable {τ α : Type}

/-- Open a store. -/
def openStore (sql : OrderBy) (kind : StoreKind) : Process τ Unit := fun db =>
  match kind.init sql db with
  | (db', true) => .ok () db'
  | (db', false) => .error (.openStore kind) db'

/-- A statement that reads. -/
def query (kind : StoreKind) (read : Database τ → Option α) : Process τ α := fun db =>
  match read db with
  | some a => .ok a db
  | none => .error (.statement kind) db

/-- A statement that writes. -/
def execute (kind : StoreKind) (write : Database τ → Option (Database τ)) : Process τ Unit :=
  fun db =>
    match write db with
    | some db' => .ok () db'
    | none => .error (.statement kind) db

section Statements

variable {kind : StoreKind} {read : Database τ → Option α}
  {write : Database τ → Option (Database τ)} {db db' : Database τ}

theorem exec_openStore {sql : OrderBy} (h : kind.init sql db = (db', true)) :
    exec (openStore sql kind) db = (.ok (), db') := by
  unfold exec openStore
  rw [h]

theorem exec_query_of_some {a : α} (h : read db = some a) :
    exec (query kind read) db = (.ok a, db) := by
  unfold exec query
  rw [h]

/-- A statement that fails changes nothing. -/
theorem exec_query_of_none (h : read db = none) :
    exec (query kind read) db = (.error (.statement kind), db) := by
  unfold exec query
  rw [h]

theorem exec_execute_of_some (h : write db = some db') :
    exec (execute kind write) db = (.ok (), db') := by
  simp only [exec, execute, h]

theorem exec_execute_of_none (h : write db = none) :
    exec (execute kind write) db = (.error (.statement kind), db) := by
  simp only [exec, execute, h]

end Statements

variable (json : FileJson τ) (sql : OrderBy)

/-! ### The message log -/

/-- The log as the store returns it.  `append` writes a message under its own id, so the ids of the
messages are the primary keys of their rows. -/
def readLog : Process τ MessageLog :=
  query .messages fun db => do
    let messages ← SqliteMessageStore.all json.messages sql db
    if h : (messages.map MessageEnvelope.id).Nodup then some ⟨messages, h⟩ else none

/-- Append a message. -/
def append (message : MessageEnvelope) : Process τ Unit :=
  execute .messages fun db => SqliteMessageStore.append json.messages db message

/-- One conversation's messages. -/
def messagesFor (conversation : ConversationId) : Process τ (List MessageEnvelope) :=
  query .messages fun db => SqliteMessageStore.messagesFor json.messages sql db conversation

/-- Append the messages of some items; returns their ids. -/
def ingestItems : List GitHubItem → Process τ (List MessageId)
  | [] => pure []
  | item :: items => do
    let message := toMessage item
    append json message
    let ids ← ingestItems items
    return message.id :: ids

/-! ### The projector -/

/-- Build the projector of a provider: a real one opens its cache and prunes it. -/
def projectorFor : SelectedProvider → Process τ Unit
  | .mock => pure ()
  | .model version => do
    openStore sql .projectionCache
    -- a failed prune is ignored
    let _ ← attempt (execute .projectionCache fun db =>
      SqliteProjectionCache.pruneSuperseded db version)

variable (cacheKey : MessageId → String → String)

/-- Project a message through the caching projector, as the `n`-th call. -/
def project (version : StepVersion) (answers : Answers) (n : ℕ) (message : MessageEnvelope) :
    Process τ Projection := do
  let request := projectionRequest cacheKey version message
  match ← query .projectionCache fun db =>
      SqliteProjectionCache.get json.caches db request.kind request.version request.key with
  | some projection => return projection
  | none =>
    match LlmProjector.run (answers n) message with
    | none => throw .projector
    | some projection =>
      execute .projectionCache fun db =>
        SqliteProjectionCache.put json.caches db request.kind request.version request.key projection
      return projection

/-- The message stage: a job whose projector panics does not stop the worker. -/
def projectAll (version : StepVersion) (answers : Answers) :
    ℕ → List MessageEnvelope → Process τ (List (MessageEnvelope × Option Projection))
  | _, [] => pure []
  | n, message :: messages => do
    let ended ← attempt (project json cacheKey version answers n message)
    let projected ← projectAll version answers (n + 1) messages
    return (message, ended.toOption) :: projected

variable (ports : StrategyContext)

/-- The strategy a `--strategy` flag names, over the resolved ports. -/
def buildStrategy (id : String) : Process τ ReplayStrategy :=
  match StrategyRegistry.withBuiltins.build id ports with
  | .ok strategy => pure strategy
  | .error unknown => throw (.unknownStrategy unknown)

/-- Run the strategy of an id.  The reference strategy is the built-in one that projects. -/
def runStrategy (provider : SelectedProvider) (calls : ModelCalls) (id : String)
    (strategy : ReplayStrategy) : Process τ ReplayStores := do
  let log ← readLog json sql
  match provider with
  | .mock => return strategy log
  | .model version =>
    if id = StrategyRegistry.default then
      let schedule := calls.schedule log
      let projected ← projectAll json cacheKey version calls.answers 0 schedule.messages
      return runStages ports schedule (projected.foldl storeProjected .empty)
    else return strategy log

/-! ### The derived-output cache -/

/-- Fetch a cached derivation. -/
def getDerivation (version : StepVersion) (conversation : ConversationId) (content : String) :
    Process τ (Option ConversationDerivation) :=
  query .derivedOutputCache fun db =>
    SqliteDerivedOutputCache.get json.caches db version conversation content

/-- Put entries and reclaim what they supersede; returns their derivations. -/
def putEntries (version : StepVersion) : List CacheEntry → Process τ (List ConversationDerivation)
  | [] => pure []
  | entry :: entries => do
    execute .derivedOutputCache fun db =>
      SqliteDerivedOutputCache.put json.caches db version entry.conversation entry.content
        entry.derivation
    -- a failed prune is swallowed
    modify fun db =>
      SqliteDerivedOutputCache.reclaimSuperseded db entry.conversation version entry.content
    let derivations ← putEntries version entries
    return entry.derivation :: derivations

variable (digest : List UInt8 → String)

/-- Read the log again and write every conversation's derivation. -/
def populateCache (stores : ReplayStores) (version : StepVersion) :
    Process τ (List ConversationDerivation) := do
  let log ← readLog json sql
  putEntries json version (cacheEntries digest log stores)

/-! ### The commands -/

/-- Replay the log; `run` runs the strategy. -/
def replay (run : Process τ ReplayStores) (version : StepVersion) (router : RuleRouter) :
    Process τ ReplayOutput := do
  let stores ← run
  let derivations ← populateCache json sql digest stores version
  let log ← readLog json sql
  return {
    contexts := derivations.map fun derivation => sessionContextFrom derivation version.val router
    unprojected := unprojected stores (log.all.map MessageEnvelope.id) }

/-- One conversation's context. -/
def warmup (conversation : ConversationId) (run : Process τ ReplayStores) (version : StepVersion)
    (router : RuleRouter) : Process τ WarmupOutput := do
  let content := contentHashOf digest (← messagesFor json sql conversation)
  match ← getDerivation json version conversation content with
  | some derivation =>
    let projected := derivation.projections.map Projection.messageId
    let log ← readLog json sql
    return {
      context := some (sessionContextFrom derivation version.val router)
      unprojected := (messagesIn log conversation).filter fun id => id ∉ projected }
  | none =>
    let stores ← run
    let _ ← populateCache json sql digest stores version
    let log ← readLog json sql
    return {
      context := (derivationFor log stores conversation).map fun derivation =>
        sessionContextFrom derivation version.val router
      unprojected := unprojected stores (messagesIn log conversation) }

/-- Compare some fresh derivations with what is cached. -/
def verifyAll (version : StepVersion) :
    List ConversationDerivation → Process τ (List VerifyRecord)
  | [] => pure []
  | fresh :: rest => do
    let content := contentHashOf digest (← messagesFor json sql fresh.conversation)
    let stored ← getDerivation json version fresh.conversation content
    let records ← verifyAll version rest
    return ⟨fresh.conversation, verifyOutcome fresh stored⟩ :: records

/-- Compare every cached derivation with a fresh one. -/
def verify (run : Process τ ReplayStores) (version : StepVersion) :
    Process τ (List VerifyRecord) := do
  let stores ← run
  let log ← readLog json sql
  -- the scratch cache is not in the file
  let scratch : InMemoryDerivedOutputCache := ⟨.empty⟩
  verifyAll json sql digest version (Mirrorlane.populateCache digest log stores scratch version).2

/-- A message with its projection, its decision and its trace. -/
def inspect (provider : SelectedProvider) (answers : Answers) (messageId : MessageId)
    (router : RuleRouter) : Process τ (Option InspectContext) := do
  match ← query .messages fun db => SqliteMessageStore.get json.messages db messageId with
  | none => return none
  | some message =>
    projectorFor sql provider
    let projection ←
      match provider with
      | .model version => project json cacheKey version answers 0 message
      | .mock =>
        match ports.projector.run message with
        | some projection => pure projection
        | none => throw .projector
    let decision := (router.route projection).1
    let trace ← query .routingTraces fun db => SqliteRoutingTraceStore.get db messageId
    return some { message, projection, trace, decision }

/-- Fetch a repository and append its items. -/
def githubIngestRest (debug : String → String) (client : GitHubClient) (source : RestGitHubSource)
    (spec : String) : Process τ (List MessageId) :=
  match parseRepo debug spec with
  | .error e => throw (.github e)
  | .ok repo =>
    match source.tryFetch client repo with
    | .error e => throw (.github e.display)
    | .ok items => ingestItems json items

/-- The handler of a submitted run. -/
def strategyRun (provider : SelectedProvider) (request : StrategyRunRequest) (calls : ModelCalls) :
    Process τ Unit := do
  let strategy ← buildStrategy ports request.strategy
  let stores ← runStrategy json sql cacheKey ports provider calls request.strategy strategy
  let version := derivationVersion request.strategy (provider.version ports)
  let _ ← populateCache json sql digest stores version

/-- The submissions a worker executes, in the order the broker delivers them: one that fails or
panics does not stop the worker. -/
def workAll (provider : SelectedProvider) :
    List (StrategyRunRequest × ModelCalls) → Process τ (List (Except ProcessFailure Unit))
  | [] => pure []
  | delivered :: rest => do
    let ended ← attempt
      (strategyRun json sql cacheKey ports digest provider delivered.1 delivered.2)
    let results ← workAll provider rest
    return ended :: results

end Process

/-! ### The command line -/

/-- A subcommand, with what it reads from outside the file. -/
inductive Subcommand where
  /-- The text on standard input is a message, or the parser's error. -/
  | ingest (input : Except String MessageEnvelope)
  | github (client : GitHubClient) (source : RestGitHubSource) (spec : String)
  | replay
  | warmup (conversation : ConversationId)
  | verify (conversation : Option ConversationId)
  | inspect (message : MessageId)
  /-- `work`, with the submissions its broker delivers and what happens while they run. -/
  | work (delivered : List (StrategyRunRequest × ModelCalls))
  /-- `submit` and `dlq`, which work on the broker's database. -/
  | queue

/-- The flags and the configuration that the commands read, and what happens while they run. -/
structure Invocation where
  provider : SelectedProvider
  strategy : String
  router : RuleRouter
  calls : ModelCalls
  subcommand : Subcommand

/-- What a process prints. -/
inductive ProcessOutput where
  | ingested (id : MessageId)
  | fetched (ids : List MessageId)
  | replayed (output : ReplayOutput)
  | warmed (output : WarmupOutput)
  | verified (report : VerifyReport)
  | inspected (context : Option InspectContext)
  | worked (results : List (Except ProcessFailure Unit))
  | queued

section Main

variable {τ : Type} (json : FileJson τ) (sql : OrderBy)
  (cacheKey : MessageId → String → String) (ports : StrategyContext)
  (digest : List UInt8 → String) (debug : String → String)

/-- What `replay`, `warmup` and `verify` do before they start: the projector is built for the
strategy, and again for its version. -/
def Invocation.prepare (invocation : Invocation) : Process τ ReplayStrategy := do
  Process.projectorFor sql invocation.provider
  let strategy ← Process.buildStrategy ports invocation.strategy
  Process.openStore sql .derivedOutputCache
  Process.projectorFor sql invocation.provider
  return strategy

/-- Run the strategy that was built. -/
def Invocation.run (invocation : Invocation) (strategy : ReplayStrategy) :
    Process τ ReplayStores :=
  Process.runStrategy json sql cacheKey ports invocation.provider invocation.calls
    invocation.strategy strategy

/-- The derivation version of a process. -/
def Invocation.version (invocation : Invocation) : StepVersion :=
  derivationVersion invocation.strategy (invocation.provider.version ports)

/-- The `main` of a process. -/
def Invocation.main (invocation : Invocation) : Process τ ProcessOutput := do
  Process.openStore sql .messages
  Process.openStore sql .routingTraces
  match invocation.subcommand with
  | .ingest (.error e) => throw (.message e)
  | .ingest (.ok message) =>
    Process.append json message
    return .ingested message.id
  | .github client source spec =>
    return .fetched (← Process.githubIngestRest json debug client source spec)
  | .replay =>
    let strategy ← invocation.prepare sql ports
    return .replayed (← Process.replay json sql digest
      (invocation.run json sql cacheKey ports strategy) (invocation.version ports)
      invocation.router)
  | .warmup conversation =>
    let strategy ← invocation.prepare sql ports
    return .warmed (← Process.warmup json sql digest conversation
      (invocation.run json sql cacheKey ports strategy) (invocation.version ports)
      invocation.router)
  | .verify conversation =>
    Process.openStore sql .messages
    let strategy ← invocation.prepare sql ports
    return .verified (.of conversation (← Process.verify json sql digest
      (invocation.run json sql cacheKey ports strategy) (invocation.version ports)))
  | .inspect message =>
    return .inspected (← Process.inspect json sql cacheKey ports invocation.provider
      invocation.calls.answers message invocation.router)
  | .work delivered =>
    Process.openStore sql .messages
    Process.projectorFor sql invocation.provider
    Process.openStore sql .derivedOutputCache
    return .worked (← Process.workAll json sql cacheKey ports digest invocation.provider delivered)
  | .queue => return .queued

/-- Processes on one file, one after another: how each ends, and the file they leave. -/
def processes (invocations : List Invocation) (db : Database τ) :
    List (Except ProcessFailure ProcessOutput) × Database τ :=
  serve (fun invocation => exec (invocation.main json sql cacheKey ports digest debug)) invocations
    db

end Main

end Mirrorlane
