import Mirrorlane.Github.Consumer
import Mirrorlane.Worker.Derived
import Mirrorlane.Worker.Registry

/-!
# The replay, warmup and verify commands

`replay` is the producer of the derived-output cache, `warmup` its consumer: it serves a
conversation from the cache when the version and content match, and replays otherwise.  `verify`
recomputes every derivation and compares it with what is cached.
-/

namespace Mirrorlane

/-- The output schema id of a session context. -/
def sessionContextSchema : String := "mirrorlane.session_context/1"

/-- The full structured context of one session. -/
structure SessionContext where
  schema : String
  derivationVersion : String
  conversation : ConversationId
  warmup : WarmupDocument
  scope : Option Scope
  developers : Option SessionDevelopers
  hints : List RoutingHint
  decisions : List RoutingDecision
  drafts : List GitHubDraft
  deriving DecidableEq

/-- Assemble a session context from a derivation: the read-time routing. -/
def sessionContextFrom (derivation : ConversationDerivation) (version : String)
    (router : RuleRouter) : SessionContext :=
  let routed := derivation.projections.map fun projection => (projection, router.route projection)
  { schema := sessionContextSchema
    derivationVersion := version
    conversation := derivation.conversation
    warmup := derivation.warmup
    scope := derivation.scope
    developers := derivation.developers
    hints := derivation.hints
    decisions := routed.map fun pair => pair.2.1
    drafts := (routed.filter fun pair => pair.2.1.target = .gitHub).map fun pair =>
      draftFor pair.1 }

/-- The ids among `ids` that have no stored projection. -/
def unprojected (stores : ReplayStores) (ids : List MessageId) : List MessageId :=
  ids.filter fun id => (stores.projections id).isNone

/-- The contexts of a replay, and the messages that produced no projection. -/
structure ReplayOutput where
  contexts : List SessionContext
  unprojected : List MessageId
  deriving DecidableEq

/-- One conversation's context, if present, and its messages that produced no projection. -/
structure WarmupOutput where
  context : Option SessionContext
  unprojected : List MessageId
  deriving DecidableEq

/-- One conversation's verification result. -/
inductive VerifyOutcome where
  | verified
  | diverged
  | notCached
  deriving DecidableEq

/-- A conversation with its verification result. -/
structure VerifyRecord where
  conversation : ConversationId
  outcome : VerifyOutcome
  deriving DecidableEq

/-- How what is cached compares with a fresh derivation. -/
def verifyOutcome (fresh : ConversationDerivation) : Option ConversationDerivation → VerifyOutcome
  | none => .notCached
  | some stored => if stored = fresh then .verified else .diverged

section Commands

variable {κ : Type} [DerivedOutputCache κ] (digest : List UInt8 → String)

/-- Replay the log: the cache afterwards, and the contexts in first-seen order. -/
def replay (store : MessageLog) (strategy : ReplayStrategy) (cache : κ) (version : StepVersion)
    (router : RuleRouter) : κ × ReplayOutput :=
  let stores := strategy store
  let populated := populateCache digest store stores cache version
  (populated.1,
    { contexts := populated.2.map fun derivation =>
        sessionContextFrom derivation version.val router
      unprojected := unprojected stores (store.all.map MessageEnvelope.id) })

/-- One conversation's context: from the cache on a hit, by a replay on a miss. -/
def warmup (store : MessageLog) (conversation : ConversationId) (strategy : ReplayStrategy)
    (cache : κ) (version : StepVersion) (router : RuleRouter) : κ × WarmupOutput :=
  let content := contentHashOf digest (store.messagesFor conversation)
  match DerivedOutputCache.get cache version conversation content with
  -- a hit runs no strategy: what it reports unprojected is what the cached derivation lacks
  | some derivation =>
    let projected := derivation.projections.map Projection.messageId
    (cache,
      { context := some (sessionContextFrom derivation version.val router)
        unprojected := (messagesIn store conversation).filter fun id => id ∉ projected })
  | none =>
    -- a miss writes every conversation of the log, not only this one
    let stores := strategy store
    ((populateCache digest store stores cache version).1,
      { context := (derivationFor store stores conversation).map fun derivation =>
          sessionContextFrom derivation version.val router
        unprojected := unprojected stores (messagesIn store conversation) })

/-- Compare every cached derivation with a fresh one.  The durable cache is only read. -/
def verify (store : MessageLog) (strategy : ReplayStrategy) (durable : κ) (version : StepVersion) :
    List VerifyRecord :=
  let stores := strategy store
  -- the fresh derivations are written to a cache that is thrown away
  let scratch : InMemoryDerivedOutputCache := ⟨.empty⟩
  (populateCache digest store stores scratch version).2.map fun fresh =>
    let content := contentHashOf digest (store.messagesFor fresh.conversation)
    { conversation := fresh.conversation
      outcome := verifyOutcome fresh
        (DerivedOutputCache.get durable version fresh.conversation content) }

/-- What the `verify` command prints, and the divergences it fails with. -/
structure VerifyReport where
  records : List VerifyRecord
  verified : ℕ
  diverged : ℕ
  notCached : ℕ
  deriving DecidableEq

/-- The command exits non-zero when any conversation diverged. -/
def VerifyReport.Failed (report : VerifyReport) : Prop := 0 < report.diverged

instance (report : VerifyReport) : Decidable report.Failed :=
  inferInstanceAs (Decidable (0 < report.diverged))

/-- What is reported of the records, perhaps limited to one conversation. -/
def VerifyReport.of (conversation : Option ConversationId) (all : List VerifyRecord) :
    VerifyReport :=
  let records :=
    match conversation with
    | none => all
    | some wanted => all.filter fun record => record.conversation = wanted
  let count (outcome : VerifyOutcome) := records.countP fun record => record.outcome = outcome
  ⟨records, count .verified, count .diverged, count .notCached⟩

/-- The `verify` command: the durable cache it leaves, and what it reports. -/
def verifyCommand (store : MessageLog) (strategy : ReplayStrategy) (durable : κ)
    (version : StepVersion) (conversation : Option ConversationId) : κ × VerifyReport :=
  (durable, .of conversation (verify digest store strategy durable version))

end Commands

end Mirrorlane
