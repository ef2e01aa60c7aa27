import Mirrorlane.Cli.Equiv.Statements
import Mirrorlane.Worker.Equiv.Derived

/-!
# Processes on a file and the commands on what it stands for

`Invocation.main` works on the file statement by statement and answers what `Invocation.answer`
says of the contents; what it leaves stands for the contents that are left.  `Simulates.serve` takes
one process to any number of them.

## Main results

* `processes_agree`: any processes on a file answer what the commands answer on what it stands for
-/

namespace Mirrorlane

variable {τ : Type}

/-! ### Writing the derived-output cache -/

section Populate

variable {json : FileJson τ} {sql : OrderBy} {digest : List UInt8 → String}
  {contents : FileContents json.caches} {db : Database τ} {log : MessageLog}
  {stores : ReplayStores}

theorem cacheEntries_of_not_publishes (h : Publishes digest log stores = false) :
    cacheEntries digest log stores = [] := by
  rw [Publishes, Bool.not_eq_false'] at h
  exact List.isEmpty_iff.mp h

theorem Holds.endsIn_populateCache {cache : DerivedRows json.caches} (h : Holds json contents db)
    (hderived : contents.derived = some cache) (stores : ReplayStores) (v : StepVersion) :
    EndsIn (Process.populateCache json sql digest stores v) db
      (.ok (populateCache digest contents.log stores cache v).2)
      (Holds json { contents with
        derived := some (populateCache digest contents.log stores cache v).1 }) :=
  EndsIn.bind h.endsIn_readLog fun _ h₁ => h₁.endsIn_putEntries v _ hderived

/-- Without the table, a run that has something to publish panics. -/
theorem Holds.endsIn_populateCache_of_publishes (h : Holds json contents db)
    (hderived : contents.derived = none) (v : StepVersion)
    (hpublishes : Publishes digest contents.log stores = true) :
    EndsIn (Process.populateCache json sql digest stores v) db
      (.error (.statement .derivedOutputCache)) (Holds json contents) := by
  refine EndsIn.bind h.endsIn_readLog fun _ h₁ => ?_
  have hends := h₁.endsIn_putEntries_none hderived v (cacheEntries digest contents.log stores)
  rw [Publishes, Bool.not_eq_true'] at hpublishes
  rw [hpublishes] at hends
  exact hends

theorem Holds.endsIn_populateCache_of_not_publishes (h : Holds json contents db)
    (hderived : contents.derived = none) (v : StepVersion)
    (hpublishes : Publishes digest contents.log stores = false) :
    EndsIn (Process.populateCache json sql digest stores v) db (.ok []) (Holds json contents) := by
  refine EndsIn.bind h.endsIn_readLog fun _ h₁ => ?_
  have hends := h₁.endsIn_putEntries_none hderived v (cacheEntries digest contents.log stores)
  rw [cacheEntries_of_not_publishes hpublishes] at hends ⊢
  exact hends

end Populate

/-! ### Commands -/

section Commands

variable {json : FileJson τ} {sql : OrderBy} {digest : List UInt8 → String}
  {contents : FileContents json.caches} {db : Database τ} {run : Process τ ReplayStores}

/-- A replay, once its run has left `contents`. -/
theorem gives_replay {stores : ReplayStores} {log : MessageLog}
    (hrun : EndsIn run db (.ok stores) (Holds json contents)) (hlog : contents.log = log)
    (v : StepVersion) (router : RuleRouter) :
    Gives json (do return .replayed (← Process.replay json sql digest run v router)) db
      (contents.onCache (Publishes digest log stores) fun cache =>
        let replayed := replay digest log (fun _ => stores) cache v router
        (replayed.1, .replayed replayed.2)) := by
  subst hlog
  unfold Gives FileContents.onCache
  cases hderived : contents.derived with
  | some cache =>
    refine EndsIn.bind (EndsIn.bind hrun fun _ h₁ => ?_) fun _ h₂ => EndsIn.pure _ h₂
    refine EndsIn.bind (h₁.endsIn_populateCache hderived _ v) fun _ h₂ => ?_
    exact EndsIn.bind h₂.endsIn_readLog fun _ h₃ => EndsIn.pure _ h₃
  | none =>
    cases hpublishes : Publishes digest contents.log stores with
    | true =>
      refine EndsIn.bind_error (EndsIn.bind hrun fun _ h₁ => ?_)
      exact EndsIn.bind_error (h₁.endsIn_populateCache_of_publishes hderived v hpublishes)
    | false =>
      have hreplay : (replay digest contents.log (fun _ => stores)
          (⟨.empty⟩ : DerivedRows json.caches) v router).2 =
            ⟨[], unprojected stores (contents.log.all.map MessageEnvelope.id)⟩ := by
        simp only [replay, populateCache, cacheEntries_of_not_publishes hpublishes]
        rfl
      simp only [Bool.false_eq_true, if_false, hreplay]
      refine EndsIn.bind (EndsIn.bind hrun fun _ h₁ => ?_) fun _ h₂ => EndsIn.pure _ h₂
      refine EndsIn.bind (h₁.endsIn_populateCache_of_not_publishes hderived v hpublishes)
        fun _ h₂ => ?_
      exact EndsIn.bind h₂.endsIn_readLog fun _ h₃ => EndsIn.pure _ h₃

/-- A warm-up.  One that hits does not run the strategy. -/
theorem Holds.gives_warmup (h : Holds json contents db)
    {ran : ReplayStores × FileContents json.caches}
    (hrun : ∀ {db'}, Holds json contents db' → EndsIn run db' (.ok ran.1) (Holds json ran.2))
    (hlog : ran.2.log = contents.log) (hsame : ran.2.derived = contents.derived)
    (c : ConversationId) (v : StepVersion) (router : RuleRouter) :
    let hits := contents.derived.any fun cache =>
      (DerivedOutputCache.get cache v c
        (contentHashOf digest (contents.log.messagesFor c))).isSome
    Gives json (do return .warmed (← Process.warmup json sql digest c run v router)) db
      ((if hits ∨ contents.derived.isNone then contents else ran.2).onCache true fun cache =>
        let warmed := warmup digest contents.log c (fun _ => ran.1) cache v router
        (warmed.1, .warmed warmed.2)) := by
  intro hits
  unfold Gives FileContents.onCache
  cases hderived : contents.derived with
  | none =>
    simp only [Option.isNone_none, or_true, if_true, hderived]
    refine EndsIn.bind_error (EndsIn.bind (h.endsIn_messagesFor c) fun _ h₁ => ?_)
    exact EndsIn.bind_error (h₁.endsIn_getDerivation_none hderived v c _)
  | some cache =>
    have hhits : hits = (DerivedOutputCache.get cache v c
        (contentHashOf digest (contents.log.messagesFor c))).isSome := by
      simp only [hits, hderived, Option.any_some]
    cases hget : DerivedOutputCache.get cache v c
        (contentHashOf digest (contents.log.messagesFor c)) with
    | some derivation =>
      have hwarmup : warmup digest contents.log c (fun _ => ran.1) cache v router =
          (cache, ⟨some (sessionContextFrom derivation v.val router),
            (messagesIn contents.log c).filter fun id =>
              id ∉ derivation.projections.map Projection.messageId⟩) := by
        simp only [warmup, hget]
      rw [hget, Option.isSome_some] at hhits
      simp only [hhits, true_or, if_true, hderived, hwarmup]
      refine EndsIn.bind (EndsIn.bind (h.endsIn_messagesFor c) fun _ h₁ => ?_)
        fun _ h₂ => EndsIn.pure _ (by rwa [← hderived])
      have hhit := h₁.endsIn_getDerivation hderived v c
        (contentHashOf digest (contents.log.messagesFor c))
      rw [hget] at hhit
      refine EndsIn.bind hhit fun _ h₂ => ?_
      exact EndsIn.bind h₂.endsIn_readLog fun _ h₃ => EndsIn.pure _ h₃
    | none =>
      have hwarmup : warmup digest contents.log c (fun _ => ran.1) cache v router =
          ((populateCache digest ran.2.log ran.1 cache v).1,
            ⟨(derivationFor ran.2.log ran.1 c).map fun derivation =>
              sessionContextFrom derivation v.val router,
              unprojected ran.1 (messagesIn ran.2.log c)⟩) := by
        simp only [warmup, hget, hlog]
      rw [hget, Option.isSome_none] at hhits
      simp only [hhits, Bool.false_eq_true, Option.isNone_some, or_self, if_false,
        hsame.trans hderived, hwarmup]
      refine EndsIn.bind (EndsIn.bind (h.endsIn_messagesFor c) fun _ h₁ => ?_)
        fun _ h₂ => EndsIn.pure _ h₂
      have hmiss := h₁.endsIn_getDerivation hderived v c
        (contentHashOf digest (contents.log.messagesFor c))
      rw [hget] at hmiss
      refine EndsIn.bind hmiss fun _ h₂ => EndsIn.bind (hrun h₂) fun _ h₃ => ?_
      refine EndsIn.bind (h₃.endsIn_populateCache (hsame.trans hderived) _ v) fun _ h₄ => ?_
      exact EndsIn.bind h₄.endsIn_readLog fun _ h₅ => EndsIn.pure _ h₅

theorem Holds.endsIn_verifyAll {cache : DerivedRows json.caches} (h : Holds json contents db)
    (hderived : contents.derived = some cache) (v : StepVersion)
    (fresh : List ConversationDerivation) :
    EndsIn (Process.verifyAll json sql digest v fresh) db
      (.ok (fresh.map fun derivation =>
        { conversation := derivation.conversation
          outcome := verifyOutcome derivation (DerivedOutputCache.get cache v
            derivation.conversation
            (contentHashOf digest (contents.log.messagesFor derivation.conversation))) }))
      (Holds json contents) := by
  induction fresh generalizing db with
  | nil => exact EndsIn.pure [] h
  | cons derivation fresh ih =>
    refine EndsIn.bind (h.endsIn_messagesFor derivation.conversation) fun _ h₁ => ?_
    refine EndsIn.bind (h₁.endsIn_getDerivation hderived v _ _) fun _ h₂ => ?_
    exact EndsIn.bind (ih h₂) fun _ h₃ => EndsIn.pure _ h₃

/-- Without the table the first comparison panics. -/
theorem Holds.endsIn_verifyAll_none (h : Holds json contents db)
    (hderived : contents.derived = none) (v : StepVersion)
    (fresh : List ConversationDerivation) :
    EndsIn (Process.verifyAll json sql digest v fresh) db
      (if fresh.isEmpty then .ok [] else .error (.statement .derivedOutputCache))
      (Holds json contents) := by
  cases fresh with
  | nil => exact EndsIn.pure [] h
  | cons derivation fresh =>
    refine EndsIn.bind (h.endsIn_messagesFor derivation.conversation) fun _ h₁ => ?_
    exact EndsIn.bind_error (h₁.endsIn_getDerivation_none hderived v _ _)

/-- A verification, once its run has left `contents`. -/
theorem gives_verify {stores : ReplayStores} {log : MessageLog}
    (hrun : EndsIn run db (.ok stores) (Holds json contents)) (hlog : contents.log = log)
    (v : StepVersion) (c : Option ConversationId) :
    Gives json (do return .verified (.of c (← Process.verify json sql digest run v))) db
      (contents.onCache (Publishes digest log stores) fun cache =>
        let verified := verifyCommand digest log (fun _ => stores) cache v c
        (verified.1, .verified verified.2)) := by
  subst hlog
  unfold Gives FileContents.onCache
  cases hderived : contents.derived with
  | some cache =>
    have hverify : EndsIn (Process.verify json sql digest run v) db
        (.ok (verify digest contents.log (fun _ => stores) cache v)) (Holds json contents) := by
      refine EndsIn.bind hrun fun _ h₁ => ?_
      exact EndsIn.bind h₁.endsIn_readLog fun _ h₂ => h₂.endsIn_verifyAll hderived v _
    refine EndsIn.bind hverify fun _ h₁ => EndsIn.pure _ ?_
    show Holds json { contents with derived := some cache } _
    rwa [← hderived]
  | none =>
    let scratch : InMemoryDerivedOutputCache := ⟨.empty⟩
    let fresh := (populateCache digest contents.log stores scratch v).2
    have hfresh : fresh.isEmpty = !Publishes digest contents.log stores := by
      rw [Publishes, Bool.not_not]
      exact List.isEmpty_map
    have hverify : EndsIn (Process.verify json sql digest run v) db
        (if !Publishes digest contents.log stores then .ok []
          else .error (.statement .derivedOutputCache)) (Holds json contents) := by
      rw [← hfresh]
      refine EndsIn.bind hrun fun _ h₁ => EndsIn.bind h₁.endsIn_readLog fun _ h₂ => ?_
      exact h₂.endsIn_verifyAll_none hderived v fresh
    cases hpublishes : Publishes digest contents.log stores with
    | true =>
      rw [hpublishes] at hverify
      exact EndsIn.bind_error hverify
    | false =>
      have hcommand : (verifyCommand digest contents.log (fun _ => stores)
          (⟨.empty⟩ : DerivedRows json.caches) v c).2 = .of c [] := by
        simp only [verifyCommand, verify, populateCache,
          cacheEntries_of_not_publishes hpublishes, List.map_nil]
      rw [hpublishes] at hverify
      simp only [Bool.false_eq_true, if_false, hcommand]
      exact EndsIn.bind hverify fun _ h₁ => EndsIn.pure _ h₁

/-- Fetching a repository and appending its items. -/
theorem Holds.gives_github (h : Holds json contents db) (debug : String → String)
    (client : GitHubClient) (source : RestGitHubSource) (spec : String) :
    let ingested := githubIngestRest debug contents.log client source spec
    Gives json (do return .fetched (← Process.githubIngestRest json debug client source spec)) db
      (match ingested.2 with
        | .ok ids => Except.ok (ProcessOutput.fetched ids)
        | .error e => .error (.github e), { contents with log := ingested.1 }) := by
  intro ingested
  unfold Gives
  cases hrepo : parseRepo debug spec with
  | error e =>
    simp only [ingested, githubIngestRest, Process.githubIngestRest, hrepo]
    exact EndsIn.bind_error (EndsIn.throw _ h)
  | ok repo =>
    cases hitems : source.tryFetch client repo with
    | error e =>
      simp only [ingested, githubIngestRest, Process.githubIngestRest, hrepo, hitems]
      exact EndsIn.bind_error (EndsIn.throw _ h)
    | ok items =>
      simp only [ingested, githubIngestRest, Process.githubIngestRest, hrepo, hitems]
      exact EndsIn.bind (h.endsIn_ingestItems items) fun _ h₁ => EndsIn.pure _ h₁

end Commands

/-! ### Commands that build a projector -/

section Projecting

variable {json : FileJson τ} {sql : OrderBy} {cacheKey : MessageId → String → String}
  {ports : StrategyContext} {digest : List UInt8 → String} {contents : FileContents json.caches}
  {db : Database τ}

theorem Holds.gives_inspect (h : Holds json contents db) (invocation : Invocation)
    (id : MessageId) :
    Gives json (Process.inspect json sql cacheKey ports invocation.provider
        invocation.calls.answers id invocation.router) db
      (invocation.answerInspect cacheKey ports contents id) := by
  have hmessage : EndsIn (Process.query .messages fun db =>
      SqliteMessageStore.get json.messages db id) db (.ok (contents.log.get id))
      (Holds json contents) :=
    h.endsIn_query (SqliteMessageStore.get_of_abstracts h.log id)
  unfold Invocation.answerInspect
  refine EndsIn.bind hmessage fun _ h₁ => ?_
  cases hget : contents.log.get id with
  | none => exact EndsIn.pure none h₁
  | some message =>
    -- the trace is read after the projection
    have hshow : ∀ projection {contents' : FileContents json.caches} {db' : Database τ},
        Holds json contents' db' → Gives json ((do
            let trace ← Process.query .routingTraces fun db => SqliteRoutingTraceStore.get db id
            return some ⟨message, projection, trace, (invocation.router.route projection).1⟩ :
              Process τ (Option InspectContext))) db'
          (invocation.answerTrace contents' id message projection) := by
      intro projection contents' db' h'
      unfold Invocation.answerTrace
      cases htraces : contents'.traces with
      | none =>
        have hread : SqliteRoutingTraceStore.get db' id = none := by
          rw [h'.tables.traces id, htraces, Option.map_none]
        exact EndsIn.bind_error (h'.endsIn_query_none hread)
      | some traces =>
        have hread : SqliteRoutingTraceStore.get db' id = some (traces id) := by
          rw [h'.tables.traces id, htraces, Option.map_some]
        exact EndsIn.bind (h'.endsIn_query hread) fun _ h₂ => EndsIn.pure _ h₂
    refine EndsIn.bind (h₁.endsIn_projectorFor invocation.provider) fun _ h₂ => ?_
    obtain ⟨provider, strategy, router, calls, subcommand⟩ := invocation
    cases provider with
    | model version =>
      exact (h₂.gives_project cacheKey version calls.answers 0 message).andThen
        fun projection _ _ h₃ => hshow projection h₃
    | mock =>
      simp only [Invocation.answerProject]
      cases ports.projector.run message with
      | none => exact EndsIn.bind_error (EndsIn.throw _ h₂)
      | some projection =>
        exact EndsIn.bind (EndsIn.pure projection h₂) fun _ h₃ => hshow projection h₃

/-- The handler of a submission. -/
theorem Holds.gives_strategyRun (h : Holds json contents db) (provider : SelectedProvider)
    (delivered : StrategyRunRequest × ModelCalls) :
    Gives json (Process.strategyRun json sql cacheKey ports digest provider delivered.1
        delivered.2) db
      (answerRun cacheKey ports digest provider contents delivered) := by
  refine (h.gives_buildStrategy delivered.1.strategy).andThen fun strategy _ _ h₁ => ?_
  rw [FileContents.buildStrategy_snd] at h₁ ⊢
  obtain ⟨hlog, -, -⟩ := contents.runStrategy_frame cacheKey ports provider
    delivered.2 delivered.1.strategy strategy
  refine EndsIn.bind (h₁.endsIn_runStrategy provider delivered.2 delivered.1.strategy strategy)
    fun _ h₂ => ?_
  dsimp only
  rw [← hlog]
  generalize contents.runStrategy cacheKey ports provider delivered.2 delivered.1.strategy
    strategy = ran at h₂ ⊢
  cases hderived : ran.2.derived with
  | some cache =>
    exact EndsIn.bind (h₂.endsIn_populateCache hderived _ _) fun _ h₃ => EndsIn.pure _ h₃
  | none =>
    cases hpublishes : Publishes digest ran.2.log ran.1 with
    | true => exact EndsIn.bind_error (h₂.endsIn_populateCache_of_publishes hderived _ hpublishes)
    | false =>
      exact EndsIn.bind (h₂.endsIn_populateCache_of_not_publishes hderived _ hpublishes)
        fun _ h₃ => EndsIn.pure _ h₃

/-- The submissions a worker executes. -/
theorem Holds.endsIn_workAll (provider : SelectedProvider)
    (delivered : List (StrategyRunRequest × ModelCalls)) :
    ∀ {contents : FileContents json.caches} {db : Database τ}, Holds json contents db →
    let worked := serve (fun submission contents =>
      answerRun cacheKey ports digest provider contents submission) delivered contents
    EndsIn (Process.workAll json sql cacheKey ports digest provider delivered) db (.ok worked.1)
      (Holds json worked.2) := by
  induction delivered with
  | nil => exact fun h => EndsIn.pure [] h
  | cons submission delivered ih =>
    intro contents db h
    refine EndsIn.bind (h.gives_strategyRun provider submission).attempt fun _ h₁ => ?_
    exact EndsIn.bind (ih h₁) fun _ h₂ => EndsIn.pure _ h₂

/-- What a process does before it replays, warms up or verifies. -/
theorem Holds.gives_prepare (h : Holds json contents db) (invocation : Invocation) :
    Gives json (invocation.prepare sql ports) db (invocation.answerPrepare ports contents) := by
  refine EndsIn.bind (h.endsIn_projectorFor invocation.provider) fun _ h₁ => ?_
  refine (h₁.gives_buildStrategy invocation.strategy).andThen fun strategy _ _ h₂ => ?_
  refine EndsIn.bind (h₂.endsIn_open .derivedOutputCache) fun _ h₃ => ?_
  exact EndsIn.bind (h₃.endsIn_projectorFor invocation.provider) fun _ h₄ => EndsIn.pure _ h₄

/-- The run of the strategy that was built. -/
theorem Holds.endsIn_run (h : Holds json contents db) (invocation : Invocation)
    (strategy : ReplayStrategy) :
    let ran := invocation.runOn cacheKey ports contents strategy
    EndsIn (invocation.run json sql cacheKey ports strategy) db (.ok ran.1) (Holds json ran.2) :=
  h.endsIn_runStrategy invocation.provider invocation.calls invocation.strategy strategy

theorem Holds.gives_answerReplay (h : Holds json contents db) (invocation : Invocation)
    (strategy : ReplayStrategy) :
    Gives json (do return .replayed (← Process.replay json sql digest
        (invocation.run json sql cacheKey ports strategy) (invocation.version ports)
        invocation.router)) db
      (invocation.answerReplay cacheKey ports digest contents strategy) :=
  gives_replay (h.endsIn_run invocation strategy) (contents.runStrategy_frame _ _ _ _ _ _).1
    (invocation.version ports) invocation.router

theorem Holds.gives_answerWarmup (h : Holds json contents db) (invocation : Invocation)
    (c : ConversationId) (strategy : ReplayStrategy) :
    Gives json (do return .warmed (← Process.warmup json sql digest c
        (invocation.run json sql cacheKey ports strategy) (invocation.version ports)
        invocation.router)) db
      (invocation.answerWarmup cacheKey ports digest contents c strategy) := by
  obtain ⟨hlog, hderived, -⟩ := contents.runStrategy_frame cacheKey ports invocation.provider
    invocation.calls invocation.strategy strategy
  exact h.gives_warmup (fun h' => h'.endsIn_run invocation strategy) hlog hderived c
    (invocation.version ports) invocation.router

theorem Holds.gives_answerVerify (h : Holds json contents db) (invocation : Invocation)
    (c : Option ConversationId) (strategy : ReplayStrategy) :
    Gives json (do return .verified (.of c (← Process.verify json sql digest
        (invocation.run json sql cacheKey ports strategy) (invocation.version ports)))) db
      (invocation.answerVerify cacheKey ports digest contents c strategy) :=
  gives_verify (h.endsIn_run invocation strategy) (contents.runStrategy_frame _ _ _ _ _ _).1
    (invocation.version ports) c

end Projecting

/-! ### Processes -/

section Processes

variable (json : FileJson τ) (sql : OrderBy) (cacheKey : MessageId → String → String)
  (ports : StrategyContext) (digest : List UInt8 → String) (debug : String → String)

/-- **A process answers what its command answers on what the file stands for.** -/
theorem gives_main (invocation : Invocation) {db : Database τ}
    {contents : FileContents json.caches} (hstands : StandsFor json sql db contents) :
    Gives json (invocation.main json sql cacheKey ports digest debug) db
      (invocation.answer cacheKey ports digest debug contents) := by
  refine EndsIn.bind hstands.endsIn_open fun _ h₁ => ?_
  refine EndsIn.bind (h₁.endsIn_open .routingTraces) fun _ h => ?_
  unfold Invocation.answer
  cases invocation.subcommand with
  | ingest input =>
    cases input with
    | error e => exact EndsIn.throw _ h
    | ok message => exact EndsIn.bind (h.endsIn_append message) fun _ h₂ => EndsIn.pure _ h₂
  | github client source spec => exact h.gives_github debug client source spec
  | replay =>
    refine (h.gives_prepare invocation).andThen fun strategy _ _ h₂ => ?_
    exact h₂.gives_answerReplay invocation strategy
  | warmup c =>
    refine (h.gives_prepare invocation).andThen fun strategy _ _ h₂ => ?_
    exact h₂.gives_answerWarmup invocation c strategy
  | verify c =>
    refine EndsIn.bind (h.endsIn_open .messages) fun _ h₂ => ?_
    refine (h₂.gives_prepare invocation).andThen fun strategy _ _ h₃ => ?_
    exact h₃.gives_answerVerify invocation c strategy
  | inspect id =>
    exact (h.gives_inspect invocation id).andThen fun _ _ _ h₂ => EndsIn.pure _ h₂
  | work delivered =>
    refine EndsIn.bind (h.endsIn_open .messages) fun _ h₂ => ?_
    refine EndsIn.bind (h₂.endsIn_projectorFor invocation.provider) fun _ h₃ => ?_
    refine EndsIn.bind (h₃.endsIn_open .derivedOutputCache) fun _ h₄ => ?_
    exact EndsIn.bind (h₄.endsIn_workAll invocation.provider delivered)
      fun _ h₅ => EndsIn.pure _ h₅
  | queue => exact EndsIn.pure _ h

/-- One process is simulated by its command. -/
theorem simulates_answer :
    Simulates (StandsFor json sql)
      (fun invocation => exec (Invocation.main json sql cacheKey ports digest debug invocation))
      (Invocation.answer cacheKey ports digest debug) := by
  intro invocation db contents hstands
  obtain ⟨db', hexec, hholds⟩ :=
    gives_main json sql cacheKey ports digest debug invocation hstands
  show (exec _ db).1 = _ ∧ StandsFor json sql (exec _ db).2 _
  rw [hexec]
  exact ⟨rfl, Or.inr hholds⟩

/-- **Processes on a file answer what the commands answer on its contents.** -/
theorem processes_agree {db : Database τ} {contents : FileContents json.caches}
    (hstands : StandsFor json sql db contents) (invocations : List Invocation) :
    let ran := processes json sql cacheKey ports digest debug invocations db
    let answered := serve (Invocation.answer cacheKey ports digest debug) invocations contents
    ran.1 = answered.1 ∧ StandsFor json sql ran.2 answered.2 :=
  (simulates_answer json sql cacheKey ports digest debug).serve invocations hstands

end Processes

/-- A message of a file that was written before its schema was versioned. -/
def earlier (id c : String) : MessageEnvelope :=
  ⟨⟨id⟩, .manual, ⟨⟨"u-1"⟩, "Dev"⟩, ⟨⟨c⟩, none⟩, "rust?"⟩

/-- A file with every table and no version: its rows are not stored in order. -/
def unversionedFile : Database DecodedPayload where
  userVersion := 0
  messages := some {
    seqUnique := false
    rows := [⟨⟨"m-2"⟩, 7, .message (earlier "m-2" "c-2")⟩,
      ⟨⟨"m-1"⟩, 3, .message (earlier "m-1" "c-1")⟩]
    id_nodup := by decide
    seq_nodup := by decide }
  projectionCache := some .empty
  derivedOutputCache := some .empty
  routingTraces := some []

/-- A model that gives one answer to every call, and brokers that redeliver nothing. -/
def ModelCalls.once (answer : Option ProjectionDto) : ModelCalls where
  answers _ := answer
  schedule log := .payloads log.all
  delivers log := Schedule.delivers_payloads log.all

theorem processes_agree_unversioned :
    let log : MessageLog := ⟨[earlier "m-1" "c-1", earlier "m-2" "c-2"], by decide⟩
    let json := FileJson.decoded id
    let contents : FileContents json.caches :=
      ⟨log, some ⟨.empty⟩, some ⟨.empty⟩, some .empty⟩
    let invoke (subcommand : Subcommand) : Invocation :=
      ⟨.model ⟨"ollama:a:v2:0123456789abcdef"⟩, "projection", .new,
        .once (some ⟨.question, ["rust"], [], 1⟩), subcommand⟩
    let invocations := [invoke (.warmup ⟨"c-1"⟩),
      invoke (.ingest (.ok (earlier "m-3" "c-1"))), invoke .replay]
    (processes json .insertionSort (hashedKey plainDigest) mockPorts plainDigest id invocations
        unversionedFile).1 =
      (serve (Invocation.answer (hashedKey plainDigest) mockPorts plainDigest id) invocations
        contents).1 := by
  intro log json contents invoke invocations
  have hstands : StandsFor json .insertionSort unversionedFile contents :=
    Or.inl ⟨rfl, rfl, ⟨rfl, rfl, fun _ => rfl⟩⟩
  exact (processes_agree json .insertionSort (hashedKey plainDigest) mockPorts plainDigest id
    hstands invocations).1

end Mirrorlane
