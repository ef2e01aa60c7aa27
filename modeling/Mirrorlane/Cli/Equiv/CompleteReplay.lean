import Mirrorlane.Cli.Equiv.Changes
import Mirrorlane.Cli.Equiv.Independence
import Mirrorlane.Cli.Equiv.Staleness

/-!
# A complete replay is final

A model may answer differently on every call, but its first answer for a message is frozen.  Once a
`replay` has projected every message, the model is not asked again under that version: whatever it
would answer and however its brokers redeliver, each later `replay` prints what the complete one
printed, and each `warmup` serves its part of that as it is read back from its JSON text.  So what
`verify` finds is only what the text does not keep.

## Main results

* `complete_replay_is_final`
-/

namespace Mirrorlane

variable {τ : Type} {json : CacheJson τ} {cacheKey : MessageId → String → String}
  {ports : StrategyContext} {digest : List UInt8 → String} {v : StepVersion}
  {projector : Projector} {log : MessageLog} {contents contents' : FileContents json}

/-! ### Settled contents -/

/-- The cache holds the derivation of every conversation of the log, as it is read back. -/
def SettledCache (ports : StrategyContext) (digest : List UInt8 → String) (v : StepVersion)
    (projector : Projector) (log : MessageLog) (cache : DerivedRows json) : Prop :=
  ∀ c ∈ log.conversationIds,
    DerivedOutputCache.get cache (derivationVersion StrategyRegistry.default v) c
        (contentHashOf digest (log.messagesFor c)) =
      some ((derivationOf { ports with projector } log c).mapNumbers json.number)

/-- The projection of every message of the log is frozen, and everything derived from them is
published. -/
structure Settled (cacheKey : MessageId → String → String) (ports : StrategyContext)
    (digest : List UInt8 → String) (v : StepVersion) (projector : Projector) (log : MessageLog)
    (contents : FileContents json) : Prop where
  log_eq : contents.log = log
  total : ∀ m ∈ log.all, (projector.run m).isSome
  projections : ∃ rows, contents.projections = some rows ∧
    ∀ m ∈ log.all, Cache.get rows (projectionRequest cacheKey v m) = projector.run m
  derived : ∃ cache, contents.derived = some cache ∧ SettledCache ports digest v projector log cache

/-- What a strategy of the registry stores then. -/
def frozenStores (ports : StrategyContext) (projector : Projector) (log : MessageLog)
    (id : String) : ReplayStores :=
  if id = StrategyRegistry.default then runPhases { ports with projector } log
  else EmptyStrategy log

/-- Projecting messages that have rows asks no model. -/
theorem projectAll_of_rows {rows : ProjectionRows json} (answers : Answers)
    (messages : List MessageEnvelope) : ∀ n,
    (∀ m ∈ messages, Cache.get rows (projectionRequest cacheKey v m) = projector.run m ∧
      (projector.run m).isSome) →
    projectAll cacheKey v answers n messages rows =
      (rows, messages.map fun m => (m, projector.run m)) := by
  induction messages with
  | nil => exact fun n _ => rfl
  | cons m messages ih =>
    intro n h
    obtain ⟨hrow, hsome⟩ := h m List.mem_cons_self
    obtain ⟨p, hp⟩ := Option.isSome_iff_exists.mp hsome
    rw [hp] at hrow
    have hrest := ih (n + 1) fun m' hm' => h m' (List.mem_cons_of_mem _ hm')
    simp only [projectAll, Cached.run_of_hit hrow, hrest, List.map_cons, hp]

namespace Settled

/-- **A run reads what is frozen**, whatever the model would answer. -/
theorem runStrategy (h : Settled cacheKey ports digest v projector log contents)
    (calls : ModelCalls) {id : String} {strategy : ReplayStrategy}
    (hbuild : StrategyRegistry.withBuiltins.build id ports = .ok strategy) :
    contents.runStrategy cacheKey ports (.model v) calls id strategy =
      (frozenStores ports projector log id, contents) := by
  obtain ⟨rfl, htotal, ⟨rows, hrows, hget⟩, -⟩ := h
  rw [StrategyRegistry.build_withBuiltins] at hbuild
  unfold FileContents.runStrategy frozenStores
  by_cases hid : id = StrategyRegistry.default
  · have hdelivers := calls.delivers contents.log
    set schedule := calls.schedule contents.log
    have hproject : projectAll cacheKey v calls.answers 0 schedule.messages rows =
        (rows, schedule.messages.map fun m => (m, projector.run m)) :=
      projectAll_of_rows calls.answers schedule.messages 0 fun m hm =>
        ⟨hget m (hdelivers.mem_messages.mp hm), htotal m (hdelivers.mem_messages.mp hm)⟩
    have hnodup : ((contents.log.all.filterMap projector.run).map Projection.messageId).Nodup := by
      let ports' : StrategyContext := { ports with projector }
      show ((projectionsOf ports' contents.log.all).map Projection.messageId).Nodup
      exact nodup_messageId_projectionsOf contents.log
    have hprojections : (schedule.messages.map fun m => (m, projector.run m)).foldl storeProjected
        .empty = UpsertStore.empty.upsertAll (contents.log.all.filterMap projector.run) := by
      rw [CachedRun.foldl_storeProjected, List.filterMap_map]
      refine UpsertStore.upsertAll_eq_of_delivers hnodup (fun p => ?_) _
      show p ∈ schedule.messages.filterMap projector.run ↔ _
      simp only [List.mem_filterMap, hdelivers.mem_messages]
    let run : CachedRun := ⟨v, false, contents.log, calls.answers, schedule, hdelivers⟩
    have hexec : run.exec cacheKey ports rows =
        (rows, runPhases { ports with projector } contents.log) := by
      unfold CachedRun.exec
      rw [show run.project cacheKey rows = _ from hproject]
      dsimp only
      rw [hprojections, runStages_eq ports projector hdelivers]
    simp only [hid, if_true, hrows]
    rw [hexec, ← hrows]
  · rw [if_neg hid] at hbuild
    split_ifs at hbuild
    cases hbuild
    simp only [hid, if_false]

theorem projectorFor (h : Settled cacheKey ports digest v projector log contents) :
    Settled cacheKey ports digest v projector log (contents.projectorFor (.model v)) := by
  obtain ⟨hlog, htotal, ⟨rows, hrows, hget⟩, hderived⟩ := h
  refine ⟨hlog, htotal, ⟨rows.pruneSuperseded v, ?_, fun m hm => ?_⟩, hderived⟩
  · show contents.projections.map _ = _
    rw [hrows, Option.map_some]
  · rw [get_pruneSuperseded, if_pos (projectionRequest_version cacheKey v m), hget m hm]

/-- A message of the log is not projected again. -/
theorem project (h : Settled cacheKey ports digest v projector log contents) (answers : Answers)
    (n : ℕ) {m : MessageEnvelope} (hm : m ∈ log.all) :
    (contents.project cacheKey v answers n m).2 = contents := by
  obtain ⟨-, htotal, ⟨rows, hrows, hget⟩, -⟩ := h
  obtain ⟨p, hp⟩ := Option.isSome_iff_exists.mp (htotal m hm)
  have hrow := (hget m hm).trans hp
  simp only [FileContents.project, hrows, Cached.run_of_hit hrow]
  rw [← hrows]

end Settled

/-- A run of the default strategy publishes everything. -/
theorem settledCache_populate (cache : DerivedRows json) :
    SettledCache ports digest v projector log
      (populateCache digest log (runPhases { ports with projector } log) cache
        (derivationVersion StrategyRegistry.default v)).1 := by
  intro c hc
  have hentry : (⟨c, contentHashOf digest (log.messagesFor c),
      derivationOf { ports with projector } log c⟩ : CacheEntry) ∈
        cacheEntries digest log (runPhases { ports with projector } log) := by
    rw [cacheEntries_runPhases]
    exact List.mem_map_of_mem hc
  exact get_putEntries_of_mem cache (nodup_cacheEntries digest log _) hentry

/-- **Publishing again** leaves what is published. -/
theorem SettledCache.populate {cache : DerivedRows json}
    (h : SettledCache ports digest v projector log cache)
    (id : String) :
    SettledCache ports digest v projector log
      (populateCache digest log (frozenStores ports projector log id) cache
        (derivationVersion id v)).1 := by
  unfold frozenStores
  split_ifs with hid
  · rw [hid]
    exact settledCache_populate cache
  · have hentries : cacheEntries digest log (EmptyStrategy log) = [] :=
      List.filterMap_eq_nil_iff.mpr fun _ _ => rfl
    rw [populateCache, hentries]
    exact h

/-- **Changes keep the contents settled.** -/
theorem Settled.change (h : Settled cacheKey ports digest v projector log contents)
    (hchange : Change cacheKey ports digest (.model v) contents contents') :
    Settled cacheKey ports digest v projector log contents' := by
  cases hchange with
  | prune => exact h.projectorFor
  | project hprovider answers n hm =>
    cases hprovider
    rw [h.log_eq] at hm
    rwa [h.project answers n hm]
  | run calls hbuild => rwa [h.runStrategy calls hbuild]
  | produce calls hbuild hcache =>
    rw [h.runStrategy calls hbuild]
    obtain ⟨rfl, htotal, hprojections, cache, hderived, hcached⟩ := h
    obtain rfl := Option.some.inj (hcache.symm.trans hderived)
    exact ⟨rfl, htotal, hprojections, _, rfl, hcached.populate _⟩

theorem Settled.changes (h : Settled cacheKey ports digest v projector log contents)
    (hchanges : Changes cacheKey ports digest (.model v) contents contents') :
    Settled cacheKey ports digest v projector log contents' := by
  induction hchanges with
  | refl => exact h
  | tail _ hchange ih => exact ih.change hchange

/-- The process adds messages to the log. -/
def Invocation.Appends (invocation : Invocation) : Prop :=
  match invocation.subcommand with
  | .ingest _ | .github .. => True
  | _ => False

section Answers

variable {debug : String → String} {invocation : Invocation}

theorem logs_of_not_appends (h : ¬invocation.Appends) : invocation.logs debug log = log := by
  unfold Invocation.Appends at h
  unfold Invocation.logs
  split <;> simp_all

/-- A process that appends nothing keeps the contents settled. -/
theorem Settled.answer (h : Settled cacheKey ports digest v projector log contents)
    (hprovider : invocation.provider = .model v) (happends : ¬invocation.Appends) :
    Settled cacheKey ports digest v projector log
      (invocation.answer cacheKey ports digest debug contents).2 := by
  have hchanges : Changes cacheKey ports digest _ _
      (invocation.answer cacheKey ports digest debug contents).2 :=
    answer_changes invocation contents
  rw [logs_of_not_appends happends, hprovider] at hchanges
  exact h.changes hchanges

theorem Settled.serve (invocations : List Invocation) :
    ∀ {contents : FileContents json}, Settled cacheKey ports digest v projector log contents →
      (∀ invocation ∈ invocations, invocation.provider = .model v ∧ ¬invocation.Appends) →
      Settled cacheKey ports digest v projector log
        (serve (Invocation.answer cacheKey ports digest debug) invocations contents).2 := by
  induction invocations with
  | nil => exact fun h _ => h
  | cons invocation invocations ih =>
    intro contents h hall
    obtain ⟨hprovider, happends⟩ := hall invocation List.mem_cons_self
    exact ih (h.answer hprovider happends) fun i hi => hall i (List.mem_cons_of_mem _ hi)

/-! ### What is printed -/

variable {output : ReplayOutput}

/-- What a replay prints once the contents are settled. -/
def settledOutput (ports : StrategyContext) (v : StepVersion) (projector : Projector)
    (log : MessageLog) (router : RuleRouter) : ReplayOutput where
  contexts := log.conversationIds.map fun c =>
    sessionContextFrom (derivationOf { ports with projector } log c)
      (derivationVersion StrategyRegistry.default v).val router
  unprojected := []

/-- A replay is complete when its projector fails on no message. -/
theorem unprojected_runPhases_eq_nil_iff :
    unprojected (runPhases ports log) (log.all.map MessageEnvelope.id) = [] ↔
      ∀ m ∈ log.all, (ports.projector.run m).isSome := by
  unfold unprojected
  rw [List.filter_eq_nil_iff, List.forall_mem_map]
  refine forall₂_congr fun m hm => ?_
  rw [runPhases_eq, derivedStores_projections hm, Bool.not_eq_true, Option.isNone_eq_false_iff]

theorem replay_settled (htotal : ∀ m ∈ log.all, (projector.run m).isSome)
    (cache : DerivedRows json) (router : RuleRouter) :
    (replay digest log (fun _ => runPhases { ports with projector } log) cache
      (derivationVersion StrategyRegistry.default v) router).2 =
      settledOutput ports v projector log router := by
  let ports' : StrategyContext := { ports with projector }
  have hcontexts : (replay digest log (ProjectionStrategy ports') cache _ router).2.contexts = _ :=
    contexts_replay ports' log cache (derivationVersion StrategyRegistry.default v) router
  have hunprojected : unprojected (runPhases ports' log) _ = [] :=
    unprojected_runPhases_eq_nil_iff.mpr htotal
  unfold settledOutput
  rw [← hcontexts, ← hunprojected]
  rfl

/-- A process over the default strategy and a real provider, with what it projected. -/
theorem answerPrepare_andThen_default (router : RuleRouter) (calls : ModelCalls)
    (subcommand : Subcommand) (contents : FileContents json)
    (f : ReplayStrategy → FileContents json → Answered json ProcessOutput) :
    (Invocation.answerPrepare ports
        ⟨.model v, StrategyRegistry.default, router, calls, subcommand⟩ contents).andThen f =
      f (ProjectionStrategy ports)
        ((contents.projectorFor (.model v)).projectorFor (.model v)) := by
  unfold Invocation.answerPrepare FileContents.buildStrategy
  rw [StrategyRegistry.build_default]
  rfl

namespace Settled

variable (h : Settled cacheKey ports digest v projector log contents) (router : RuleRouter)
  (calls : ModelCalls) {subcommand : Subcommand}

include h

theorem runOn :
    Invocation.runOn cacheKey ports
        ⟨.model v, StrategyRegistry.default, router, calls, subcommand⟩ contents
        (ProjectionStrategy ports) =
      (runPhases { ports with projector } log, contents) := by
  have hrun := h.runStrategy calls (StrategyRegistry.build_default ports)
  rwa [frozenStores, if_pos rfl] at hrun

/-- **A later replay** prints what is settled. -/
theorem answer_replay :
    (Invocation.answer cacheKey ports digest debug
        ⟨.model v, StrategyRegistry.default, router, calls, .replay⟩ contents).1 =
      .ok (.replayed (settledOutput ports v projector log router)) := by
  unfold Invocation.answer
  dsimp only
  rw [answerPrepare_andThen_default]
  have hprepared := h.projectorFor.projectorFor
  obtain ⟨cache, hcache, -⟩ := hprepared.derived
  unfold Invocation.answerReplay FileContents.onCache
  rw [hprepared.runOn]
  simp only [hcache, hprepared.log_eq]
  exact congrArg _ (congrArg _ (replay_settled h.total cache router))

/-- **A later warm-up** serves its part of it, as it is read back. -/
theorem answer_warmup {c : ConversationId} (hc : c ∈ log.conversationIds) :
    (Invocation.answer cacheKey ports digest debug
        ⟨.model v, StrategyRegistry.default, router, calls, .warmup c⟩ contents).1 =
      .ok (.warmed ⟨some (sessionContextFrom
        ((derivationOf { ports with projector } log c).mapNumbers json.number)
        (derivationVersion StrategyRegistry.default v).val router), []⟩) := by
  unfold Invocation.answer
  dsimp only
  rw [answerPrepare_andThen_default]
  have hprepared := h.projectorFor.projectorFor
  obtain ⟨cache, hcache, hcached⟩ := hprepared.derived
  unfold Invocation.answerWarmup FileContents.onCache
  rw [hprepared.runOn]
  have hunprojected : ((messagesIn log c).filter fun id =>
      id ∉ (projectionsOf { ports with projector } (log.messagesFor c)).map
        Projection.messageId) = [] := by
    rw [filter_unprojected, List.map_eq_nil_iff, List.filter_eq_nil_iff]
    intro m hm
    rw [Bool.not_eq_true, Option.isNone_eq_false_iff]
    exact h.total m (MessageLog.mem_messagesFor.mp hm).1
  simp only [hcache, hprepared.log_eq, ite_self, warmup, Invocation.version,
    SelectedProvider.version, hcached c hc, ConversationDerivation.map_messageId_mapNumbers]
  rw [← hunprojected]
  rfl

/-- **A later verification** finds what is not read back as it was written. -/
theorem answer_verify (c : Option ConversationId) :
    (Invocation.answer cacheKey ports digest debug
        ⟨.model v, StrategyRegistry.default, router, calls, .verify c⟩ contents).1 =
      .ok (.verified (.of c (log.conversationIds.map fun c =>
        let derivation := derivationOf { ports with projector } log c
        ⟨c, if derivation.mapNumbers json.number = derivation then .verified
          else .diverged⟩))) := by
  unfold Invocation.answer
  dsimp only
  rw [answerPrepare_andThen_default]
  have hprepared := h.projectorFor.projectorFor
  obtain ⟨cache, hcache, hcached⟩ := hprepared.derived
  unfold Invocation.answerVerify FileContents.onCache
  rw [hprepared.runOn]
  have hverify : verify digest log (fun _ => runPhases { ports with projector } log) cache
      (derivationVersion StrategyRegistry.default v) =
        log.conversationIds.map fun c =>
          let derivation := derivationOf { ports with projector } log c
          ⟨c, if derivation.mapNumbers json.number = derivation then .verified
            else .diverged⟩ := by
    refine (Session.verify_projectionStrategy digest { ports with projector } log cache _).trans ?_
    refine List.map_congr_left fun c hc => ?_
    rw [show DerivedOutputCache.get cache _ c (Session.key digest log c) = _ from hcached c hc,
      verifyOutcome]
  simp only [hcache, hprepared.log_eq]
  exact congrArg (fun records => Except.ok (ProcessOutput.verified (.of c records))) hverify

end Settled

/-- **A complete replay settles the contents.** -/
theorem settled_of_complete {M : MessageEnvelope → Prop} (hapart : KeyedApart cacheKey M)
    (hM : ∀ m ∈ contents.log.all, M m) (h : HasCaches cacheKey M contents) {router : RuleRouter}
    {calls : ModelCalls} (hreads : ReadBack json calls.answers)
    (hanswer : (Invocation.answer cacheKey ports digest debug
      ⟨.model v, StrategyRegistry.default, router, calls, .replay⟩ contents).1 =
        .ok (.replayed output)) (hcomplete : output.unprojected = []) :
    ∃ projector, Settled cacheKey ports digest v projector contents.log
        (Invocation.answer cacheKey ports digest debug
          ⟨.model v, StrategyRegistry.default, router, calls, .replay⟩ contents).2 ∧
      output = settledOutput ports v projector contents.log router := by
  have hprepared : HasCaches cacheKey M
      ((contents.projectorFor (.model v)).projectorFor (.model v)) := h.projectorFor.projectorFor
  revert hanswer
  unfold Invocation.answer
  dsimp only
  rw [answerPrepare_andThen_default]
  have hlog : ((contents.projectorFor (.model v)).projectorFor (.model v)).log = contents.log := rfl
  generalize (contents.projectorFor (.model v)).projectorFor (.model v) = prepared at *
  obtain ⟨⟨rows, hrows, hkeyed⟩, cache, hcache⟩ := hprepared
  rw [← hlog] at hM ⊢
  let run : CachedRun := ⟨v, false, prepared.log, calls.answers, calls.schedule prepared.log,
    calls.delivers prepared.log⟩
  let rows' := (run.project cacheKey rows).1
  let projector := frozenProjector cacheKey v rows'
  have hran : Invocation.runOn cacheKey ports
      ⟨.model v, StrategyRegistry.default, router, calls, .replay⟩ prepared
      (ProjectionStrategy ports) =
        (runPhases { ports with projector } prepared.log,
          { prepared with projections := some rows' }) := by
    have hexec : (run.exec cacheKey ports rows).2 = _ := run.exec_eq hreads hapart hM hkeyed
    unfold Invocation.runOn FileContents.runStrategy
    simp only [if_true, hrows]
    exact Prod.ext hexec rfl
  unfold Invocation.answerReplay FileContents.onCache
  rw [hran]
  simp only [hcache]
  intro hanswer
  have houtput : (replay digest prepared.log (fun _ => runPhases { ports with projector }
      prepared.log) cache (derivationVersion StrategyRegistry.default v) router).2 = output :=
    ProcessOutput.replayed.inj (Except.ok.inj hanswer)
  have htotal : ∀ m ∈ prepared.log.all, (projector.run m).isSome := by
    rw [← houtput] at hcomplete
    exact unprojected_runPhases_eq_nil_iff.mp hcomplete
  refine ⟨projector, ⟨rfl, htotal, ⟨rows', rfl, fun m hm => ?_⟩, _, rfl,
    settledCache_populate cache⟩, houtput.symm.trans (replay_settled htotal cache router)⟩
  obtain ⟨p, hp⟩ := Option.isSome_iff_exists.mp (htotal m hm)
  rw [hp]
  exact (Option.filter_eq_some_iff.mp hp).1

end Answers

/-! ### Processes -/

section Processes

variable (json : FileJson τ) (sql : OrderBy) (cacheKey : MessageId → String → String)
  (ports : StrategyContext) (digest : List UInt8 → String) (debug : String → String)

theorem serve_answer_log (invocations : List Invocation) :
    ∀ contents : FileContents json.caches,
      (serve (Invocation.answer cacheKey ports digest debug) invocations contents).2.log =
        invocations.foldl (Invocation.logs debug) contents.log := by
  induction invocations with
  | nil => exact fun contents => rfl
  | cons invocation invocations ih =>
    intro contents
    rw [serve_cons, ih, answer_log, List.foldl_cons]

/-- The processes with a real provider at one version that append nothing. -/
def Invocation.Reads (v : StepVersion) (invocation : Invocation) : Prop :=
  invocation.provider = .model v ∧ ¬invocation.Appends

/-- **A complete replay is final.** On a file with both caches, after any processes, let a `replay`
with a real provider leave no message unprojected, and let the confidences that its model answered
be read back as they are.  After any further processes with this provider that append nothing,
whatever the model would answer to them and their brokers redeliver: a `replay` prints the same, a
`warmup` of a conversation serves what was derived of it as it is read back from its text, and a
`verify` reports a conversation as verified exactly if what was derived of it is read back as it was
written. -/
theorem complete_replay_is_final {db : Database τ} {contents : FileContents json.caches}
    (hstands : StandsFor json sql db contents) {history later : List Invocation}
    (hapart : KeyedApart cacheKey (EverLogged debug history contents.log))
    (hcaches : HasCaches cacheKey (EverLogged debug history contents.log) contents)
    {v : StepVersion} {router : RuleRouter} {calls : ModelCalls} {output : ReplayOutput}
    (hreads : ReadBack json.caches calls.answers)
    (hlater : ∀ invocation ∈ later, invocation.Reads v) :
    let invoke (calls : ModelCalls) (subcommand : Subcommand) : Invocation :=
      ⟨.model v, StrategyRegistry.default, router, calls, subcommand⟩
    let context (derivation : ConversationDerivation) :=
      sessionContextFrom derivation (derivationVersion StrategyRegistry.default v).val router
    let answer (invocations : List Invocation) (last : Invocation) :=
      (exec (last.main json sql cacheKey ports digest debug)
        (processes json sql cacheKey ports digest debug invocations db).2).1
    let done := history ++ invoke calls .replay :: later
    answer history (invoke calls .replay) = .ok (.replayed output) → output.unprojected = [] →
    ∃ derived : List ConversationDerivation, output.contexts = derived.map context ∧
      ∀ calls', answer done (invoke calls' .replay) = .ok (.replayed output) ∧
        (∀ derivation ∈ derived,
          answer done (invoke calls' (.warmup derivation.conversation)) =
            .ok (.warmed ⟨some (context (derivation.mapNumbers json.caches.number)), []⟩)) ∧
        ∀ c, answer done (invoke calls' (.verify c)) = .ok (.verified (.of c
          (derived.map fun derivation => ⟨derivation.conversation,
            if derivation.mapNumbers json.caches.number = derivation then .verified
            else .diverged⟩))) := by
  intro invoke context answer done hfirst hcomplete
  have hanswer : ∀ invocations last, answer invocations last =
      (last.answer cacheKey ports digest debug
        (serve (Invocation.answer cacheKey ports digest debug) invocations contents).2).1 := by
    intro invocations last
    have hfile := (processes_agree json sql cacheKey ports digest debug hstands invocations).2
    obtain ⟨db', hexec, -⟩ := gives_main json sql cacheKey ports digest debug last hfile
    show (exec _ _).1 = _
    rw [hexec]
  set before := (serve (Invocation.answer cacheKey ports digest debug) history contents).2
    with hbefore
  have hlog : ∀ m ∈ before.log.all, EverLogged debug history contents.log m := by
    intro m hm
    rw [hbefore, serve_answer_log] at hm
    exact ⟨history, [], (List.append_nil history).symm, hm⟩
  have hcaches' : HasCaches cacheKey (EverLogged debug history contents.log) before :=
    hcaches.serve hapart history fun m hm => hm
  rw [hanswer] at hfirst
  obtain ⟨projector, hsettled, rfl⟩ :=
    settled_of_complete hapart hlog hcaches' hreads hfirst hcomplete
  have hafter : Settled cacheKey ports digest v projector before.log
      (serve (Invocation.answer cacheKey ports digest debug) later _).2 :=
    hsettled.serve later hlater
  have hdone : (serve (Invocation.answer cacheKey ports digest debug) done contents).2 =
      (serve (Invocation.answer cacheKey ports digest debug) later
        ((invoke calls .replay).answer cacheKey ports digest debug before).2).2 := by
    rw [serve_append_snd, serve_cons]
  rw [← hdone] at hafter
  refine ⟨before.log.conversationIds.map (derivationOf { ports with projector } before.log), ?_,
    fun calls' => ⟨?_, fun derivation hderivation => ?_, fun c => ?_⟩⟩
  · rw [List.map_map]
    rfl
  · rw [hanswer]
    exact hafter.answer_replay router calls'
  · obtain ⟨c, hc, rfl⟩ := List.mem_map.mp hderivation
    rw [hanswer]
    exact hafter.answer_warmup router calls' hc
  · rw [hanswer, List.map_map]
    exact hafter.answer_verify router calls' c

end Processes

/-- The output of a replay that ended. -/
def replayed : Except ProcessFailure ProcessOutput → Option ReplayOutput
  | .ok (.replayed output) => some output
  | _ => none

theorem eq_of_replayed {ended : Except ProcessFailure ProcessOutput} {output : ReplayOutput}
    (h : replayed ended = some output) : ended = .ok (.replayed output) := by
  unfold replayed at h
  split at h
  · rw [Option.some.inj h]
  · cases h

/-- The model answers every message once and then no more: the second replay prints the two contexts
of the first. -/
theorem complete_replay_is_final_asked_once :
    let json := FileJson.decoded lastBitOff
    let invoke (calls : ModelCalls) (subcommand : Subcommand) : Invocation :=
      ⟨.model ⟨"ollama:a:v2:0123456789abcdef"⟩, StrategyRegistry.default, .new, calls, subcommand⟩
    let answer (invocations : List Invocation) (last : Invocation) :=
      (exec (last.main json .insertionSort (hashedKey plainDigest) mockPorts plainDigest id)
        (processes json .insertionSort (hashedKey plainDigest) mockPorts plainDigest id
          invocations unversionedFile).2).1
    ∃ output, answer [invoke (.once (some ⟨.question, ["rust"], [], 1⟩)) .replay]
      (invoke (.once none) .replay) = .ok (.replayed output) := by
  intro json invoke answer
  let log : MessageLog := ⟨[earlier "m-1" "c-1", earlier "m-2" "c-2"], by decide⟩
  let contents : FileContents json.caches :=
    ⟨log, some ⟨.empty⟩, some ⟨.empty⟩, some .empty⟩
  have hstands : StandsFor json .insertionSort unversionedFile contents :=
    Or.inl ⟨rfl, rfl, ⟨rfl, rfl, fun _ => rfl⟩⟩
  have hlogged : ∀ m, EverLogged id [] log m → m ∈ log.all := by
    rintro m ⟨pre, post, hsplit, hm⟩
    rw [List.nil_eq_append_iff] at hsplit
    rwa [hsplit.1] at hm
  have hapart : KeyedApart (hashedKey plainDigest) (EverLogged id [] log) := by
    have hkeys : ∀ m ∈ log.all, ∀ m' ∈ log.all, hashedKey plainDigest m.id m.body =
        hashedKey plainDigest m'.id m'.body → m.id = m'.id := by decide +kernel
    exact fun m m' hm hm' => hkeys m (hlogged m hm) m' (hlogged m' hm')
  have hone : (Confidence.new 1).mapNumber lastBitOff = .new 1 := by decide +kernel
  have hreads : ReadBack json.caches
      (ModelCalls.once (some ⟨.question, ["rust"], [], 1⟩)).answers := by
    intro k dto hdto
    obtain rfl := Option.some.inj hdto
    exact hone
  have hprints : (replayed (answer []
      (invoke (.once (some ⟨.question, ["rust"], [], 1⟩)) .replay))).map
        ReplayOutput.unprojected = some [] := by decide +kernel
  obtain ⟨output, hfirst, hcomplete⟩ := Option.map_eq_some_iff.mp hprints
  have hcaches : HasCaches (hashedKey plainDigest) (EverLogged id [] log) contents :=
    ⟨⟨_, rfl, wellKeyed_empty⟩, _, rfl⟩
  have hlater : ∀ invocation ∈ ([] : List Invocation),
      invocation.Reads ⟨"ollama:a:v2:0123456789abcdef"⟩ := by
    intro invocation hmem
    exact absurd hmem List.not_mem_nil
  obtain ⟨derived, -, hfinal⟩ := complete_replay_is_final json .insertionSort
    (hashedKey plainDigest) mockPorts plainDigest id hstands hapart hcaches hreads hlater
    (eq_of_replayed hfirst) hcomplete
  exact ⟨output, (hfinal (.once none)).1⟩

end Mirrorlane
