import Mirrorlane.Cli.Equiv.Process

/-!
# Processes on a file of their own

The first process on a new file stamps it with the version of the message log, so no later open
creates a table: the file never has any but the log's.  What is ingested is kept, and every process
that reaches another table panics there.

## Main results

* `processes_on_new_file`
-/

namespace Mirrorlane

/-- The contents of a file that has no table but the log's. -/
def FileContents.onlyLog {τ : Type} (json : CacheJson τ) (log : MessageLog) : FileContents json :=
  ⟨log, none, none, none⟩

/-- A process reaches a table that is not the log's: a `replay` or `verify` of the default strategy
has something to write or to compare, a `warmup` looks up its conversation, an `inspect` looks up
the projection of a message or its trace. -/
def Invocation.NeedsTable (ports : StrategyContext) (log : MessageLog) (invocation : Invocation) :
    Prop :=
  match invocation.subcommand with
  | .replay | .verify _ => invocation.strategy = StrategyRegistry.default ∧ log.all ≠ []
  | .warmup _ => invocation.strategy = StrategyRegistry.default ∨ invocation.strategy = "empty"
  | .inspect id => ∃ message, log.get id = some message ∧
      (invocation.provider = .mock → (ports.projector.run message).isSome)
  | _ => False

/-- The output shows something that was derived from the log. -/
def ProcessOutput.ShowsDerived : ProcessOutput → Prop
  | .replayed output => output.contexts ≠ []
  | .warmed _ => True
  | .verified report => report.records ≠ []
  | .inspected context => context.isSome
  | _ => False

/-- How a submission ends without a derived-output table. -/
def StrategyRunRequest.endsWithoutTable (log : MessageLog) (request : StrategyRunRequest) :
    Except ProcessFailure Unit :=
  if request.strategy = StrategyRegistry.default then
    if log.all = [] then .ok () else .error (.statement .derivedOutputCache)
  else if request.strategy = "empty" then .ok ()
  else .error (.unknownStrategy ⟨request.strategy⟩)

section NewFile

variable {τ : Type} {json : CacheJson τ} {cacheKey : MessageId → String → String}
  {ports : StrategyContext} {digest : List UInt8 → String} {debug : String → String}
  {log : MessageLog}

/-! ### What has something to publish -/

/-- A run over a log publishes something unless the log is empty, even when every projection
fails. -/
theorem publishes_runPhases :
    Publishes digest log (runPhases ports log) = true ↔ log.all ≠ [] := by
  have hids : log.conversationIds = [] ↔ log.all = [] := by
    unfold MessageLog.conversationIds
    rw [List.eq_nil_iff_forall_not_mem]
    simp only [mem_firstSeen]
    rw [← List.eq_nil_iff_forall_not_mem, List.map_eq_nil_iff]
  unfold Publishes
  rw [cacheEntries_runPhases, List.isEmpty_map, Bool.not_eq_true', List.isEmpty_eq_false_iff,
    Ne, hids]

theorem publishes_empty : Publishes digest log (EmptyStrategy log) = false := by
  have hentries : cacheEntries digest log (EmptyStrategy log) = [] :=
    List.filterMap_eq_nil_iff.mpr fun _ _ => rfl
  rw [Publishes, hentries]
  rfl

/-- What a strategy of the registry publishes without a projection cache. -/
theorem publishes_runStrategy (json : CacheJson τ) (cacheKey : MessageId → String → String)
    (digest : List UInt8 → String) (log : MessageLog) {id : String} {strategy : ReplayStrategy}
    (hbuild : StrategyRegistry.withBuiltins.build id ports = .ok strategy)
    (provider : SelectedProvider) (calls : ModelCalls) :
    let ran := (FileContents.onlyLog json log).runStrategy cacheKey ports provider calls id strategy
    Publishes digest log ran.1 = true ↔ id = StrategyRegistry.default ∧ log.all ≠ [] := by
  intro ran
  rw [StrategyRegistry.build_withBuiltins] at hbuild
  by_cases hdefault : id = StrategyRegistry.default
  · rw [if_pos hdefault] at hbuild
    cases hbuild
    have hran : ∃ ports', ran.1 = runPhases ports' log := by
      cases provider with
      | mock => exact ⟨ports, rfl⟩
      | model version =>
        refine ⟨ports.failing fun _ => true, ?_⟩
        simp only [ran, FileContents.runStrategy, hdefault, if_true, FileContents.onlyLog]
    obtain ⟨ports', hran⟩ := hran
    rw [hran, publishes_runPhases]
    exact (and_iff_right hdefault).symm
  · rw [if_neg hdefault] at hbuild
    split_ifs at hbuild
    cases hbuild
    have hran : ran.1 = EmptyStrategy log := by
      cases provider with
      | mock => rfl
      | model version =>
        simp only [ran, FileContents.runStrategy, hdefault, if_false, FileContents.onlyLog]
    rw [hran, publishes_empty]
    simp only [Bool.false_eq_true, hdefault, false_and]

/-! ### Answers without tables -/

theorem projectorFor_onlyLog (provider : SelectedProvider) :
    (FileContents.onlyLog json log).projectorFor provider = .onlyLog json log := by
  cases provider <;> rfl

theorem runStrategy_onlyLog (json : CacheJson τ) (cacheKey : MessageId → String → String)
    (ports : StrategyContext) (log : MessageLog) (provider : SelectedProvider)
    (calls : ModelCalls) (id : String) (strategy : ReplayStrategy) :
    ((FileContents.onlyLog json log).runStrategy cacheKey ports provider calls id strategy).2 =
      .onlyLog json log := by
  cases provider with
  | mock => rfl
  | model version =>
    simp only [FileContents.runStrategy, FileContents.onlyLog]
    split <;> rfl

theorem onCache_onlyLog (reached : Bool)
    (command : DerivedRows json → DerivedRows json × ProcessOutput) :
    (FileContents.onlyLog json log).onCache reached command =
      (if reached then .error (.statement .derivedOutputCache) else .ok (command ⟨.empty⟩).2,
        .onlyLog json log) := by
  cases reached <;> rfl

/-- A command over a strategy, on a file that has no table but the log's. -/
theorem answerPrepare_andThen (invocation : Invocation)
    (f : ReplayStrategy → FileContents json → Answered json ProcessOutput) :
    (invocation.answerPrepare ports (.onlyLog json log)).andThen f =
      match StrategyRegistry.withBuiltins.build invocation.strategy ports with
      | .ok strategy => f strategy (.onlyLog json log)
      | .error unknown => (.error (.unknownStrategy unknown), .onlyLog json log) := by
  unfold Invocation.answerPrepare FileContents.buildStrategy
  rw [projectorFor_onlyLog]
  cases StrategyRegistry.withBuiltins.build invocation.strategy ports with
  | ok strategy =>
    show f strategy ((FileContents.onlyLog json log).projectorFor invocation.provider) = _
    rw [projectorFor_onlyLog]
  | error unknown => rfl

/-- How the handler of a submission ends. -/
theorem answerRun_onlyLog (provider : SelectedProvider)
    (delivered : StrategyRunRequest × ModelCalls) :
    answerRun cacheKey ports digest provider (.onlyLog json log) delivered =
      (delivered.1.endsWithoutTable log, .onlyLog json log) := by
  obtain ⟨request, calls⟩ := delivered
  unfold answerRun FileContents.buildStrategy StrategyRunRequest.endsWithoutTable
  cases hbuild : StrategyRegistry.withBuiltins.build request.strategy ports with
  | error unknown =>
    rw [StrategyRegistry.build_withBuiltins] at hbuild
    split_ifs at hbuild with hdefault hempty
    cases hbuild
    simp only [hdefault, hempty, if_false]
    rfl
  | ok strategy =>
    have hpublishes := publishes_runStrategy json cacheKey digest log hbuild
      provider calls
    have hran := runStrategy_onlyLog json cacheKey ports log provider calls
      request.strategy strategy
    dsimp only [Answered.andThen]
    generalize (FileContents.onlyLog json log).runStrategy cacheKey ports provider calls
      request.strategy strategy = ran at hpublishes hran ⊢
    obtain ⟨stores, contents⟩ := ran
    obtain rfl : contents = .onlyLog json log := hran
    show (if Publishes digest log stores then _ else _) = _
    by_cases hdefault : request.strategy = StrategyRegistry.default
    · by_cases hall : log.all = []
      · rw [if_neg fun h => (hpublishes.mp h).2 hall, if_pos hdefault, if_pos hall]
      · rw [if_pos (hpublishes.mpr ⟨hdefault, hall⟩), if_pos hdefault, if_neg hall]
    · rw [StrategyRegistry.build_withBuiltins, if_neg hdefault] at hbuild
      split_ifs at hbuild with hempty
      rw [if_neg fun h => hdefault (hpublishes.mp h).1, if_neg hdefault, if_pos hempty]

/-- What a process answers on a file that has no table but the log's: it panics exactly when it
needs one, and shows nothing that was derived. -/
structure KeepsOnlyLog (answered : Answered json ProcessOutput) (log : MessageLog) (needs : Prop) :
    Prop where
  contents : answered.2 = .onlyLog json log
  panics : (∃ kind, answered.1 = .error (.statement kind)) ↔ needs
  shows : ∀ output, answered.1 = .ok output → ¬output.ShowsDerived

/-- A command that panics on the derived-output table if it reaches it. -/
def PanicsOnTable (answered : Answered json ProcessOutput) (log : MessageLog) (needs : Prop) :
    Prop :=
  ∃ (reached : Bool) (command : DerivedRows json → DerivedRows json × ProcessOutput),
    answered = (FileContents.onlyLog json log).onCache reached command ∧ (reached = true ↔ needs) ∧
      (reached = false → ¬(command ⟨.empty⟩).2.ShowsDerived)

namespace KeepsOnlyLog

variable {needs : Prop}

theorem of_ok {output : ProcessOutput} (hneeds : ¬needs) (hshows : ¬output.ShowsDerived) :
    KeepsOnlyLog (.ok output, .onlyLog json log) log needs where
  contents := rfl
  panics := iff_of_false nofun hneeds
  shows output' h := by
    cases h
    exact hshows

theorem of_panic (kind : StoreKind) (hneeds : needs) :
    KeepsOnlyLog (.error (.statement kind), .onlyLog json log) log needs where
  contents := rfl
  panics := iff_of_true ⟨kind, rfl⟩ hneeds
  shows output h := by cases h

/-- A failure that is no panic on a statement. -/
theorem of_error {e : ProcessFailure} (he : ∀ kind, e ≠ .statement kind) (hneeds : ¬needs) :
    KeepsOnlyLog (.error e, .onlyLog json log) log needs where
  contents := rfl
  panics := by
    refine iff_of_false ?_ hneeds
    rintro ⟨kind, h⟩
    exact he kind (Except.error.inj h)
  shows output h := by cases h

/-- A command over a strategy panics when it reaches the derived-output table. -/
theorem of_strategy {invocation : Invocation}
    {f : ReplayStrategy → FileContents json → Answered json ProcessOutput}
    (hf : ∀ strategy,
      StrategyRegistry.withBuiltins.build invocation.strategy ports = .ok strategy →
        PanicsOnTable (f strategy (.onlyLog json log)) log needs)
    (hneeds : needs → invocation.strategy = StrategyRegistry.default ∨
      invocation.strategy = "empty") :
    KeepsOnlyLog ((invocation.answerPrepare ports (.onlyLog json log)).andThen f) log needs := by
  rw [answerPrepare_andThen]
  cases hbuild : StrategyRegistry.withBuiltins.build invocation.strategy ports with
  | error unknown =>
    refine of_error nofun fun h => ?_
    rw [StrategyRegistry.build_withBuiltins] at hbuild
    split_ifs at hbuild with hdefault hempty
    exact (hneeds h).elim hdefault hempty
  | ok strategy =>
    obtain ⟨reached, command, hanswer, hreached, hshows⟩ := hf strategy hbuild
    dsimp only
    rw [hanswer, onCache_onlyLog, ← hreached]
    cases reached with
    | true => exact of_panic _ rfl
    | false => exact of_ok Bool.false_ne_true (hshows rfl)

end KeepsOnlyLog

section Strategy

variable (invocation : Invocation) {strategy : ReplayStrategy}

theorem panicsOnTable_replay
    (hbuild : StrategyRegistry.withBuiltins.build invocation.strategy ports = .ok strategy) :
    PanicsOnTable (invocation.answerReplay cacheKey ports digest (.onlyLog json log) strategy) log
      (invocation.strategy = StrategyRegistry.default ∧ log.all ≠ []) := by
  have hpublishes := publishes_runStrategy json cacheKey digest log hbuild
    invocation.provider invocation.calls
  unfold Invocation.answerReplay Invocation.runOn
  dsimp only
  rw [runStrategy_onlyLog]
  refine ⟨_, _, rfl, hpublishes, fun hnone hcontexts => hcontexts ?_⟩
  have hentries := cacheEntries_of_not_publishes hnone
  simp only [replay, populateCache, hentries, List.map_nil]

theorem panicsOnTable_warmup (c : ConversationId)
    (hbuild : StrategyRegistry.withBuiltins.build invocation.strategy ports = .ok strategy) :
    PanicsOnTable (invocation.answerWarmup cacheKey ports digest (.onlyLog json log) c strategy) log
      (invocation.strategy = StrategyRegistry.default ∨ invocation.strategy = "empty") := by
  unfold Invocation.answerWarmup Invocation.runOn
  dsimp only
  rw [runStrategy_onlyLog, ite_self]
  refine ⟨true, _, rfl, iff_of_true rfl ?_, nofun⟩
  rw [StrategyRegistry.build_withBuiltins] at hbuild
  split_ifs at hbuild with hdefault hempty
  · exact Or.inl hdefault
  · exact Or.inr hempty

theorem panicsOnTable_verify (c : Option ConversationId)
    (hbuild : StrategyRegistry.withBuiltins.build invocation.strategy ports = .ok strategy) :
    PanicsOnTable (invocation.answerVerify cacheKey ports digest (.onlyLog json log) c strategy) log
      (invocation.strategy = StrategyRegistry.default ∧ log.all ≠ []) := by
  have hpublishes := publishes_runStrategy json cacheKey digest log hbuild
    invocation.provider invocation.calls
  unfold Invocation.answerVerify Invocation.runOn
  dsimp only
  rw [runStrategy_onlyLog]
  refine ⟨_, _, rfl, hpublishes, fun hnone hrecords => hrecords ?_⟩
  have hentries := cacheEntries_of_not_publishes hnone
  cases c <;> simp [verifyCommand, VerifyReport.of, verify, populateCache, hentries]

end Strategy

/-- The submissions a worker executes on it. -/
theorem work_onlyLog (provider : SelectedProvider)
    (delivered : List (StrategyRunRequest × ModelCalls)) :
    serve (fun submission contents => answerRun cacheKey ports digest provider contents submission)
        delivered (.onlyLog json log) =
      (delivered.map fun submission => submission.1.endsWithoutTable log, .onlyLog json log) := by
  induction delivered with
  | nil => rfl
  | cons submission delivered ih =>
    rw [serve_cons, answerRun_onlyLog, ih]
    rfl

theorem inspect_onlyLog (invocation : Invocation) (id : MessageId) :
    KeepsOnlyLog ((invocation.answerInspect cacheKey ports (.onlyLog json log) id).andThen
        fun context contents => (.ok (.inspected context), contents)) log
      (∃ message, log.get id = some message ∧
        (invocation.provider = .mock → (ports.projector.run message).isSome)) := by
  obtain ⟨provider, strategy, router, calls, subcommand⟩ := invocation
  have hlog : (FileContents.onlyLog json log).log = log := rfl
  unfold Invocation.answerInspect Invocation.answerProject
  rw [hlog, projectorFor_onlyLog]
  cases hget : log.get id with
  | none =>
    refine .of_ok ?_ nofun
    rintro ⟨message, h, -⟩
    cases h
  | some message =>
    cases provider with
    | model version => exact .of_panic .projectionCache ⟨message, rfl, nofun⟩
    | mock =>
      simp only
      cases hprojection : ports.projector.run message with
      | none =>
        refine .of_error nofun ?_
        rintro ⟨message', h, hsome⟩
        cases h
        have hprojected := hsome trivial
        rw [hprojection] at hprojected
        cases hprojected
      | some projection =>
        refine .of_panic .routingTraces ⟨message, rfl, fun _ => ?_⟩
        rw [hprojection]
        rfl

/-- **One process** on a file that has no table but the log's. -/
theorem answer_onlyLog (invocation : Invocation) (log : MessageLog) :
    KeepsOnlyLog (invocation.answer cacheKey ports digest debug (.onlyLog json log))
      (invocation.logs debug log) (invocation.NeedsTable ports log) := by
  unfold Invocation.answer Invocation.logs Invocation.NeedsTable
  cases invocation.subcommand with
  | ingest input =>
    cases input with
    | error e => exact .of_error nofun id
    | ok message => exact .of_ok id id
  | github client source spec =>
    show KeepsOnlyLog (_, _) (githubIngestRest debug log client source spec).1 False
    have hlog : (FileContents.onlyLog json log).log = log := rfl
    rw [hlog]
    obtain ⟨log', ended⟩ := githubIngestRest debug log client source spec
    cases ended with
    | error e => exact .of_error nofun id
    | ok ids => exact .of_ok id id
  | replay =>
    refine .of_strategy (fun strategy hbuild => ?_) fun h => Or.inl h.1
    exact panicsOnTable_replay invocation hbuild
  | warmup c =>
    refine .of_strategy (fun strategy hbuild => ?_) id
    exact panicsOnTable_warmup invocation c hbuild
  | verify c =>
    refine .of_strategy (fun strategy hbuild => ?_) fun h => Or.inl h.1
    exact panicsOnTable_verify invocation c hbuild
  | inspect id => exact inspect_onlyLog invocation id
  | work delivered =>
    rw [projectorFor_onlyLog]
    dsimp only
    rw [work_onlyLog]
    exact .of_ok id id
  | queue => exact .of_ok id id

end NewFile

/-- An empty file stands for an empty log and no other table. -/
theorem standsFor_empty {τ : Type} (json : FileJson τ) (sql : OrderBy) :
    StandsFor json sql Database.empty (.onlyLog json.caches .empty) := by
  refine Or.inl ⟨rfl, ?_, rfl, rfl, fun _ => rfl⟩
  have hnil : sql.orderBy (MessageRow.seq (τ := τ)) [] = [] := (sql.perm MessageRow.seq []).eq_nil
  show (sql.orderBy MessageRow.seq []).map MessagesTable.entryOf = _
  rw [hnil]
  rfl

/-- **A file that the commands created keeps the log and shows nothing else.** After any processes
on a new file, the file holds what was ingested, and no table but the log's.  A further process
panics on a missing table exactly when it needs one, the submissions it executes end without one,
and what it prints shows nothing that was derived from the log. -/
theorem processes_on_new_file {τ : Type} (json : FileJson τ) (sql : OrderBy)
    (cacheKey : MessageId → String → String) (ports : StrategyContext)
    (digest : List UInt8 → String) (debug : String → String) (invocations : List Invocation)
    (last : Invocation) :
    let file := (processes json sql cacheKey ports digest debug invocations Database.empty).2
    let log := invocations.foldl (Invocation.logs debug) .empty
    let answer := (exec (last.main json sql cacheKey ports digest debug) file).1
    StandsFor json sql file (.onlyLog json.caches log) ∧
      ((∃ kind, answer = .error (.statement kind)) ↔ last.NeedsTable ports log) ∧
      (∀ delivered, last.subcommand = .work delivered → answer = .ok (.worked
        (delivered.map fun submission => submission.1.endsWithoutTable log))) ∧
      ∀ output, answer = .ok output → ¬output.ShowsDerived := by
  intro file log answer
  have hstands : StandsFor json sql file (.onlyLog json.caches log) := by
    have hagree := (processes_agree json sql cacheKey ports digest debug
      (standsFor_empty json sql) invocations).2
    rw [serve_of_form fun invocation log => (answer_onlyLog invocation log).contents] at hagree
    exact hagree
  obtain ⟨file', hexec, -⟩ := gives_main json sql cacheKey ports digest debug last hstands
  have hanswer : answer =
      (last.answer cacheKey ports digest debug (.onlyLog json.caches log)).1 := by
    show (exec _ file).1 = _
    rw [hexec]
  have hkeeps : KeepsOnlyLog
      (last.answer cacheKey ports digest debug (.onlyLog json.caches log)) _ _ :=
    answer_onlyLog last log
  rw [hanswer]
  refine ⟨hstands, hkeeps.panics, fun delivered hwork => ?_, hkeeps.shows⟩
  simp only [Invocation.answer, hwork, projectorFor_onlyLog, work_onlyLog]

end Mirrorlane
