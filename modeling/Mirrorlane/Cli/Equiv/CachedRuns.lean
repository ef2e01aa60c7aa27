import Mirrorlane.Cli.CachedRuns
import Mirrorlane.Cli.Equiv.Projectors
import Mirrorlane.Provider.Context
import Mirrorlane.Worker.Equiv.Producers
import Mirrorlane.Worker.Equiv.Schedules

/-!
# Runs behind the cache are runs of one deterministic projector

However the model answers, what the message stage stores is what the table holds in the end: a row
is never overwritten, and a delivery that finds none either leaves one or stores nothing.  So a run
whose answers are read back as they are (`ReadBack`) produces the stores of `runPhases` with the
projector that looks the messages up, and all such runs under one version share one such projector,
which fails on fewer and fewer messages.

## Main results

* `CachedRun.exec_eq`: one run
* `cached_runs_share_projector`
-/

namespace Mirrorlane

variable {τ : Type} {json : CacheJson τ} {cacheKey : MessageId → String → String}
  {version : StepVersion} {answers : Answers}

/-- The confidences that a model answers are parsed as they are written. -/
def ReadBack (json : CacheJson τ) (answers : Answers) : Prop :=
  ∀ k dto, answers k = some dto →
    (Confidence.new dto.confidence).mapNumber json.number = .new dto.confidence

/-- So a projection that a model answers is read back as it is. -/
theorem ReadBack.mapNumbers_eq (h : ReadBack json answers) {k : ℕ} {m : MessageEnvelope} :
    ∀ p ∈ LlmProjector.run (answers k) m, p.mapNumbers json.number = p := by
  intro p hp
  obtain ⟨dto, hdto, rfl⟩ := Option.map_eq_some_iff.mp hp
  exact (Projection.mapNumbers_eq_self_iff _).mpr (h k dto hdto)

/-! ### The message stage -/

/-- Only deliveries with the key of a request write its row. -/
theorem projectAll_get_of_ne {r : CacheRequest} (messages : List MessageEnvelope) :
    ∀ n (rows : ProjectionRows json),
      (∀ m ∈ messages, (projectionRequest cacheKey version m).key ≠ r.key) →
      Cache.get (projectAll cacheKey version answers n messages rows).1 r = Cache.get rows r := by
  induction messages with
  | nil => intro n rows _; rfl
  | cons m messages ih =>
    intro n rows h
    have hrest := ih (n + 1) (Cached.run rows (projectionRequest cacheKey version m)
      (LlmProjector.run (answers n) m)).2 fun m' hm' => h m' (List.mem_cons_of_mem _ hm')
    refine hrest.trans (Cached.get_run_of_ne rows _ fun hslot => ?_)
    exact h m List.mem_cons_self (congrArg CacheRequest.key hslot).symm

/-- What was returned for a message is in the table. -/
theorem get_of_mem_projectAll (hreads : ReadBack json answers) {m : MessageEnvelope}
    {p : Projection} (messages : List MessageEnvelope) (n : ℕ) (rows : ProjectionRows json)
    (h : (m, some p) ∈ (projectAll cacheKey version answers n messages rows).2) :
    Cache.get (projectAll cacheKey version answers n messages rows).1
      (projectionRequest cacheKey version m) = some p := by
  obtain ⟨row, hrow, hget⟩ := projectAll_get messages n rows h
  rcases hrow with hrow | ⟨hrow, k, dto, id, hdto, hp⟩
  · rw [hget, hrow]
  · have hconfidence : p.confidence.mapNumber json.number = p.confidence := by
      rw [hp]
      exact hreads k dto hdto
    rw [hget, hrow, (Projection.mapNumbers_eq_self_iff json.number).mpr hconfidence]

/-- A row that a delivery leaves is what some delivery of the message returned. -/
theorem mem_projectAll_of_get (hreads : ReadBack json answers) {m : MessageEnvelope}
    {p : Projection} (messages : List MessageEnvelope) :
    ∀ n (rows : ProjectionRows json), m ∈ messages →
      (∀ m' ∈ messages, cacheKey m'.id m'.body = cacheKey m.id m.body → m' = m) →
      Cache.get (projectAll cacheKey version answers n messages rows).1
        (projectionRequest cacheKey version m) = some p →
      (m, some p) ∈ (projectAll cacheKey version answers n messages rows).2 := by
  induction messages with
  | nil => intro n rows hm; exact absurd hm List.not_mem_nil
  | cons m' messages ih =>
    intro n rows hm hapart hget
    have hrest : ∀ m'' ∈ messages, cacheKey m''.id m''.body = cacheKey m.id m.body → m'' = m :=
      fun m'' hm'' => hapart m'' (List.mem_cons_of_mem _ hm'')
    by_cases hlater : m ∈ messages
    · exact List.mem_cons_of_mem _ (ih (n + 1) _ hlater hrest hget)
    · obtain rfl : m = m' := (List.mem_cons.mp hm).resolve_right hlater
      -- the row was not touched again
      let here := Cached.run rows (projectionRequest cacheKey version m)
        (LlmProjector.run (answers n) m)
      have hhere : Cache.get (projectAll cacheKey version answers (n + 1) messages here.2).1
          (projectionRequest cacheKey version m) =
            Cache.get here.2 (projectionRequest cacheKey version m) :=
        projectAll_get_of_ne messages (n + 1) here.2
          fun m'' hm'' hkey => hlater (hrest m'' hm'' hkey ▸ hm'')
      have hrow := hhere.symm.trans hget
      rw [Cached.get_run_self hreads.mapNumbers_eq] at hrow
      exact List.mem_cons.mpr (Or.inl (by rw [← hrow]))

/-! ### Rows of the messages' own -/

/-- The cache key tells the ids of some messages apart. -/
def KeyedApart (cacheKey : MessageId → String → String) (M : MessageEnvelope → Prop) : Prop :=
  ∀ m m', M m → M m' → cacheKey m.id m.body = cacheKey m'.id m'.body → m.id = m'.id

/-- Every row is one of the message it is looked up for. -/
def WellKeyed (cacheKey : MessageId → String → String) (M : MessageEnvelope → Prop)
    (rows : ProjectionRows json) : Prop :=
  ∀ version m p, M m → Cache.get rows (projectionRequest cacheKey version m) = some p →
    p.messageId = m.id

variable {M : MessageEnvelope → Prop} {rows : ProjectionRows json}

theorem wellKeyed_empty : WellKeyed cacheKey M (⟨.empty⟩ : ProjectionRows json) := by
  intro version m p _ h
  cases h

theorem WellKeyed.pruneSuperseded (h : WellKeyed cacheKey M rows) (keep : StepVersion) :
    WellKeyed cacheKey M (rows.pruneSuperseded keep) := by
  intro version m p hm hget
  rw [get_pruneSuperseded] at hget
  split_ifs at hget
  exact h version m p hm hget

/-- **A delivery keeps the rows the messages' own.** -/
theorem WellKeyed.run (hapart : KeyedApart cacheKey M) (h : WellKeyed cacheKey M rows)
    {m : MessageEnvelope} (hm : M m) (answer : Option ProjectionDto) :
    WellKeyed cacheKey M (Cached.run rows (projectionRequest cacheKey version m)
      (LlmProjector.run answer m)).2 := by
  rcases Cached.run_cases rows (projectionRequest cacheKey version m) (LlmProjector.run answer m)
    with hsame | ⟨out, hinner, -, hput⟩
  · rwa [hsame]
  · intro version' m' p hm' hget
    rw [hput, LawfulCache.get_put] at hget
    split_ifs at hget with hslot
    · cases hget
      have hkey : cacheKey m'.id m'.body = cacheKey m.id m.body := congrArg CacheRequest.key hslot
      show out.messageId = _
      rw [LlmProjector.messageId_of_run hinner, hapart m' m hm' hm hkey]
    · exact h version' m' p hm' hget

theorem WellKeyed.projectAll (hapart : KeyedApart cacheKey M) (messages : List MessageEnvelope) :
    ∀ n (rows : ProjectionRows json), (∀ m ∈ messages, M m) → WellKeyed cacheKey M rows →
      WellKeyed cacheKey M (projectAll cacheKey version answers n messages rows).1 := by
  induction messages with
  | nil => intro n rows _ h; exact h
  | cons m messages ih =>
    intro n rows hM h
    exact ih (n + 1) _ (fun m' hm' => hM m' (List.mem_cons_of_mem _ hm'))
      (h.run hapart (hM m List.mem_cons_self) (answers n))

/-! ### One run -/

theorem Schedule.Delivers.mem_messages {schedule : Schedule} {messages : List MessageEnvelope}
    (h : schedule.Delivers messages) {m : MessageEnvelope} :
    m ∈ schedule.messages ↔ m ∈ messages := by
  have hdelivers := h.messages m
  rwa [show (Schedule.payloads messages).messages = messages from List.map_id _] at hdelivers

/-- Over what a projector returns for a log, the other stages leave what `runPhases` leaves. -/
theorem runStages_eq (ports : StrategyContext) (projector : Projector) {log : MessageLog}
    {schedule : Schedule} (h : schedule.Delivers log.all) :
    runStages ports schedule (UpsertStore.empty.upsertAll (log.all.filterMap projector.run)) =
      runPhases { ports with projector } log := by
  rw [runPhases_eq]
  set ports' := { ports with projector }
  show runStages ports' schedule (derivedStores ports' log).projections = _
  unfold runStages
  simp only [scopes_stage h.scopes, warmups_stage h.warmups, skills_stage h.skills,
    hints_stage h.hints, developers_stage h.developers]

/-- Without projections, the run is one whose projector fails on every message. -/
theorem runStages_empty (ports : StrategyContext) {log : MessageLog} {schedule : Schedule}
    (h : schedule.Delivers log.all) :
    runStages ports schedule .empty = runPhases (ports.failing fun _ => true) log := by
  have hfails : log.all.filterMap (ports.projector.failing fun _ => true).run = [] :=
    List.filterMap_eq_nil_iff.mpr fun _ _ => rfl
  have hstages := runStages_eq ports (ports.projector.failing fun _ => true) h
  rw [hfails] at hstages
  exact hstages

namespace CachedRun

variable {run : CachedRun} {ports : StrategyContext}

theorem mem_messages_iff {m : MessageEnvelope} : m ∈ run.schedule.messages ↔ m ∈ run.log.all :=
  run.delivers.mem_messages

theorem get_open {r : CacheRequest} (hr : r.version = run.version) :
    Cache.get (run.open rows) r = Cache.get rows r := by
  unfold CachedRun.open
  split_ifs
  · rw [get_pruneSuperseded, if_pos hr]
  · rfl

theorem wellKeyed_open (h : WellKeyed cacheKey M rows) : WellKeyed cacheKey M (run.open rows) := by
  unfold CachedRun.open
  split_ifs
  · exact h.pruneSuperseded run.version
  · exact h

/-- A run leaves every row of its version. -/
theorem project_keeps {r : CacheRequest} {p : Projection} (hr : r.version = run.version)
    (h : Cache.get rows r = some p) : Cache.get (run.project cacheKey rows).1 r = some p :=
  projectAll_keeps run.schedule.messages 0 _ ((get_open hr).trans h)

theorem wellKeyed_project (hapart : KeyedApart cacheKey M) (hM : ∀ m ∈ run.log.all, M m)
    (h : WellKeyed cacheKey M rows) : WellKeyed cacheKey M (run.project cacheKey rows).1 :=
  WellKeyed.projectAll hapart run.schedule.messages 0 _
    (fun m hm => hM m (mem_messages_iff.mp hm)) (wellKeyed_open h)

/-- **What the message stage returns is what the table holds in the end.** -/
theorem mem_project_iff (hreads : ReadBack json run.answers) (hapart : KeyedApart cacheKey M)
    (hM : ∀ m ∈ run.log.all, M m) (h : WellKeyed cacheKey M rows) {m : MessageEnvelope}
    (hm : m ∈ run.log.all) {p : Projection} :
    (m, some p) ∈ (run.project cacheKey rows).2 ↔
      (frozenProjector cacheKey run.version (run.project cacheKey rows).1).run m = some p := by
  have hkeyed := wellKeyed_project hapart hM h
  constructor
  · intro hmem
    have hget := get_of_mem_projectAll hreads run.schedule.messages 0 _ hmem
    refine Option.filter_eq_some_iff.mpr ⟨hget, ?_⟩
    exact decide_eq_true (hkeyed run.version m p (hM m hm) hget)
  · intro hrun
    have hget := (Option.filter_eq_some_iff.mp hrun).1
    refine mem_projectAll_of_get hreads run.schedule.messages 0 _ (mem_messages_iff.mpr hm) ?_ hget
    intro m' hm' hkey
    have hm'' := mem_messages_iff.mp hm'
    -- the messages of a log have different ids
    exact List.inj_on_of_nodup_map run.log.nodup hm'' hm
      (hapart m' m (hM m' hm'') (hM m hm) hkey)

/-- The store the message stage leaves. -/
theorem foldl_storeProjected (projected : List (MessageEnvelope × Option Projection))
    (store : InMemoryProjectionStore) : projected.foldl storeProjected store =
      store.upsertAll (projected.filterMap Prod.snd) := by
  induction projected generalizing store with
  | nil => rfl
  | cons entry projected ih =>
    obtain ⟨m, out⟩ := entry
    cases out with
    | none => exact ih store
    | some p => exact ih (store.upsert p)

theorem projections_exec (ports : StrategyContext) (hreads : ReadBack json run.answers)
    (hapart : KeyedApart cacheKey M) (hM : ∀ m ∈ run.log.all, M m)
    (h : WellKeyed cacheKey M rows) :
    (run.project cacheKey rows).2.foldl storeProjected .empty =
      UpsertStore.empty.upsertAll (run.log.all.filterMap
        (frozenProjector cacheKey run.version (run.project cacheKey rows).1).run) := by
  set projector := frozenProjector cacheKey run.version (run.project cacheKey rows).1
  rw [foldl_storeProjected]
  have hdelivers : Delivers (run.log.all.filterMap projector.run)
      ((run.project cacheKey rows).2.filterMap Prod.snd) := by
    intro p
    simp only [List.mem_filterMap, Prod.exists, exists_eq_right]
    constructor
    · rintro ⟨m, hmem⟩
      have hm : m ∈ run.log.all := by
        rw [← mem_messages_iff, ← projectAll_fst run.schedule.messages 0]
        exact List.mem_map_of_mem hmem
      exact ⟨m, hm, (mem_project_iff hreads hapart hM h hm).mp hmem⟩
    · rintro ⟨m, hm, hrun⟩
      exact ⟨m, (mem_project_iff hreads hapart hM h hm).mpr hrun⟩
  let ports' : StrategyContext := { ports with projector }
  have hnodup : ((projectionsOf ports' run.log.all).map Projection.messageId).Nodup :=
    nodup_messageId_projectionsOf run.log
  exact UpsertStore.upsertAll_eq_of_delivers hnodup hdelivers _

/-- **A run behind the cache is the run of a deterministic projector**: the one that looks the
messages up in the table the run leaves. -/
theorem exec_eq (hreads : ReadBack json run.answers) (hapart : KeyedApart cacheKey M)
    (hM : ∀ m ∈ run.log.all, M m) (h : WellKeyed cacheKey M rows) :
    (run.exec cacheKey ports rows).2 =
      runPhases { ports with
        projector := frozenProjector cacheKey run.version (run.project cacheKey rows).1 }
        run.log := by
  show runStages ports run.schedule _ = _
  rw [projections_exec ports hreads hapart hM h]
  exact runStages_eq ports _ run.delivers

end CachedRun

/-! ### Histories -/

theorem tableAfter_append (runs runs' : List CachedRun)
    (rows : ProjectionRows json) :
    tableAfter cacheKey (runs ++ runs') rows =
      tableAfter cacheKey runs' (tableAfter cacheKey runs rows) :=
  List.foldl_append

theorem wellKeyed_tableAfter (hapart : KeyedApart cacheKey M) (runs : List CachedRun) :
    ∀ rows : ProjectionRows json, (∀ run ∈ runs, ∀ m ∈ run.log.all, M m) →
      WellKeyed cacheKey M rows →
      WellKeyed cacheKey M (tableAfter cacheKey runs rows) := by
  induction runs with
  | nil => intro rows _ h; exact h
  | cons run runs ih =>
    intro rows hM h
    exact ih _ (fun r hr => hM r (List.mem_cons_of_mem _ hr))
      (CachedRun.wellKeyed_project hapart (hM run List.mem_cons_self) h)

/-- Runs under one version keep its rows. -/
theorem tableAfter_keeps {r : CacheRequest} {p : Projection} (runs : List CachedRun) :
    ∀ rows : ProjectionRows json, (∀ run ∈ runs, run.version = r.version) →
      Cache.get rows r = some p →
      Cache.get (tableAfter cacheKey runs rows) r = some p := by
  induction runs with
  | nil => intro rows _ h; exact h
  | cons run runs ih =>
    intro rows hversion h
    exact ih _ (fun r' hr' => hversion r' (List.mem_cons_of_mem _ hr'))
      (CachedRun.project_keeps (hversion run List.mem_cons_self).symm h)

/-- The projector of an earlier table is the one of a later table while it fails on what has no row
yet. -/
theorem failing_frozenProjector {rows rows' : ProjectionRows json}
    (h : ∀ m p, Cache.get rows (projectionRequest cacheKey version m) = some p →
      Cache.get rows' (projectionRequest cacheKey version m) = some p) :
    (frozenProjector cacheKey version rows').failing (unfrozen cacheKey version rows) =
      frozenProjector cacheKey version rows := by
  refine Projector.ext rfl (funext fun m => ?_)
  show (if unfrozen cacheKey version rows m then none else
    (frozenProjector cacheKey version rows').run m) = _
  unfold unfrozen frozenProjector
  cases hget : Cache.get rows (projectionRequest cacheKey version m) with
  | none => simp [hget]
  | some p => simp [hget, h m p hget]

/-- **Runs behind the cache share one deterministic projector.** After any history of runs, under
any versions and with any answers and redeliveries, take some runs under one version whose answers
have confidences that are read back as they are.  There is one projector, which looks a message up
in the table they leave, such that each of them produces the stores of `runPhases` with this
projector, failing on the messages that have no row yet.  A message once projected never fails
again. -/
theorem cached_runs_share_projector (ports : StrategyContext) {history runs : List CachedRun}
    (hapart : KeyedApart cacheKey fun m => ∃ run ∈ history ++ runs, m ∈ run.log.all)
    (hversion : ∀ run ∈ runs, run.version = version)
    (hreads : ∀ run ∈ runs, ReadBack json run.answers) :
    let table : List CachedRun → ProjectionRows json :=
      fun done => tableAfter cacheKey (history ++ done) ⟨.empty⟩
    let projector := frozenProjector cacheKey version (table runs)
    (∀ pre run post, runs = pre ++ run :: post →
      (run.exec cacheKey ports (table pre)).2 =
        runPhases ({ ports with projector }.failing
          (unfrozen cacheKey version (table (pre ++ [run])))) run.log) ∧
    ∀ pre mid post, runs = pre ++ mid ++ post → ∀ m,
      unfrozen cacheKey version (table (pre ++ mid)) m = true →
        unfrozen cacheKey version (table pre) m = true := by
  intro table projector
  have hkeeps : ∀ pre mid, (∀ run ∈ mid, run ∈ runs) → ∀ m p,
      Cache.get (table pre) (projectionRequest cacheKey version m) = some p →
        Cache.get (table (pre ++ mid)) (projectionRequest cacheKey version m) = some p := by
    intro pre mid hmid m p hget
    show Cache.get (tableAfter cacheKey (history ++ (pre ++ mid)) ⟨.empty⟩) _ = _
    rw [← List.append_assoc, tableAfter_append]
    exact tableAfter_keeps mid _ (fun run hrun => hversion run (hmid run hrun)) hget
  constructor
  · intro pre run post hruns
    have hmem : ∀ r ∈ pre ++ [run], r ∈ runs := by
      intro r hr
      rw [hruns, ← List.singleton_append, ← List.append_assoc]
      exact List.mem_append_left post hr
    have hself : run ∈ runs := hmem run (List.mem_append_right _ (List.mem_singleton_self _))
    have hrun : run.version = version := hversion run hself
    have hrows : WellKeyed cacheKey (fun m => ∃ run ∈ history ++ runs, m ∈ run.log.all)
        (table pre) := by
      refine wellKeyed_tableAfter hapart (history ++ pre) _ (fun r hr m hm => ?_) wellKeyed_empty
      refine ⟨r, ?_, hm⟩
      rcases List.mem_append.mp hr with hhistory | hpre
      · exact List.mem_append_left _ hhistory
      · exact List.mem_append_right _ (hmem r (List.mem_append_left _ hpre))
    have hafter : (run.project cacheKey (table pre)).1 = table (pre ++ [run]) := by
      show _ = tableAfter cacheKey (history ++ (pre ++ [run])) ⟨.empty⟩
      rw [← List.append_assoc, tableAfter_append]
      rfl
    rw [run.exec_eq (hreads run hself) hapart
      (fun m hm => ⟨run, List.mem_append_right _ hself, hm⟩) hrows, hafter, hrun]
    -- the rows this run leaves are still there in the end
    have hfailing : projector.failing (unfrozen cacheKey version (table (pre ++ [run]))) =
        frozenProjector cacheKey version (table (pre ++ [run])) := by
      refine failing_frozenProjector fun m p hget => ?_
      have hend := hkeeps (pre ++ [run]) post (fun r hr => by
        rw [hruns]
        exact List.mem_append_right _ (List.mem_cons_of_mem _ hr)) m p hget
      rwa [List.append_assoc, List.singleton_append, ← hruns] at hend
    rw [StrategyContext.failing, hfailing]
  · intro pre mid post hruns m hlater
    unfold unfrozen at hlater ⊢
    rw [Option.isNone_iff_eq_none] at hlater ⊢
    by_contra hrow
    obtain ⟨p, hget⟩ := Option.ne_none_iff_exists'.mp hrow
    have hkept := hkeeps pre mid (fun r hr => by
      rw [hruns]
      exact List.mem_append_left _ (List.mem_append_right _ hr)) m p hget
    rw [hlater] at hkept
    cases hkept

/-- A run over one question, with a model that gives one answer or none. -/
def questionRun (answer : Option ProjectionDto) : CachedRun where
  version := ⟨"ollama:a:v2:0123456789abcdef"⟩
  prunes := true
  log := MessageLog.empty.append (Producers.question "m-1" "c-1")
  answers _ := answer
  schedule := .payloads (MessageLog.empty.append (Producers.question "m-1" "c-1")).all
  delivers := Schedule.delivers_payloads _

theorem cached_runs_share_projector_retried :
    ∃ projector : Projector, ∀ pre run post,
      [questionRun none, questionRun (some ⟨.question, ["rust"], [], 1⟩)] = pre ++ run :: post →
        ∃ fails, (run.exec (hashedKey plainDigest) mockPorts (tableAfter (hashedKey plainDigest)
            ([] ++ pre) (⟨.empty⟩ : ProjectionRows (.decoded lastBitOff)))).2 =
          runPhases ({ mockPorts with projector }.failing fails) run.log := by
  set runs := [questionRun none, questionRun (some ⟨.question, ["rust"], [], 1⟩)] with hruns
  have hlog : ∀ run ∈ runs, run.log.all = [Producers.question "m-1" "c-1"] ∧
      run.version = ⟨"ollama:a:v2:0123456789abcdef"⟩ := by
    rw [hruns]
    simp only [List.forall_mem_cons]
    exact ⟨⟨rfl, rfl⟩, ⟨rfl, rfl⟩, nofun⟩
  have hapart : KeyedApart (hashedKey plainDigest) fun m => ∃ run ∈ [] ++ runs,
      m ∈ run.log.all := by
    rintro m m' ⟨run, hrun, hm⟩ ⟨run', hrun', hm'⟩ -
    -- there is only one message
    rw [(hlog run hrun).1, List.mem_singleton] at hm
    rw [(hlog run' hrun').1, List.mem_singleton] at hm'
    rw [hm, hm']
  have hone : (Confidence.new 1).mapNumber lastBitOff = .new 1 := by
    decide +kernel
  have hreads : ∀ run ∈ runs, ReadBack (.decoded lastBitOff) run.answers := by
    rw [hruns]
    simp only [List.forall_mem_cons]
    refine ⟨nofun, fun k dto hdto => ?_, nofun⟩
    obtain rfl := Option.some.inj hdto
    exact hone
  have hshared := cached_runs_share_projector mockPorts hapart (fun run hrun => (hlog run hrun).2)
    hreads
  exact ⟨_, fun pre run post hruns => ⟨_, hshared.1 pre run post hruns⟩⟩

end Mirrorlane
