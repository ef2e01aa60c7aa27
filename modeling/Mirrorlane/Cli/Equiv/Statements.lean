import Mirrorlane.Cli.Equiv.CachedRuns
import Mirrorlane.Cli.FileContents
import Mirrorlane.Storage.Equiv.ConcurrentOpens
import Mirrorlane.Storage.Equiv.MessageStore

/-!
# Statements of a process on a file

A file stands for a log, and for the contents of the other three stores as far as their tables
exist.  Each statement of a process does to the file what its port does to the contents, and a
statement on a missing table fails and changes nothing.
-/

namespace Mirrorlane

variable {τ : Type}

/-! ### What a file stands for -/

/-- The tables but the log's hold the contents. -/
structure TablesHold {json : CacheJson τ} (contents : FileContents json) (db : Database τ) :
    Prop where
  projections : db.projectionCache = contents.projections.map ProjectionRows.texts
  derived : db.derivedOutputCache = contents.derived.map DerivedRows.texts
  traces : ∀ id, SqliteRoutingTraceStore.get db id = contents.traces.map fun traces => traces id

/-- The file is at the current schema version and holds the contents. -/
structure Holds (json : FileJson τ) (contents : FileContents json.caches) (db : Database τ) :
    Prop where
  log : SqliteMessageStore.Abstracts json.messages db contents.log
  tables : TablesHold contents db

/-- A file that was not opened yet: a new one, or one of before the schema was versioned, with the
tables it has. -/
structure Unversioned (json : FileJson τ) (sql : OrderBy) (contents : FileContents json.caches)
    (db : Database τ) : Prop where
  userVersion_eq : db.userVersion = 0
  log : Connections.legacyEntries sql db =
    contents.log.all.map (SqliteMessageStore.entryOf json.messages)
  tables : TablesHold contents db

/-- The file stands for the contents. -/
def StandsFor (json : FileJson τ) (sql : OrderBy) (db : Database τ)
    (contents : FileContents json.caches) : Prop :=
  Unversioned json sql contents db ∨ Holds json contents db

/-- The program ends with the answer, in a file that holds what the answer leaves. -/
def Gives (json : FileJson τ) {α : Type} (x : Process τ α) (db : Database τ)
    (answered : Answered json.caches α) : Prop :=
  EndsIn x db answered.1 (Holds json answered.2)

section Gives

variable {json : FileJson τ} {α β : Type} {x : Process τ α} {f : α → Process τ β}
  {db : Database τ} {answered : Answered json.caches α}
  {g : α → FileContents json.caches → Answered json.caches β}

theorem Gives.andThen (h : Gives json x db answered)
    (hrest : ∀ a db', answered.1 = .ok a → Holds json answered.2 db' →
      Gives json (f a) db' (g a answered.2)) :
    Gives json (x >>= f) db (answered.andThen g) := by
  obtain ⟨result, contents⟩ := answered
  cases result with
  | ok a => exact EndsIn.bind h fun db' h' => hrest a db' rfl h'
  | error e => exact EndsIn.bind_error h

end Gives

/-! ### Opening a file -/

section Open

variable {json : FileJson τ} {sql : OrderBy} {contents : FileContents json.caches}
  {db : Database τ}

/-- Opening the message log of an unversioned file rebuilds its table. -/
theorem endsIn_open_of_unversioned (h : Unversioned json sql contents db) :
    EndsIn (Process.openStore sql .messages) db (.ok ()) (Holds json contents) := by
  obtain ⟨t, hrebuild, hrep, -⟩ := MessagesTable.exists_rebuild_eq_some sql
    (db.messages.getD (MessagesTable.create false))
  have hrows : (db.messages.getD (MessagesTable.create false)).rows =
      Connections.legacyRows db := by
    unfold Connections.legacyRows
    cases db.messages <;> rfl
  have hinit : StoreKind.init sql .messages db =
      ({ db with userVersion := 2, messages := some t }, true) := by
    simp [StoreKind.init, StoreKind.steps, migrate, h.userVersion_eq, SqliteMessageStore.steps,
      migrateFrom, Step.commit, SqliteMessageStore.stepV1, SqliteMessageStore.stepV2, hrebuild]
  refine ⟨_, Process.exec_openStore hinit, ⟨rfl, t, rfl, ?_⟩, ?_⟩
  · rw [hrows] at hrep
    rw [← h.log]
    exact hrep
  · exact ⟨h.tables.projections, h.tables.derived, h.tables.traces⟩

/-- Every store opens on a current file, and nothing changes. -/
theorem Holds.endsIn_open (h : Holds json contents db) (kind : StoreKind) :
    EndsIn (Process.openStore sql kind) db (.ok ()) (Holds json contents) := by
  have hlength : (kind.steps (τ := τ) sql).length ≤ db.userVersion := by
    rw [h.log.userVersion_eq]
    cases kind with
    | messages => exact le_rfl
    | projectionCache | derivedOutputCache | routingTraces => exact Nat.le_succ 1
  exact ⟨db, Process.exec_openStore (migrate_of_length_le hlength), h⟩

/-- The first open of a process. -/
theorem StandsFor.endsIn_open (h : StandsFor json sql db contents) :
    EndsIn (Process.openStore sql .messages) db (.ok ()) (Holds json contents) := by
  rcases h with hunversioned | hholds
  · exact endsIn_open_of_unversioned hunversioned
  · exact hholds.endsIn_open .messages

end Open

/-! ### Statements -/

section Statements

variable {json : FileJson τ} {sql : OrderBy} {contents : FileContents json.caches}
  {db : Database τ}

/-- A statement that reads a value leaves the file alone. -/
theorem Holds.endsIn_query (h : Holds json contents db) {α : Type} {kind : StoreKind}
    {read : Database τ → Option α} {a : α} (hread : read db = some a) :
    EndsIn (Process.query kind read) db (.ok a) (Holds json contents) :=
  ⟨db, Process.exec_query_of_some hread, h⟩

/-- A statement that fails leaves the file alone. -/
theorem Holds.endsIn_query_none (h : Holds json contents db) {α : Type} {kind : StoreKind}
    {read : Database τ → Option α} (hread : read db = none) :
    EndsIn (Process.query kind read) db (.error (.statement kind)) (Holds json contents) :=
  ⟨db, Process.exec_query_of_none hread, h⟩

theorem Holds.endsIn_execute_none (h : Holds json contents db) {kind : StoreKind}
    {write : Database τ → Option (Database τ)} (hwrite : write db = none) :
    EndsIn (Process.execute kind write) db (.error (.statement kind)) (Holds json contents) :=
  ⟨db, Process.exec_execute_of_none hwrite, h⟩

theorem Holds.endsIn_readLog (h : Holds json contents db) :
    EndsIn (Process.readLog json sql) db (.ok contents.log) (Holds json contents) := by
  refine h.endsIn_query ?_
  rw [SqliteMessageStore.all_of_abstracts sql h.log, Option.bind_eq_bind, Option.bind_some,
    dif_pos contents.log.nodup]

theorem Holds.endsIn_messagesFor (h : Holds json contents db) (c : ConversationId) :
    EndsIn (Process.messagesFor json sql c) db (.ok (contents.log.messagesFor c))
      (Holds json contents) :=
  h.endsIn_query (SqliteMessageStore.messagesFor_of_abstracts sql h.log c)

theorem Holds.endsIn_append (h : Holds json contents db) (message : MessageEnvelope) :
    EndsIn (Process.append json message) db (.ok ())
      (Holds json { contents with log := contents.log.append message }) := by
  obtain ⟨db', happend, habstracts⟩ := SqliteMessageStore.exists_append_eq_some h.log message
  obtain ⟨t, t', -, -, rfl⟩ := SqliteMessageStore.upsert_eq_some happend
  exact ⟨_, Process.exec_execute_of_some happend, habstracts,
    h.tables.projections, h.tables.derived, h.tables.traces⟩

theorem Holds.endsIn_ingestItems (items : List GitHubItem) :
    ∀ {contents : FileContents json.caches} {db : Database τ}, Holds json contents db →
    EndsIn (Process.ingestItems json items) db (.ok (ingestItems items contents.log).2)
      (Holds json { contents with log := (ingestItems items contents.log).1 }) := by
  induction items with
  | nil => exact fun h => EndsIn.pure [] h
  | cons item items ih =>
    intro contents db h
    refine EndsIn.bind (h.endsIn_append (toMessage item)) fun db₁ h₁ => ?_
    exact EndsIn.bind (ih h₁) fun db₂ h₂ => EndsIn.pure _ h₂

/-! ### The projection cache -/

theorem Holds.projectionCache_eq_some (h : Holds json contents db)
    {rows : ProjectionRows json.caches} (hprojections : contents.projections = some rows) :
    db.projectionCache = some rows.texts := by
  rw [h.tables.projections, hprojections, Option.map_some]

/-- A statement on the projection cache, without a table. -/
theorem Holds.projectionCache_eq_none (h : Holds json contents db)
    (hprojections : contents.projections = none) : db.projectionCache = none := by
  rw [h.tables.projections, hprojections, Option.map_none]

/-- A write to the projection cache. -/
theorem Holds.endsIn_writeProjections {rows rows' : ProjectionRows json.caches}
    (h : Holds json contents db) (hprojections : contents.projections = some rows)
    {write : Database τ → Option (Database τ)}
    (hwrite : db.projectionCache = some rows.texts →
      write db = some { db with projectionCache := some rows'.texts }) :
    EndsIn (Process.execute .projectionCache write) db (.ok ())
      (Holds json { contents with projections := some rows' }) := by
  refine ⟨_, Process.exec_execute_of_some (hwrite (h.projectionCache_eq_some hprojections)), ?_,
    rfl, h.tables.derived, h.tables.traces⟩
  exact ⟨h.log.userVersion_eq, h.log.exists_messages⟩

/-- Opening the cache changes nothing on a current file, and a prune without a table is ignored. -/
theorem Holds.endsIn_projectorFor (h : Holds json contents db) (provider : SelectedProvider) :
    EndsIn (Process.projectorFor sql provider) db (.ok ())
      (Holds json (contents.projectorFor provider)) := by
  cases provider with
  | mock => exact EndsIn.pure () h
  | model version =>
    refine EndsIn.bind (h.endsIn_open .projectionCache) fun db₁ h₁ => ?_
    cases hprojections : contents.projections with
    | some rows =>
      have hcontents : contents.projectorFor (.model version) =
          { contents with projections := some (rows.pruneSuperseded version) } := by
        show { contents with projections := contents.projections.map _ } = _
        rw [hprojections, Option.map_some]
      have hprune : db₁.projectionCache = some rows.texts →
          SqliteProjectionCache.pruneSuperseded db₁ version =
            some { db₁ with projectionCache := some (rows.pruneSuperseded version).texts } := by
        intro htable
        unfold SqliteProjectionCache.pruneSuperseded
        rw [htable, rows.texts_pruneSuperseded]
        rfl
      rw [hcontents]
      exact EndsIn.bind (h₁.endsIn_writeProjections hprojections hprune).attempt
        fun _ h₂ => EndsIn.pure () h₂
    | none =>
      have hcontents : contents.projectorFor (.model version) = contents := by
        show { contents with projections := contents.projections.map _ } = _
        rw [hprojections, Option.map_none, ← hprojections]
      have hprune : SqliteProjectionCache.pruneSuperseded db₁ version = none := by
        unfold SqliteProjectionCache.pruneSuperseded
        rw [h₁.projectionCache_eq_none hprojections]
        rfl
      rw [hcontents]
      exact EndsIn.bind (h₁.endsIn_execute_none hprune).attempt fun _ h₂ => EndsIn.pure () h₂

variable (cacheKey : MessageId → String → String)

/-- A message is projected through the table as through its rows. -/
theorem Holds.gives_project (h : Holds json contents db) (version : StepVersion)
    (answers : Answers) (n : ℕ) (message : MessageEnvelope) :
    Gives json (Process.project json cacheKey version answers n message) db
      (contents.project cacheKey version answers n message) := by
  unfold Process.project FileContents.project
  generalize projectionRequest cacheKey version message = request
  cases hprojections : contents.projections with
  | none =>
    have hget : SqliteProjectionCache.get json.caches db request.kind request.version
        request.key = none := by
      unfold SqliteProjectionCache.get
      rw [h.projectionCache_eq_none hprojections]
      rfl
    exact EndsIn.bind_error (h.endsIn_query_none hget)
  | some rows =>
    have hcontents : { contents with projections := some rows } = contents := by
      rw [← hprojections]
    have hget : SqliteProjectionCache.get json.caches db request.kind request.version
        request.key = some (Cache.get rows request) := by
      unfold SqliteProjectionCache.get
      rw [h.projectionCache_eq_some hprojections]
      exact TextCodec.lookup_map_text _ rows.rows _
    refine EndsIn.bind (h.endsIn_query hget) fun db₁ h₁ => ?_
    cases hrow : Cache.get rows request with
    | some projection =>
      simp only [Cached.run_of_hit hrow, hcontents]
      exact EndsIn.pure _ h₁
    | none =>
      cases LlmProjector.run (answers n) message with
      | none =>
        simp only [Cached.run_of_panic hrow, hcontents]
        exact EndsIn.throw _ h₁
      | some projection =>
        have hput : db₁.projectionCache = some rows.texts →
            SqliteProjectionCache.put json.caches db₁ request.kind request.version request.key
                projection =
              some { db₁ with
                projectionCache := some (Cache.put rows request projection).texts } := by
          intro htable
          unfold SqliteProjectionCache.put SqliteProjectionCache.upsert
          rw [htable, rows.texts_put]
          rfl
        simp only [Cached.run_of_miss hrow]
        exact EndsIn.bind (h₁.endsIn_writeProjections hprojections hput)
          fun _ h₂ => EndsIn.pure _ h₂

/-- How the projection of a message ends, and the rows it leaves. -/
theorem FileContents.project_of_some {rows : ProjectionRows json.caches}
    (hprojections : contents.projections = some rows) (version : StepVersion) (answers : Answers)
    (n : ℕ) (message : MessageEnvelope) :
    let run := Cached.run rows (projectionRequest cacheKey version message)
      (LlmProjector.run (answers n) message)
    ∃ ended : Except ProcessFailure Projection, ended.toOption = run.1 ∧
      contents.project cacheKey version answers n message =
        (ended, { contents with projections := some run.2 }) := by
  intro run
  simp only [FileContents.project, hprojections]
  refine ⟨_, ?_, rfl⟩
  show Except.toOption _ = (Cached.run rows _ _).1
  cases (Cached.run rows _ _).1 <;> rfl

/-- The message stage, over the rows of the table. -/
theorem Holds.endsIn_projectAll (version : StepVersion) (answers : Answers)
    (messages : List MessageEnvelope) :
    ∀ n {contents : FileContents json.caches} {rows : ProjectionRows json.caches}
      {db : Database τ}, Holds json contents db → contents.projections = some rows →
        EndsIn (Process.projectAll json cacheKey version answers n messages) db
          (.ok (projectAll cacheKey version answers n messages rows).2)
          (Holds json { contents with
            projections := some (projectAll cacheKey version answers n messages rows).1 }) := by
  induction messages with
  | nil =>
    intro n contents rows db h hprojections
    refine EndsIn.pure [] ?_
    show Holds json { contents with projections := some rows } db
    rwa [← hprojections]
  | cons message messages ih =>
    intro n contents rows db h hprojections
    obtain ⟨ended, hended, hproject⟩ :=
      FileContents.project_of_some cacheKey hprojections version answers n message
    have hgives := h.gives_project cacheKey version answers n message
    rw [hproject] at hgives
    refine EndsIn.bind hgives.attempt fun _ h₁ => ?_
    refine EndsIn.bind (ih (n + 1) h₁ rfl) fun _ h₂ => ?_
    rw [hended]
    exact EndsIn.pure _ h₂

/-- Without the table every projection fails. -/
theorem Holds.endsIn_projectAll_none (hprojections : contents.projections = none)
    (version : StepVersion) (answers : Answers) (messages : List MessageEnvelope) :
    ∀ n {db : Database τ}, Holds json contents db →
      EndsIn (Process.projectAll json cacheKey version answers n messages) db
        (.ok (messages.map fun message => (message, none))) (Holds json contents) := by
  induction messages with
  | nil => exact fun n db h => EndsIn.pure [] h
  | cons message messages ih =>
    intro n db h
    have hproject : contents.project cacheKey version answers n message =
        (.error (.statement .projectionCache), contents) := by
      simp only [FileContents.project, hprojections]
    have hgives := h.gives_project cacheKey version answers n message
    rw [hproject] at hgives
    refine EndsIn.bind hgives.attempt fun _ h₁ => ?_
    exact EndsIn.bind (ih (n + 1) h₁) fun _ h₂ => EndsIn.pure _ h₂

variable {cacheKey} {ports : StrategyContext}

theorem Holds.gives_buildStrategy (h : Holds json contents db) (id : String) :
    Gives json (Process.buildStrategy ports id) db (contents.buildStrategy ports id) := by
  unfold Process.buildStrategy FileContents.buildStrategy
  cases StrategyRegistry.withBuiltins.build id ports with
  | ok strategy => exact EndsIn.pure strategy h
  | error unknown => exact EndsIn.throw _ h

/-- The run of a strategy. -/
theorem Holds.endsIn_runStrategy (h : Holds json contents db) (provider : SelectedProvider)
    (calls : ModelCalls) (id : String) (strategy : ReplayStrategy) :
    let ran := contents.runStrategy cacheKey ports provider calls id strategy
    EndsIn (Process.runStrategy json sql cacheKey ports provider calls id strategy) db (.ok ran.1)
      (Holds json ran.2) := by
  intro ran
  refine EndsIn.bind h.endsIn_readLog fun _ h₁ => ?_
  cases provider with
  | mock => exact EndsIn.pure _ h₁
  | model version =>
    by_cases hid : id = StrategyRegistry.default
    · simp only [hid, if_true]
      let messages := (calls.schedule contents.log).messages
      cases hprojections : contents.projections with
      | some rows =>
        let projected := projectAll cacheKey version calls.answers 0 messages rows
        have hran : ran = (runStages ports (calls.schedule contents.log)
            (projected.2.foldl storeProjected .empty),
              { contents with projections := some projected.1 }) := by
          simp only [ran, FileContents.runStrategy, hid, if_true, hprojections]
          rfl
        rw [hran]
        have hstage := h₁.endsIn_projectAll cacheKey version calls.answers messages 0 hprojections
        exact EndsIn.bind hstage fun _ h₂ => EndsIn.pure _ h₂
      | none =>
        have hran : ran = (runPhases (ports.failing fun _ => true) contents.log, contents) := by
          simp only [ran, FileContents.runStrategy, hid, if_true, hprojections]
        rw [hran, ← runStages_empty ports (calls.delivers contents.log)]
        refine EndsIn.bind (Holds.endsIn_projectAll_none cacheKey hprojections version calls.answers
          messages 0 h₁) fun _ h₂ => ?_
        have hfailed : (messages.map fun message => (message, (none : Option Projection))).foldl
            storeProjected .empty = .empty := by
          have hnil : (messages.map fun message => (message, (none : Option Projection))).filterMap
              Prod.snd = [] := by
            rw [List.filterMap_map]
            exact List.filterMap_eq_nil_iff.mpr fun _ _ => rfl
          rw [CachedRun.foldl_storeProjected, hnil, UpsertStore.upsertAll_nil]
        rw [hfailed]
        exact EndsIn.pure _ h₂
    · have hran : ran = (strategy contents.log, contents) := if_neg hid
      rw [hran]
      simp only [hid, if_false]
      exact EndsIn.pure _ h₁

/-! ### The derived-output cache -/

theorem Holds.derivedOutputCache_eq_some (h : Holds json contents db)
    {cache : DerivedRows json.caches} (hderived : contents.derived = some cache) :
    db.derivedOutputCache = some cache.texts := by
  rw [h.tables.derived, hderived, Option.map_some]

/-- A statement on the derived-output cache, without a table. -/
theorem Holds.derivedOutputCache_eq_none (h : Holds json contents db)
    (hderived : contents.derived = none) : db.derivedOutputCache = none := by
  rw [h.tables.derived, hderived, Option.map_none]

theorem Holds.endsIn_getDerivation {cache : DerivedRows json.caches} (h : Holds json contents db)
    (hderived : contents.derived = some cache) (v : StepVersion) (c : ConversationId)
    (content : String) :
    EndsIn (Process.getDerivation json v c content) db
      (.ok (DerivedOutputCache.get cache v c content)) (Holds json contents) := by
  refine h.endsIn_query ?_
  unfold SqliteDerivedOutputCache.get
  rw [h.derivedOutputCache_eq_some hderived]
  exact TextCodec.lookup_map_text _ cache.rows _

theorem Holds.endsIn_getDerivation_none (h : Holds json contents db)
    (hderived : contents.derived = none) (v : StepVersion) (c : ConversationId)
    (content : String) :
    EndsIn (Process.getDerivation json v c content) db (.error (.statement .derivedOutputCache))
      (Holds json contents) := by
  refine h.endsIn_query_none ?_
  unfold SqliteDerivedOutputCache.get
  rw [h.derivedOutputCache_eq_none hderived]
  rfl

/-- Putting an entry and reclaiming what it supersedes are two statements. -/
theorem Holds.endsIn_put {cache : DerivedRows json.caches} (h : Holds json contents db)
    (hderived : contents.derived = some cache) (v : StepVersion) (entry : CacheEntry) :
    EndsIn (Process.execute .derivedOutputCache fun db =>
        SqliteDerivedOutputCache.put json.caches db v entry.conversation entry.content
          entry.derivation) db
      (.ok ()) fun db' => Holds json { contents with derived := some (putEntry v cache entry) }
        (SqliteDerivedOutputCache.reclaimSuperseded db' entry.conversation v entry.content) := by
  have hput : SqliteDerivedOutputCache.put json.caches db v entry.conversation entry.content
      entry.derivation = some { db with derivedOutputCache := some (DerivedOutputCache.put cache v
        entry.conversation entry.content entry.derivation).texts } := by
    unfold SqliteDerivedOutputCache.put SqliteDerivedOutputCache.upsert
    rw [h.derivedOutputCache_eq_some hderived, cache.texts_put]
    rfl
  refine ⟨_, Process.exec_execute_of_some hput, ?_, h.tables.projections, ?_, h.tables.traces⟩
  · exact ⟨h.log.userVersion_eq, h.log.exists_messages⟩
  · exact congrArg some (DerivedRows.texts_pruneSuperseded _ _ _ _).symm

theorem Holds.endsIn_putEntries (v : StepVersion) (entries : List CacheEntry) :
    ∀ {contents : FileContents json.caches} {cache : DerivedRows json.caches} {db : Database τ},
      Holds json contents db → contents.derived = some cache →
      EndsIn (Process.putEntries json v entries) db (.ok (entries.map CacheEntry.derivation))
        (Holds json { contents with derived := some (entries.foldl (putEntry v) cache) }) := by
  induction entries with
  | nil =>
    intro contents cache db h hderived
    refine EndsIn.pure [] ?_
    rw [List.foldl_nil, ← hderived]
    exact h
  | cons entry entries ih =>
    intro contents cache db h hderived
    refine EndsIn.bind (h.endsIn_put hderived v entry) fun db₁ h₁ => ?_
    refine EndsIn.bind (P := Holds json { contents with
      derived := some (putEntry v cache entry) }) ⟨_, rfl, h₁⟩ fun db₂ h₂ => ?_
    exact EndsIn.bind (ih h₂ rfl) fun db₃ h₃ => EndsIn.pure _ h₃

/-- Without the table the first put fails, and nothing was written. -/
theorem Holds.endsIn_putEntries_none (h : Holds json contents db)
    (hderived : contents.derived = none) (v : StepVersion) (entries : List CacheEntry) :
    EndsIn (Process.putEntries json v entries) db
      (if entries.isEmpty then .ok [] else .error (.statement .derivedOutputCache))
      (Holds json contents) := by
  cases entries with
  | nil => exact EndsIn.pure [] h
  | cons entry entries =>
    refine EndsIn.bind_error (h.endsIn_execute_none ?_)
    unfold SqliteDerivedOutputCache.put SqliteDerivedOutputCache.upsert
    rw [h.derivedOutputCache_eq_none hderived]
    rfl

end Statements

end Mirrorlane
