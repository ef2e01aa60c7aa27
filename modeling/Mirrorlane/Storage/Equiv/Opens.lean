import Mirrorlane.Storage.DatabaseFile
import Mirrorlane.Storage.Equiv.MessagesTable

/-!
# Which opens find their table

The stores migrate independently but gate on one header version, so the first open decides the
file: `Shape` says what any history leaves.  After the first open has stamped the version every
other store skips the step that would create its table and returns `Ok` without one; only the
message log has a second step, which then fails.

## Main results

* `init_sameTable`: an open changes no table of another store
* `shape_applyAll`
* `opensReady_iff`
-/

namespace Mirrorlane

variable {τ : Type} (sql : OrderBy)

namespace StoreKind

/-! ### Frame -/

/-- A schema step of a store changes no table of another store. -/
theorem commit_sameTable {kind other : StoreKind} (hne : other ≠ kind) {step : Step τ}
    (hstep : step ∈ kind.steps sql) {next : ℕ} {db db' : Database τ}
    (h : step.commit next db = some db') : other.SameTable db db' := by
  obtain ⟨db₁, hdb₁, rfl⟩ := Option.map_eq_some_iff.mp h
  cases kind with
  | messages =>
    simp only [steps, SqliteMessageStore.steps, List.mem_cons, List.not_mem_nil, or_false] at hstep
    rcases hstep with rfl | rfl
    · rw [SqliteMessageStore.stepV1, Option.some.injEq] at hdb₁
      subst hdb₁
      cases other <;> first | exact absurd rfl hne | rfl
    · -- the rebuild drops and renames tables, but only `messages` and `messages_v2`
      obtain ⟨t, t', -, -, rfl⟩ := SqliteMessageStore.stepV2_eq_some hdb₁
      cases other <;> first | exact absurd rfl hne | rfl
  | projectionCache =>
    obtain rfl := List.mem_singleton.mp hstep
    obtain rfl := Option.some.inj hdb₁
    cases other <;> first | exact absurd rfl hne | rfl
  | derivedOutputCache =>
    obtain rfl := List.mem_singleton.mp hstep
    obtain rfl := Option.some.inj hdb₁
    cases other <;> first | exact absurd rfl hne | rfl
  | routingTraces =>
    obtain rfl := List.mem_singleton.mp hstep
    obtain rfl := Option.some.inj hdb₁
    cases other <;> first | exact absurd rfl hne | rfl

theorem SameTable.refl (kind : StoreKind) (db : Database τ) : kind.SameTable db db := by
  cases kind <;> rfl

theorem SameTable.trans {kind : StoreKind} {db db' db'' : Database τ}
    (h : kind.SameTable db db') (h' : kind.SameTable db' db'') : kind.SameTable db db'' := by
  cases kind <;> exact Eq.trans h' h

/-- **No open changes a table of another store**, whatever the file holds and whether or not it
returns `Ok`. -/
theorem init_sameTable {kind other : StoreKind} (hne : other ≠ kind) (db : Database τ) :
    other.SameTable db (kind.init sql db).1 :=
  migrateFrom_keeps (P := fun db' => other.SameTable db db')
    (fun _ hstep _ _ _ hP hcommit => hP.trans (commit_sameTable sql hne hstep hcommit))
    (SameTable.refl other db)

end StoreKind

/-! ### What a history leaves -/

/-- What a file looks like, given the store that was opened first on it. -/
def Shape : Option StoreKind → Database τ → Prop
  | none, db => db.userVersion = 0 ∧ ∀ kind : StoreKind, kind.present db = false
  | some first, db => db.userVersion = (first.steps (τ := τ) sql).length ∧
    first.ready db = true ∧ ∀ kind ≠ first, kind.present db = false

/-- Both files have the same header version and the same tables, up to their rows. -/
structure SameSchema (db db' : Database τ) : Prop where
  userVersion_eq : db'.userVersion = db.userVersion
  present_eq : ∀ kind : StoreKind, kind.present db' = kind.present db
  ready_eq : ∀ kind : StoreKind, kind.ready db' = kind.ready db

variable {sql}

theorem Shape.of_sameSchema {first : Option StoreKind} {db db' : Database τ}
    (h : Shape sql first db) (hs : SameSchema db db') : Shape sql first db' := by
  cases first with
  | none => exact ⟨hs.userVersion_eq.trans h.1, fun kind => (hs.present_eq kind).trans (h.2 kind)⟩
  | some first =>
    exact ⟨hs.userVersion_eq.trans h.1, (hs.ready_eq first).trans h.2.1,
      fun kind hne => (hs.present_eq kind).trans (h.2.2 kind hne)⟩

theorem shape_empty : Shape sql none (Database.empty : Database τ) :=
  ⟨rfl, fun kind => by cases kind <;> rfl⟩

/-- A statement on one table that keeps its schema. -/
theorem SameSchema.orKeep {db : Database τ} {result : Option (Database τ)}
    (h : ∀ db', result = some db' → SameSchema db db') :
    SameSchema db (FileOp.orKeep db result) := by
  cases hr : result with
  | none => exact ⟨rfl, fun _ => rfl, fun _ => rfl⟩
  | some db' => exact h db' hr

theorem sameSchema_messages {db : Database τ} {t t' : MessagesTable τ} (h : db.messages = some t)
    (huniq : t'.seqUnique = t.seqUnique) : SameSchema db { db with messages := some t' } := by
  refine ⟨rfl, fun kind => ?_, fun kind => ?_⟩ <;> cases kind <;>
    simp [StoreKind.present, StoreKind.ready, h, huniq]

/-- A statement on a table whose schema has a single version: it is there afterwards as before. -/
theorem SameSchema.of_tables {db db' : Database τ} (hversion : db'.userVersion = db.userVersion)
    (hmessages : db'.messages = db.messages)
    (hprojections : db'.projectionCache.isSome = db.projectionCache.isSome)
    (hderived : db'.derivedOutputCache.isSome = db.derivedOutputCache.isSome)
    (htraces : db'.routingTraces.isSome = db.routingTraces.isSome) : SameSchema db db' := by
  have hpresent : ∀ kind : StoreKind, kind.present db' = kind.present db := fun kind => by
    cases kind with
    | messages => exact congrArg Option.isSome hmessages
    | projectionCache => exact hprojections
    | derivedOutputCache => exact hderived
    | routingTraces => exact htraces
  refine ⟨hversion, hpresent, fun kind => ?_⟩
  cases kind with
  | messages => exact congrArg (Option.any MessagesTable.seqUnique) hmessages
  | projectionCache => exact hprojections
  | derivedOutputCache => exact hderived
  | routingTraces => exact htraces

/-- **A write keeps the schema.** -/
theorem sameSchema_apply (sql : OrderBy) (db : Database τ) {op : FileOp τ} (h : op.opened = none) :
    SameSchema db (op.apply sql db) := by
  cases op with
  | openStore kind => simp [FileOp.opened] at h
  | append id payload =>
    refine SameSchema.orKeep fun db' hdb' => ?_
    obtain ⟨t, t', ht, hup, rfl⟩ := SqliteMessageStore.upsert_eq_some hdb'
    exact sameSchema_messages ht (MessagesTable.seqUnique_of_upsert hup)
  | putProjection version key value =>
    refine SameSchema.orKeep fun db' hdb' => ?_
    obtain ⟨cache, hcache, hdb'⟩ := Option.bind_eq_some_iff.mp hdb'
    rw [← Option.some.inj hdb']
    exact .of_tables rfl rfl (Option.isSome_of_mem hcache).symm rfl rfl
  | pruneProjections keepVersion =>
    refine SameSchema.orKeep fun db' hdb' => ?_
    obtain ⟨cache, hcache, hdb'⟩ := Option.bind_eq_some_iff.mp hdb'
    rw [← Option.some.inj hdb']
    exact .of_tables rfl rfl (Option.isSome_of_mem hcache).symm rfl rfl
  | putDerivation version conversation content value =>
    refine SameSchema.orKeep fun db' hdb' => ?_
    obtain ⟨rows, hrows, hdb'⟩ := Option.bind_eq_some_iff.mp hdb'
    rw [← Option.some.inj hdb']
    exact .of_tables rfl rfl rfl (Option.isSome_of_mem hrows).symm rfl
  | reclaimDerivations conversation keepVersion keepContent =>
    rw [FileOp.apply, SqliteDerivedOutputCache.reclaimSuperseded]
    cases hrows : db.derivedOutputCache with
    | none => exact ⟨rfl, fun _ => rfl, fun _ => rfl⟩
    | some rows => exact .of_tables rfl rfl rfl (Option.isSome_of_mem hrows).symm rfl
  | upsertTrace maxTraces trace =>
    refine SameSchema.orKeep fun db' hdb' => ?_
    obtain ⟨rows, hrows, hdb'⟩ := Option.bind_eq_some_iff.mp hdb'
    rw [← Option.some.inj hdb']
    exact .of_tables rfl rfl rfl rfl (Option.isSome_of_mem hrows).symm

/-! ### Opens -/

/-- The first open of a file creates its table. -/
theorem init_of_shape_none {db : Database τ} (h : Shape sql none db) (kind : StoreKind) :
    (kind.init sql db).2 = true ∧ Shape sql (some kind) (kind.init sql db).1 := by
  obtain ⟨hversion, habsent⟩ := h
  have hm : db.messages.isSome = false := habsent .messages
  have hp : db.projectionCache.isSome = false := habsent .projectionCache
  have hd : db.derivedOutputCache.isSome = false := habsent .derivedOutputCache
  have hr : db.routingTraces.isSome = false := habsent .routingTraces
  have hother : ∀ other ≠ kind, other.present (kind.init sql db).1 = false := fun other hne => by
    have hsame := StoreKind.init_sameTable sql hne db
    cases other
    · exact (congrArg Option.isSome hsame).trans hm
    · exact (congrArg Option.isSome hsame).trans hp
    · exact (congrArg Option.isSome hsame).trans hd
    · exact (congrArg Option.isSome hsame).trans hr
  cases kind with
  | messages =>
    -- v1 creates the table and v2 rebuilds it with the constraint
    obtain ⟨t, hrebuild, -, huniq⟩ :=
      MessagesTable.exists_rebuild_eq_some sql (db.messages.getD (.create false))
    have hinit : StoreKind.init sql .messages db =
        ({ db with userVersion := 2, messages := some t }, true) := by
      simp [StoreKind.init, migrate, StoreKind.steps, SqliteMessageStore.steps, migrateFrom,
        Step.commit, SqliteMessageStore.stepV1, SqliteMessageStore.stepV2, hversion, hrebuild]
    rw [hinit] at hother ⊢
    exact ⟨rfl, rfl, huniq, hother⟩
  | projectionCache =>
    have hinit : StoreKind.init sql .projectionCache db = ({ db with
        userVersion := 1, projectionCache := some (db.projectionCache.getD .empty) }, true) :=
      migrate_singleton SqliteProjectionCache.stepV1 hversion rfl
    rw [hinit] at hother ⊢
    exact ⟨rfl, rfl, rfl, hother⟩
  | derivedOutputCache =>
    have hinit : StoreKind.init sql .derivedOutputCache db = ({ db with
        userVersion := 1, derivedOutputCache := some (db.derivedOutputCache.getD .empty) },
        true) :=
      migrate_singleton SqliteDerivedOutputCache.stepV1 hversion rfl
    rw [hinit] at hother ⊢
    exact ⟨rfl, rfl, rfl, hother⟩
  | routingTraces =>
    have hinit : StoreKind.init sql .routingTraces db = ({ db with
        userVersion := 1, routingTraces := some (db.routingTraces.getD []) }, true) :=
      migrate_singleton SqliteRoutingTraceStore.stepV1 hversion rfl
    rw [hinit] at hother ⊢
    exact ⟨rfl, rfl, rfl, hother⟩

/-- A later open changes nothing: every step that an equally long migration would run is skipped,
and the message log, on a file of another store, finds no table to rebuild. -/
theorem init_of_shape_some {first : StoreKind} {db : Database τ} (h : Shape sql (some first) db)
    (kind : StoreKind) :
    kind.init sql db = (db, !decide (kind = .messages ∧ first ≠ .messages)) := by
  obtain ⟨hversion, -, habsent⟩ := h
  by_cases hk : kind = .messages ∧ first ≠ .messages
  · -- v1 is skipped, and v2 reads a table that v1 did not create
    obtain ⟨rfl, hfirst⟩ := hk
    have hm : db.messages = none := by
      have hpresent : db.messages.isSome = false := habsent .messages hfirst.symm
      simpa using hpresent
    have hone : db.userVersion = 1 := by
      rw [hversion]
      cases first
      · exact absurd rfl hfirst
      all_goals rfl
    simp [StoreKind.init, migrate, StoreKind.steps, SqliteMessageStore.steps, migrateFrom,
      Step.commit, SqliteMessageStore.stepV2, hone, hm, hfirst]
  · -- no step is run, whether or not the store's table exists
    have hlen : (kind.steps (τ := τ) sql).length ≤ (first.steps (τ := τ) sql).length := by
      cases kind <;> cases first <;> simp_all [StoreKind.steps, SqliteMessageStore.steps,
        SqliteProjectionCache.steps, SqliteDerivedOutputCache.steps, SqliteRoutingTraceStore.steps]
    unfold StoreKind.init
    rw [migrate_of_length_le (hversion ▸ hlen)]
    simp [hk]

/-! ### Histories -/

theorem shape_apply {first : Option StoreKind} {db : Database τ} (h : Shape sql first db)
    (op : FileOp τ) : Shape sql (first.or op.opened) (op.apply sql db) := by
  cases hop : op.opened with
  | none =>
    rw [Option.or_none]
    exact h.of_sameSchema (sameSchema_apply sql db hop)
  | some kind =>
    obtain ⟨rfl⟩ : op = .openStore kind := by cases op <;> simp_all [FileOp.opened]
    cases first with
    | none => exact (init_of_shape_none h kind).2
    | some first =>
      rw [FileOp.apply, init_of_shape_some h kind]
      exact h

/-- **What a history leaves** is decided by the store it opens first. -/
theorem shape_applyAll {first : Option StoreKind} {db : Database τ} (h : Shape sql first db)
    (ops : List (FileOp τ)) :
    Shape sql (first.or (FileOp.opens ops).head?) (FileOp.applyAll sql db ops) := by
  induction ops generalizing first db with
  | nil => simpa [FileOp.opens, FileOp.applyAll] using h
  | cons op ops ih =>
    have hstep := ih (shape_apply h op)
    rw [Option.or_assoc] at hstep
    cases hop : op.opened with
    | none => simpa [FileOp.opens, FileOp.applyAll, hop] using hstep
    | some kind => simpa [FileOp.opens, FileOp.applyAll, hop] using hstep

/-- Every open that returns `Ok` leaves its own table present in its current schema, from then on
whatever follows; and no open changes a table of another store. -/
def OpensReady (sql : OrderBy) (ops : List (FileOp τ)) : Prop :=
  ∀ pre kind post, ops = pre ++ .openStore kind :: post →
    let db := FileOp.applyAll sql .empty pre
    ((kind.init sql db).2 = true → ∀ mid rest, post = mid ++ rest →
      kind.ready (FileOp.applyAll sql (kind.init sql db).1 mid) = true) ∧
    ∀ other ≠ kind, other.SameTable db (kind.init sql db).1

/-- The shape of the file after some operations: that of the store it was opened as first. -/
theorem shape_applyAll_empty (sql : OrderBy) (pre : List (FileOp τ)) :
    Shape sql (FileOp.opens pre).head? (FileOp.applyAll sql .empty pre) := by
  simpa using shape_applyAll shape_empty pre

theorem opens_append_openStore (pre post : List (FileOp τ)) (kind : StoreKind) :
    FileOp.opens (pre ++ .openStore kind :: post) =
      FileOp.opens pre ++ kind :: FileOp.opens post := by
  simp [FileOp.opens, FileOp.opened]

/-- An open of another store than the first one is ready only where it fails. -/
theorem head?_opens_of_opensReady {sql : OrderBy} {ops : List (FileOp τ)} (h : OpensReady sql ops)
    {kind : StoreKind} (hkind : kind ∈ FileOp.opens ops) :
    kind = .messages ∨ (FileOp.opens ops).head? = some kind := by
  obtain ⟨op, hop, hopened⟩ := List.mem_filterMap.mp hkind
  obtain ⟨rfl⟩ : op = .openStore kind := by cases op <;> simp_all [FileOp.opened]
  obtain ⟨pre, post, rfl⟩ := List.append_of_mem hop
  rw [opens_append_openStore]
  have hpre := shape_applyAll_empty sql pre
  cases hfirst : (FileOp.opens pre).head? with
  | none =>
    rw [List.head?_eq_none_iff] at hfirst
    simp [hfirst]
  | some first =>
    rw [hfirst] at hpre
    by_cases hk : kind = .messages
    · exact Or.inl hk
    · -- the open returned `Ok` without running a step
      right
      have hready := (h pre kind post rfl).1
      rw [init_of_shape_some hpre kind] at hready
      have hpresent := StoreKind.present_of_ready (hready (by simp [hk]) [] post rfl)
      have heq : kind = first := by
        by_contra hne
        rw [FileOp.applyAll, List.foldl_nil, hpre.2.2 kind hne] at hpresent
        exact absurd hpresent Bool.false_ne_true
      rw [List.head?_append, hfirst, heq]
      rfl

/-- Where every open is of the first store, or fails, the shape the first one makes lasts. -/
theorem opensReady_of_head?_opens {sql : OrderBy} {ops : List (FileOp τ)}
    (h : ∀ kind ∈ FileOp.opens ops,
      kind = .messages ∨ (FileOp.opens ops).head? = some kind) :
    OpensReady sql ops := by
  rintro pre kind post rfl
  refine ⟨fun hok mid rest hpost => ?_, fun other hne => StoreKind.init_sameTable sql hne _⟩
  have hpre := shape_applyAll_empty sql pre
  have hkind := h kind (by simp [opens_append_openStore])
  rw [opens_append_openStore, List.head?_append] at hkind
  cases hfirst : (FileOp.opens pre).head? with
  | none =>
    rw [hfirst] at hpre
    exact (shape_applyAll (init_of_shape_none hpre kind).2 mid).2.1
  | some first =>
    rw [hfirst] at hpre hkind
    rw [init_of_shape_some hpre kind] at hok ⊢
    have heq : first = kind := by
      rcases hkind with rfl | hkind
      · -- the message log on a file of another store does not return `Ok`
        by_contra hne
        simp [hne] at hok
      · exact Option.some.inj hkind
    subst heq
    exact (shape_applyAll hpre mid).2.1

/-- **When the stores of a file are usable.** Exactly when the file is only ever opened as the
store it was opened as first, or as the message log, whose open then fails. -/
theorem opensReady_iff (sql : OrderBy) (ops : List (FileOp τ)) :
    OpensReady sql ops ↔
      ∀ kind ∈ FileOp.opens ops, kind = .messages ∨ (FileOp.opens ops).head? = some kind :=
  ⟨fun h _ hkind => head?_opens_of_opensReady h hkind, opensReady_of_head?_opens⟩

/-- The message log and then the trace store, as the command line opens them on a new file: both
opens return `Ok`, and the second leaves no table. -/
theorem opens_message_then_trace :
    let db := (StoreKind.init .insertionSort .messages (Database.empty : Database String)).1
    (StoreKind.init .insertionSort .messages (Database.empty : Database String)).2 = true ∧
      (StoreKind.init .insertionSort .routingTraces db).2 = true ∧
      StoreKind.ready (StoreKind.init .insertionSort .routingTraces db).1 .routingTraces = false ∧
      ¬OpensReady (τ := String) .insertionSort
        [.openStore .messages, .openStore .routingTraces] := by
  refine ⟨rfl, rfl, rfl, fun h => ?_⟩
  exact absurd ((h [.openStore .messages] .routingTraces [] rfl).1 rfl [] [] rfl) Bool.false_ne_true

end Mirrorlane
