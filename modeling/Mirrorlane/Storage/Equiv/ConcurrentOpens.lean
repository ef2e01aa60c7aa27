import Mirrorlane.Storage.Connections
import Mirrorlane.Storage.Equiv.MessagesTable

/-!
# No append is lost or reordered

The version check of an open is outside its transactions, so a stale opener runs the table rebuild
again and even moves the header version back.  The invariant has two phases.

* `Unbuilt`: no connection has committed the rebuild yet.  Every connection in the middle of an open
  is at step 0 or 1, none has opened, and the rows are the legacy rows as they were.
* `Built`: the table represents the legacy rows, in an order of their old sequence numbers, with
  the appends of the run upserted.  Every step of every opener keeps that, whatever version it read.

## Main results

* `phase_of_run`: every reachable state is in one of the phases
* `appends_kept`
-/

namespace Mirrorlane

namespace Connections

variable {ι τ : Type} (sql : OrderBy)

/-- The rows of a file that was written before the rebuild. -/
def legacyRows (db : Database τ) : List (MessageRow τ) :=
  (db.messages.map MessagesTable.rows).getD []

/-- The legacy entries in the order the rebuild numbers them. -/
def legacyEntries (db : Database τ) : List (MessageId × τ) :=
  (sql.orderBy MessageRow.seq (legacyRows db)).map MessagesTable.entryOf

/-! ### Schema steps -/

theorem step_of_getElem? {next : ℕ} {step : Step τ}
    (h : (SqliteMessageStore.steps sql)[next]? = some step) :
    next = 0 ∧ step = SqliteMessageStore.stepV1 ∨
      next = 1 ∧ step = SqliteMessageStore.stepV2 sql := by
  match next with
  | 0 => exact Or.inl ⟨rfl, (Option.some.inj h).symm⟩
  | 1 => exact Or.inr ⟨rfl, (Option.some.inj h).symm⟩
  | n + 2 => simp [SqliteMessageStore.steps] at h

theorem stepV1_commit {db db' : Database τ} {next : ℕ}
    (h : Step.commit SqliteMessageStore.stepV1 next db = some db') :
    db'.userVersion = next ∧ db'.messages = some (db.messages.getD (.create false)) := by
  simp only [Step.commit, SqliteMessageStore.stepV1, Option.map_some, Option.some.injEq] at h
  subst h
  exact ⟨rfl, rfl⟩

theorem stepV2_commit {sql : OrderBy} {db db' : Database τ} {next : ℕ}
    (h : Step.commit (SqliteMessageStore.stepV2 sql) next db = some db') :
    ∃ t t', db.messages = some t ∧ t.rebuild sql = some t' ∧ db'.messages = some t' := by
  obtain ⟨db₁, hstep, rfl⟩ := Option.map_eq_some_iff.mp h
  obtain ⟨t, t', ht, ht', rfl⟩ := SqliteMessageStore.stepV2_eq_some hstep
  exact ⟨t, t', ht, ht', rfl⟩

theorem legacyRows_stepV1 {db db' : Database τ} {next : ℕ}
    (h : Step.commit SqliteMessageStore.stepV1 next db = some db') :
    legacyRows db' = legacyRows db := by
  unfold legacyRows
  rw [(stepV1_commit h).2]
  cases db.messages <;> rfl

/-! ### The two phases -/

/-- No connection has committed the rebuild. -/
structure Unbuilt (db₀ : Database τ) (appended : List (MessageId × τ)) (s : Connections ι τ) :
    Prop where
  appended_eq : appended = []
  userVersion_le : s.db.userVersion ≤ 1
  legacyRows_eq : legacyRows s.db = legacyRows db₀
  not_opened : ∀ i, s.connections i ≠ .opened
  opening_le : ∀ i current next, s.connections i = .opening current next → current ≤ 1 ∧ next ≤ 1

/-- The table is the renumbered legacy rows with the appends upserted. -/
def Built (db₀ : Database τ) (appended : List (MessageId × τ)) (s : Connections ι τ) : Prop :=
  ∃ t, s.db.messages = some t ∧
    t.Represents (upsertAll Prod.fst appended (legacyEntries sql db₀))

/-- A run is in one of the phases. -/
def Phase (db₀ : Database τ) (appended : List (MessageId × τ)) (s : Connections ι τ) : Prop :=
  Unbuilt db₀ appended s ∨ Built sql db₀ appended s

variable {sql} {db₀ : Database τ} {appended : List (MessageId × τ)} {s : Connections ι τ}

/-- The first rebuild starts the second phase. -/
theorem Unbuilt.rebuilt (h : Unbuilt db₀ appended s) {db' : Database τ} {next : ℕ}
    {connections : ι → Connection}
    (hcommit : Step.commit (SqliteMessageStore.stepV2 sql) next s.db = some db') :
    Built sql db₀ appended ⟨db', connections⟩ := by
  obtain ⟨t, t', ht, hrebuild, ht'⟩ := stepV2_commit hcommit
  obtain ⟨t'', hrebuild', hrep, -⟩ := MessagesTable.exists_rebuild_eq_some sql t
  have hrows : t.rows = legacyRows db₀ := by
    rw [← h.legacyRows_eq, legacyRows, ht]
    rfl
  rw [hrebuild, Option.some.injEq] at hrebuild'
  subst hrebuild'
  refine ⟨t', ht', ?_⟩
  rw [h.appended_eq, upsertAll_nil, legacyEntries, ← hrows]
  exact hrep

/-- Any schema step keeps the second phase, also one decided on a stale version. -/
theorem Built.committed (h : Built sql db₀ appended s) {db' : Database τ} {next : ℕ}
    {step : Step τ} {connections : ι → Connection}
    (hstep : (SqliteMessageStore.steps sql)[next]? = some step)
    (hcommit : step.commit (next + 1) s.db = some db') :
    Built sql db₀ appended ⟨db', connections⟩ := by
  obtain ⟨t, ht, hrep⟩ := h
  rcases step_of_getElem? sql hstep with ⟨-, rfl⟩ | ⟨-, rfl⟩
  · -- v1 finds the table and leaves it
    refine ⟨t, ?_, hrep⟩
    rw [(stepV1_commit hcommit).2, ht, Option.getD_some]
  · -- v2 renumbers rows that are numbered without gaps already
    obtain ⟨t₁, t', ht₁, hrebuild, ht'⟩ := stepV2_commit hcommit
    obtain ⟨t'', hrebuild', hrep', -⟩ := hrep.exists_rebuild sql
    rw [ht, Option.some.injEq] at ht₁
    subst ht₁
    rw [hrebuild, Option.some.injEq] at hrebuild'
    subst hrebuild'
    exact ⟨t', ht', hrep'⟩

theorem Built.upserted (h : Built sql db₀ appended s) {db' : Database τ} {id : MessageId}
    {payload : τ} {connections : ι → Connection}
    (hupsert : SqliteMessageStore.upsert s.db id payload = some db') :
    Built sql db₀ (appended ++ [(id, payload)]) ⟨db', connections⟩ := by
  obtain ⟨t, ht, hrep⟩ := h
  obtain ⟨t₁, t', ht₁, hup, rfl⟩ := SqliteMessageStore.upsert_eq_some hupsert
  obtain ⟨t'', hup', hrep', -⟩ := hrep.exists_upsert_eq_some id payload
  rw [ht, Option.some.injEq] at ht₁
  subst ht₁
  rw [hup, Option.some.injEq] at hup'
  subst hup'
  refine ⟨t', rfl, ?_⟩
  rw [upsertAll_append]
  exact hrep'

variable [DecidableEq ι]

/-- A connection moves inside the first phase. -/
theorem Unbuilt.moved (h : Unbuilt db₀ appended s) {db' : Database τ} {i : ι} {c : Connection}
    (hversion : db'.userVersion ≤ 1) (hrows : legacyRows db' = legacyRows s.db)
    (hopened : c ≠ .opened)
    (hle : ∀ current next, c = .opening current next → current ≤ 1 ∧ next ≤ 1) :
    Unbuilt db₀ appended ⟨db', s.moved i c⟩ where
  appended_eq := h.appended_eq
  userVersion_le := hversion
  legacyRows_eq := hrows.trans h.legacyRows_eq
  not_opened j := by
    by_cases hj : j = i
    · subst hj
      simpa [Connections.moved] using hopened
    · simpa [Connections.moved, hj] using h.not_opened j
  opening_le j current next hc := by
    by_cases hj : j = i
    · subst hj
      exact hle current next (by simpa [Connections.moved] using hc)
    · exact h.opening_le j current next (by simpa [Connections.moved, hj] using hc)

/-- **One step keeps the phases.** -/
theorem phase_step {events : List (ConnectionEvent ι τ)} {s' : Connections ι τ}
    {e : ConnectionEvent ι τ} (h : Phase sql db₀ (appends events) s) (hmove : Move sql s e s') :
    Phase sql db₀ (appends (events ++ [e])) s' := by
  rw [appends_append, show appends [e] = Connections.appended e from List.flatMap_singleton _ _]
  -- one case for each atomic step; only an append extends the appends of the run
  cases hmove <;> simp only [Connections.appended, List.append_nil]
  case readVersion i hi =>
    rcases h with h | h
    · refine Or.inl (h.moved h.userVersion_le rfl (by simp) ?_)
      intro current next hc
      rw [Connection.opening.injEq] at hc
      exact ⟨hc.1 ▸ h.userVersion_le, by omega⟩
    · exact Or.inr h
  case skip i current next hi hnext hskip =>
    rcases h with h | h
    · refine Or.inl (h.moved h.userVersion_le rfl (by simp) ?_)
      intro current' next' hc
      rw [Connection.opening.injEq] at hc
      have hle := h.opening_le _ _ _ hi
      omega
    · exact Or.inr h
  case commit i current next step db' hi hstep hskip hcommit =>
    rcases h with h | h
    · -- committing v1 stays in the first phase, committing v2 starts the second
      rcases step_of_getElem? sql hstep with ⟨rfl, rfl⟩ | ⟨rfl, rfl⟩
      · refine Or.inl (h.moved (stepV1_commit hcommit).1.le (legacyRows_stepV1 hcommit)
          (by simp) ?_)
        intro current' next' hc
        rw [Connection.opening.injEq] at hc
        have hle := h.opening_le _ _ _ hi
        omega
      · exact Or.inr (h.rebuilt hcommit)
    · exact Or.inr (h.committed hstep hcommit)
  case rollback i current next step hi hstep hskip hfail =>
    rcases h with h | h
    · exact Or.inl (h.moved h.userVersion_le rfl (by simp) (by simp))
    · exact Or.inr h
  case finish i current next hi hdone =>
    rcases h with h | h
    · -- an open that is done committed or skipped the rebuild
      have hle := h.opening_le _ _ _ hi
      have hlen : (SqliteMessageStore.steps (τ := τ) sql).length = 2 := rfl
      omega
    · exact Or.inr h
  case abort i current next hi =>
    rcases h with h | h
    · exact Or.inl (h.moved h.userVersion_le rfl (by simp) (by simp))
    · exact Or.inr h
  case append i id payload db' hi hupsert =>
    rcases h with h | h
    · -- nothing is open before the rebuild, so nothing appends
      exact absurd hi (h.not_opened _)
    · exact Or.inr (h.upserted hupsert)

/-- **Every run stays in the phases.** -/
theorem phase_of_run {events : List (ConnectionEvent ι τ)} {s₀ : Connections ι τ}
    (h₀ : (machine ι τ sql).init s₀) (hrun : (machine ι τ sql).Run s₀ events s) :
    Phase sql s₀.db (appends events) s := by
  have hinit : Phase sql s₀.db (appends ([] : List (ConnectionEvent ι τ))) s₀ := by
    refine Or.inl ⟨rfl, by rw [h₀.1]; omega, rfl, fun i => ?_, fun i current next => ?_⟩
    · rw [h₀.2 i]
      simp
    · rw [h₀.2 i]
      simp
  exact hrun.historyInvariant (I := fun hist s => Phase sql s₀.db (appends hist) s) phase_step hinit

/-- Once an open has succeeded the run is in the second phase. -/
theorem built_of_someOpened {events : List (ConnectionEvent ι τ)} {s₀ : Connections ι τ}
    (h₀ : (machine ι τ sql).init s₀) (hrun : (machine ι τ sql).Run s₀ events s)
    (hopened : SomeOpened s) : Built sql s₀.db (appends events) s := by
  obtain ⟨i, hi⟩ := hopened
  rcases phase_of_run h₀ hrun with h | h
  · exact absurd hi (h.not_opened i)
  · exact h

/-- A connection that is open stays open. -/
theorem someOpened_of_run {events : List (ConnectionEvent ι τ)} {s' : Connections ι τ}
    (hrun : (machine ι τ sql).Run s events s') (h : SomeOpened s) : SomeOpened s' := by
  refine hrun.invariant (I := SomeOpened) (fun {s e t} hs hmove => ?_) h
  obtain ⟨i, hi⟩ := hs
  have hmoved : ∀ {j : ι} {c : Connection}, s.connections j ≠ .opened → s.moved j c i = .opened :=
    fun {j c} hj => by
      have hij : i ≠ j := fun heq => hj (heq ▸ hi)
      simpa [Connections.moved, hij] using hi
  refine ⟨i, ?_⟩
  -- every other event moves a connection that is idle or opening, so it is not `i`
  cases hmove
  case append => exact hi
  all_goals exact hmoved (by simp [*])

/-! ### What the second phase says -/

/-- The payload an id was last given: by an append, or by the legacy table. -/
def latest (legacy : List (MessageRow τ)) (appended : List (MessageId × τ)) (id : MessageId) :
    Option τ :=
  ((appended.filter fun entry => entry.1 = id).getLast?.map Prod.snd).or
    ((legacy.find? fun row => row.id = id).map MessageRow.payload)

/-- The table holds the legacy rows and the appends, each once with its latest payload, numbered
without gaps, the legacy rows first and in their old order. -/
structure Kept (legacy : List (MessageRow τ)) (appended : List (MessageId × τ))
    (t : MessagesTable τ) : Prop where
  payload_eq : ∀ id, (t.rows.find? fun row => row.id = id).map MessageRow.payload =
    latest legacy appended id
  perm_seqs : (t.rows.map MessageRow.seq).Perm
    ((List.range t.rows.length).map (fun i : ℕ => (i : ℤ) + 1))
  legacy_order : ∀ r₁ ∈ legacy, ∀ r₂ ∈ legacy, r₁.seq < r₂.seq →
    ∀ row₁ ∈ t.rows, ∀ row₂ ∈ t.rows, row₁.id = r₁.id → row₂.id = r₂.id → row₁.seq < row₂.seq
  legacy_first : ∀ r ∈ legacy, ∀ row₁ ∈ t.rows, ∀ row₂ ∈ t.rows, row₁.id = r.id →
    row₂.id ∉ legacy.map MessageRow.id → row₁.seq < row₂.seq

/-- A later table: the ids that are there keep their sequence numbers, and new ids follow them. -/
structure Extends (t t' : MessagesTable τ) : Prop where
  seq_kept : ∀ row ∈ t.rows, ∃ row' ∈ t'.rows, row'.id = row.id ∧ row'.seq = row.seq
  new_last : ∀ row' ∈ t'.rows, row'.id ∉ t.rows.map MessageRow.id →
    ∀ row ∈ t.rows, row.seq < row'.seq

section Represented

variable {t t' : MessagesTable τ} {entries : List (MessageId × τ)}

omit [DecidableEq ι]

theorem nodup_legacyRows (db : Database τ) : ((legacyRows db).map MessageRow.id).Nodup := by
  unfold legacyRows
  cases db.messages with
  | none => exact List.nodup_nil
  | some t => exact t.id_nodup

theorem find?_legacyEntries (sql : OrderBy) (db : Database τ) (id : MessageId) :
    (legacyEntries sql db).find? (fun entry => entry.1 = id) =
      ((legacyRows db).find? fun row => row.id = id).map MessagesTable.entryOf := by
  have hnodup : ((sql.orderBy MessageRow.seq (legacyRows db)).map MessageRow.id).Nodup :=
    ((sql.perm _ _).map _).nodup_iff.mpr (nodup_legacyRows db)
  unfold legacyEntries
  rw [List.find?_map, ← find?_eq_of_perm (sql.perm _ _) hnodup]
  rfl

/-- The ids of the legacy entries, in the order of the rebuild. -/
theorem map_fst_legacyEntries (sql : OrderBy) (db : Database τ) :
    (legacyEntries sql db).map Prod.fst =
      (sql.orderBy MessageRow.seq (legacyRows db)).map MessageRow.id := by
  unfold legacyEntries
  rw [List.map_map]
  rfl

/-- A row is at its position in the rebuild, or its id is new and its position is past it. -/
theorem position_cases (h : t.Represents (upsertAll Prod.fst appended entries))
    {row : MessageRow τ} (hrow : row ∈ t.rows) :
    row.id ∈ entries.map Prod.fst ∧ (row.id, row.seq) ∈ positions (entries.map Prod.fst) ∨
      row.id ∉ entries.map Prod.fst ∧ (entries.length : ℤ) < row.seq := by
  obtain ⟨new, hnew⟩ := exists_map_upsertAll Prod.fst appended entries
  obtain ⟨rs, hrs, hlast⟩ := exists_positions_append (entries.map Prod.fst) new
  have hpos := h.position_mem hrow
  have hnodup := h.nodup
  rw [hnew, hrs, List.mem_append] at hpos
  rw [hnew, List.nodup_append] at hnodup
  -- the old keys keep their positions, and the positions of the new ones follow
  rcases hpos with hold | hnew'
  · refine Or.inl ⟨?_, hold⟩
    rw [← map_fst_positions (entries.map Prod.fst)]
    exact List.mem_map_of_mem hold
  · obtain ⟨hmem, hlt⟩ := hlast _ hnew'
    rw [List.length_map] at hlt
    exact Or.inr ⟨fun hold => hnodup.2.2 _ hold _ hmem rfl, hlt⟩

/-- Where a legacy row ends up is its place in the ordered read of the rebuild. -/
theorem legacy_position (h : t.Represents (upsertAll Prod.fst appended (legacyEntries sql db₀)))
    {r row : MessageRow τ} (hr : r ∈ legacyRows db₀) (hrow : row ∈ t.rows) (hid : row.id = r.id) :
    (r, row.seq) ∈ positions (sql.orderBy MessageRow.seq (legacyRows db₀)) := by
  have hmem : row.id ∈ (legacyEntries sql db₀).map Prod.fst := by
    rw [map_fst_legacyEntries, hid]
    exact List.mem_map_of_mem (sql.mem_orderBy.mpr hr)
  rcases position_cases h hrow with ⟨-, hpos⟩ | ⟨hnew, -⟩
  · rw [map_fst_legacyEntries, positions_map] at hpos
    obtain ⟨⟨r', k⟩, hk, heq⟩ := List.mem_map.mp hpos
    rw [Prod.mk.injEq] at heq
    have hr' : r' ∈ legacyRows db₀ := by
      rw [← (sql.perm MessageRow.seq _).mem_iff, ← map_fst_positions (sql.orderBy _ _)]
      exact List.mem_map_of_mem hk
    -- the row at that position has the id of `r`, and ids are a primary key
    rwa [← heq.2, ← List.inj_on_of_nodup_map (nodup_legacyRows db₀) hr' hr (heq.1.trans hid)]
  · exact absurd hmem hnew

theorem kept_of_represents
    (h : t.Represents (upsertAll Prod.fst appended (legacyEntries sql db₀))) :
    Kept (legacyRows db₀) appended t where
  payload_eq id := by
    have hfind := congrArg (Option.map Prod.snd) (h.find?_rows id)
    rw [find?_upsertAll, find?_legacyEntries, Option.map_map] at hfind
    rw [latest]
    refine Eq.trans hfind ?_
    cases (appended.filter fun entry => entry.1 = id).getLast? with
    | none => simp only [Option.none_or, Option.map_none, Option.map_map]; rfl
    | some entry => rfl
  perm_seqs := by
    have hlen : t.rows.length = (upsertAll Prod.fst appended (legacyEntries sql db₀)).length := by
      rw [h.length_eq, length_number]
    rw [hlen]
    exact h.perm_seqs
  legacy_order r₁ hr₁ r₂ hr₂ hlt row₁ hrow₁ row₂ hrow₂ hid₁ hid₂ :=
    lt_of_mem_positions (sql.sorted MessageRow.seq (legacyRows db₀))
      (legacy_position h hr₁ hrow₁ hid₁) (legacy_position h hr₂ hrow₂ hid₂) hlt
  legacy_first r hr row₁ hrow₁ row₂ hrow₂ hid₁ hid₂ := by
    have hle := le_length_of_mem_positions (legacy_position h hr hrow₁ hid₁)
    rcases position_cases h hrow₂ with ⟨hmem, -⟩ | ⟨-, hlt⟩
    · rw [map_fst_legacyEntries, ((sql.perm _ _).map _).mem_iff] at hmem
      exact absurd hmem hid₂
    · -- legacy rows stand within the first `legacyEntries.length` positions
      unfold legacyEntries at hlt
      rw [List.length_map] at hlt
      exact hle.trans_lt hlt

theorem extends_of_represents (h : t.Represents entries)
    (h' : t'.Represents (upsertAll Prod.fst appended entries)) : Extends t t' := by
  constructor
  · intro row hrow
    obtain ⟨new, hnew⟩ := exists_map_upsertAll Prod.fst appended entries
    obtain ⟨rs, hrs, -⟩ := exists_positions_append (entries.map Prod.fst) new
    have hpos : (row.id, row.seq) ∈ t'.rows.map fun row' => (row'.id, row'.seq) := by
      rw [h'.perm_positions.mem_iff, hnew, hrs]
      exact List.mem_append_left _ (h.position_mem hrow)
    obtain ⟨row', hrow', heq⟩ := List.mem_map.mp hpos
    rw [Prod.mk.injEq] at heq
    exact ⟨row', hrow', heq⟩
  · intro row' hrow' hid row hrow
    rw [h.mem_ids] at hid
    rcases position_cases h' hrow' with ⟨hold, -⟩ | ⟨-, hlt⟩
    · exact absurd hold hid
    · exact (h.mem_seqs.mp (List.mem_map_of_mem hrow)).2.trans_lt hlt

end Represented

/-- **No append is lost or reordered.** In every reachable state in which an open has succeeded the
table holds every legacy row and every append (`Kept`), no further append can fail, and every later
state extends the table. -/
theorem appends_kept {events : List (ConnectionEvent ι τ)} {s₀ : Connections ι τ}
    (h₀ : (machine ι τ sql).init s₀) (hrun : (machine ι τ sql).Run s₀ events s)
    (hopened : SomeOpened s) :
    ∃ t, s.db.messages = some t ∧ Kept (legacyRows s₀.db) (appends events) t ∧
      (∀ id payload, (SqliteMessageStore.upsert s.db id payload).isSome) ∧
      ∀ events' s', (machine ι τ sql).Run s events' s' →
        ∃ t', s'.db.messages = some t' ∧ Extends t t' := by
  obtain ⟨t, ht, hrep⟩ := built_of_someOpened h₀ hrun hopened
  refine ⟨t, ht, kept_of_represents hrep, fun id payload => ?_, fun events' s' hrun' => ?_⟩
  · obtain ⟨t', hup, -, -⟩ := hrep.exists_upsert_eq_some id payload
    simp [SqliteMessageStore.upsert, ht, hup]
  · obtain ⟨t', ht', hrep'⟩ := built_of_someOpened h₀ (hrun.append hrun')
      (someOpened_of_run hrun' hopened)
    rw [appends_append, upsertAll_append] at hrep'
    exact ⟨t', ht', extends_of_represents hrep hrep'⟩

/-- A legacy file whose two rows share a sequence number. -/
def legacyFile : Database String where
  userVersion := 0
  messages := some {
    seqUnique := false
    rows := [⟨⟨"m-1"⟩, 1, "a"⟩, ⟨⟨"m-2"⟩, 1, "b"⟩]
    id_nodup := by decide
    seq_nodup := by decide }
  projectionCache := none
  derivedOutputCache := none
  routingTraces := none

/-- Two connections read version 0; the second migrates only after the first appended. -/
theorem appends_kept_stale_opener :
    ∃ (s : Connections (Fin 2) String) (t : MessagesTable String), s.db.userVersion = 2 ∧
      s.connections 1 = .opened ∧ s.db.messages = some t ∧
      Kept (legacyRows legacyFile) [(⟨"m-3"⟩, "c")] t := by
  have hrun : ∃ s, (machine (Fin 2) String .insertionSort).Run ⟨legacyFile, fun _ => .idle⟩
      -- the second connection runs both steps on the version it read before the first migrated
      [.readVersion 0, .readVersion 1, .migrateStep 0, .migrateStep 0, .finish 0,
        .append 0 ⟨"m-3"⟩ "c", .migrateStep 1, .migrateStep 1, .finish 1] s ∧
      s.db.userVersion = 2 ∧ s.connections 1 = .opened :=
    ⟨_, .cons (.readVersion rfl) <| .cons (.readVersion rfl) <|
      .cons (.commit rfl rfl (by decide) rfl) <| .cons (.commit rfl rfl (by decide) rfl) <|
      .cons (.finish rfl rfl) <| .cons (.append rfl rfl) <|
      .cons (.commit rfl rfl (by decide) rfl) <| .cons (.commit rfl rfl (by decide) rfl) <|
      .cons (.finish rfl rfl) <| .nil _, rfl, rfl⟩
  obtain ⟨s, hrun, hversion, hopened⟩ := hrun
  obtain ⟨t, ht, hkept, -, -⟩ := appends_kept ⟨rfl, fun _ => rfl⟩ hrun ⟨1, hopened⟩
  exact ⟨s, t, hversion, hopened, ht, hkept⟩

end Connections

end Mirrorlane
