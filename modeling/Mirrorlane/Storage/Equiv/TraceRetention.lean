import Mathlib.Data.List.Find
import Mirrorlane.Core.Stores
import Mirrorlane.Foundation.BoundedQueue
import Mirrorlane.Storage.TraceHistory

/-!
# What a capped trace store keeps

The rows of the trace table stand in the order of their `rowid`s through every insert, replacement
and prune (`TraceTable`), and a prune keeps the newest rows (`pruneTraces_eq_newest`).  An upsert of
a known id keeps the old `rowid`, so the row that was just written need not be the newest one.
-/

namespace Mirrorlane

namespace TraceRow

variable (row : TraceRow) (trace : RoutingTrace)

/-- A replaced row keeps its place. -/
@[simp]
theorem rowid_replace :
    (if row.id = trace.messageId then { row with payload := trace } else row).rowid =
      row.rowid := by
  split_ifs <;> rfl

/-- A replaced row keeps its id. -/
@[simp]
theorem id_replace :
    (if row.id = trace.messageId then { row with payload := trace } else row).id = row.id := by
  split_ifs <;> rfl

end TraceRow

/-- The rows of a trace table, as upserts leave them. -/
structure TraceTable (rows : List TraceRow) : Prop where
  /-- Later rows have larger row ids. -/
  increasing : rows.Pairwise fun r s => r.rowid < s.rowid
  /-- A payload is stored under its own message. -/
  own : ∀ row ∈ rows, row.payload.messageId = row.id
  /-- The primary key. -/
  nodup : (rows.map TraceRow.id).Nodup

/-- The traces of a table, oldest first. -/
def payloads (rows : List TraceRow) : List RoutingTrace := rows.map TraceRow.payload

namespace TraceTable

variable {rows : List TraceRow}

theorem nil : TraceTable [] := ⟨List.Pairwise.nil, by simp, List.nodup_nil⟩

theorem sublist {rows' : List TraceRow} (h : TraceTable rows) (hsub : rows'.Sublist rows) :
    TraceTable rows' where
  increasing := h.increasing.sublist hsub
  own row hrow := h.own row (hsub.subset hrow)
  nodup := h.nodup.sublist (hsub.map TraceRow.id)

/-- The messages of the payloads are the ids of the rows. -/
theorem map_messageId_payloads (h : TraceTable rows) :
    (payloads rows).map RoutingTrace.messageId = rows.map TraceRow.id := by
  unfold payloads
  rw [List.map_map]
  exact List.map_congr_left fun row hrow => h.own row hrow

/-- No row has a larger row id than the next one gets. -/
theorem rowid_le_max (rows : List TraceRow) {row : TraceRow} (hrow : row ∈ rows) :
    row.rowid ≤ ((rows.map TraceRow.rowid).max?).getD 0 := by
  have hmem : row.rowid ∈ rows.map TraceRow.rowid := List.mem_map_of_mem hrow
  cases hmax : (rows.map TraceRow.rowid).max? with
  | none =>
    rw [List.max?_eq_none_iff] at hmax
    rw [hmax] at hmem
    cases hmem
  | some max =>
    rw [List.max?_eq_some_iff] at hmax
    exact hmax.2 _ hmem

/-! ### Inserting -/

open SqliteRoutingTraceStore

theorem insertTrace (h : TraceTable rows) (trace : RoutingTrace) :
    TraceTable (insertTrace rows trace) := by
  unfold SqliteRoutingTraceStore.insertTrace
  split_ifs with hknown
  · -- a replacement changes one payload only
    constructor
    · rw [List.pairwise_map]
      exact h.increasing.imp fun hlt => by rwa [TraceRow.rowid_replace, TraceRow.rowid_replace]
    · intro row hrow
      obtain ⟨old, hold, rfl⟩ := List.mem_map.mp hrow
      rw [TraceRow.id_replace]
      split_ifs with hsame
      · exact hsame.symm
      · exact h.own old hold
    · rw [List.map_map]
      have hids : TraceRow.id ∘ (fun row => if row.id = trace.messageId then
          { row with payload := trace } else row) = TraceRow.id :=
        funext fun row => row.id_replace trace
      rw [hids]
      exact h.nodup
  · constructor
    · refine List.pairwise_append.mpr ⟨h.increasing, List.pairwise_singleton _ _, ?_⟩
      intro row hrow new hnew
      rw [List.mem_singleton] at hnew
      have hle := rowid_le_max rows hrow
      rw [hnew]
      show row.rowid < _ + 1
      omega
    · intro row hrow
      rcases List.mem_append.mp hrow with hrow | hrow
      · exact h.own row hrow
      · rw [List.mem_singleton.mp hrow]
    · rw [List.map_append, List.map_singleton, ← List.concat_eq_append]
      exact h.nodup.concat hknown

/-- **An insert is an upsert of the payloads.** -/
theorem payloads_insertTrace (h : TraceTable rows) (trace : RoutingTrace) :
    payloads (SqliteRoutingTraceStore.insertTrace rows trace) =
      upsertBy RoutingTrace.messageId trace (payloads rows) := by
  unfold SqliteRoutingTraceStore.insertTrace upsertBy
  rw [h.map_messageId_payloads]
  split_ifs with hknown
  · unfold payloads
    rw [List.map_map, List.map_map]
    refine List.map_congr_left fun row hrow => ?_
    show (if row.id = trace.messageId then { row with payload := trace } else row).payload =
      if row.payload.messageId = trace.messageId then trace else row.payload
    rw [h.own row hrow]
    split_ifs <;> rfl
  · unfold payloads
    rw [List.map_append, List.map_singleton]

/-! ### Pruning -/

/-- **A prune keeps the newest rows.** -/
theorem pruneTraces_eq_newest (h : TraceTable rows) (sql : OrderBy) (max : ℕ) :
    pruneTraces sql rows max = newest max rows :=
  filter_mem_take_orderBy sql h.increasing max

end TraceTable

/-! ### Opened stores -/

/-- What the cap of a store leaves of some rows. -/
def cut (maxTraces : Option ℕ) (rows : List TraceRow) : List TraceRow :=
  match maxTraces with
  | none => rows
  | some max => newest max rows

theorem TraceTable.cut {rows : List TraceRow} (h : TraceTable rows) (maxTraces : Option ℕ) :
    TraceTable (cut maxTraces rows) := by
  cases maxTraces with
  | none => exact h
  | some max => exact h.sublist (newest_sublist max rows)

namespace TraceStore

variable {τ : Type}

/-- The store was opened on a file that holds a trace table and nothing put there otherwise. -/
structure Ready (store : TraceStore τ) : Prop where
  version : 1 ≤ store.conn.userVersion
  created : store.conn.routingTraces = some store.rows
  table : TraceTable store.rows

/-- The first opening of a file. -/
theorem openWith_empty (maxTraces : Option ℕ) :
    openWith maxTraces (Database.empty : Database τ) =
      some ⟨{ Database.empty with routingTraces := some [], userVersion := 1 }, maxTraces⟩ := by
  have hinit : SqliteRoutingTraceStore.init (Database.empty : Database τ) =
      ({ Database.empty with routingTraces := some [], userVersion := 1 }, true) :=
    migrate_singleton SqliteRoutingTraceStore.stepV1 rfl rfl
  unfold openWith
  rw [hinit]

theorem Ready.of_empty {maxTraces : Option ℕ} {store : TraceStore τ}
    (h : openWith maxTraces Database.empty = some store) :
    store.Ready ∧ store.rows = [] ∧ store.maxTraces = maxTraces := by
  rw [openWith_empty, Option.some.injEq] at h
  subst h
  exact ⟨⟨le_refl 1, rfl, TraceTable.nil⟩, rfl, rfl⟩

variable {store : TraceStore τ} (h : store.Ready)

include h

/-- A later opening changes the cap and nothing else. -/
theorem Ready.openWith_eq (maxTraces : Option ℕ) :
    openWith maxTraces store.conn = some ⟨store.conn, maxTraces⟩ := by
  have hinit : SqliteRoutingTraceStore.init store.conn = (store.conn, true) :=
    migrate_of_length_le h.version
  unfold openWith
  rw [hinit]

theorem Ready.reopen (maxTraces : Option ℕ) : Ready ⟨store.conn, maxTraces⟩ :=
  ⟨h.version, h.created, h.table⟩

/-- **What an upsert leaves.** -/
theorem Ready.upsert_eq (sql : OrderBy) (trace : RoutingTrace) :
    store.upsert sql trace = some ⟨{ store.conn with
      routingTraces := some
        (cut store.maxTraces (SqliteRoutingTraceStore.insertTrace store.rows trace)) },
      store.maxTraces⟩ := by
  have htable := h.table.insertTrace trace
  unfold TraceStore.upsert SqliteRoutingTraceStore.upsert
  rw [h.created]
  cases store.maxTraces with
  | none => rfl
  | some max =>
    have hcut : cut (some max) (SqliteRoutingTraceStore.insertTrace store.rows trace) =
        SqliteRoutingTraceStore.pruneTraces sql
          (SqliteRoutingTraceStore.insertTrace store.rows trace) max :=
      (htable.pruneTraces_eq_newest sql max).symm
    rw [hcut]
    rfl

theorem Ready.upsert (sql : OrderBy) (trace : RoutingTrace) :
    ∃ store', store.upsert sql trace = some store' ∧ store'.Ready ∧
      store'.maxTraces = store.maxTraces ∧ store'.rows =
        cut store.maxTraces (SqliteRoutingTraceStore.insertTrace store.rows trace) :=
  ⟨_, h.upsert_eq sql trace, ⟨h.version, rfl, (h.table.insertTrace trace).cut _⟩, rfl, rfl⟩

/-- A lookup reads the payloads. -/
theorem Ready.get_eq (id : MessageId) :
    store.get id = some ((payloads store.rows).find? fun trace => trace.messageId = id) := by
  have hfind : (payloads store.rows).find? (fun trace => trace.messageId = id) =
      (store.rows.find? fun row => row.id = id).map TraceRow.payload := by
    unfold payloads
    rw [List.find?_map]
    refine congrArg (Option.map TraceRow.payload) (List.find?_congr fun row hrow => ?_)
    show decide (row.payload.messageId = id) = _
    rw [h.table.own row hrow]
  unfold TraceStore.get SqliteRoutingTraceStore.get
  rw [h.created, hfind]
  rfl

end TraceStore

/-! ### One cap -/

section OneCap

variable {τ : Type}

/-- What one write does to the payloads under a cap, some writes do one after the other. -/
theorem payloads_upsertAll_of_write (sql : OrderBy) {maxTraces : Option ℕ}
    {write : RoutingTrace → List RoutingTrace → List RoutingTrace}
    {I : List RoutingTrace → Prop}
    (hwrite : ∀ {rows} trace, TraceTable rows → I (payloads rows) →
      payloads (cut maxTraces (SqliteRoutingTraceStore.insertTrace rows trace)) =
        write trace (payloads rows))
    (hkeep : ∀ trace queue, I queue → I (write trace queue)) (traces : List RoutingTrace)
    {store : TraceStore τ} (h : store.Ready) (hcap : store.maxTraces = maxTraces)
    (hstart : I (payloads store.rows)) :
    ∃ store', store.upsertAll sql traces = some store' ∧ store'.Ready ∧
      payloads store'.rows =
        traces.foldl (fun queue trace => write trace queue) (payloads store.rows) := by
  induction traces generalizing store with
  | nil => exact ⟨store, rfl, h, rfl⟩
  | cons trace traces ih =>
    obtain ⟨store₁, hupsert, hready, hmax, hrows⟩ := h.upsert sql trace
    rw [hcap] at hmax hrows
    have hpayloads₁ : payloads store₁.rows = write trace (payloads store.rows) := by
      rw [hrows, hwrite trace h.table hstart]
    obtain ⟨store', hrest, hready', hpayloads⟩ :=
      ih hready hmax (by rw [hpayloads₁]; exact hkeep trace _ hstart)
    refine ⟨store', ?_, hready', ?_⟩
    · unfold TraceStore.upsertAll at hrest ⊢
      rw [List.foldlM_cons, hupsert]
      exact hrest
    · rw [hpayloads, hpayloads₁, List.foldl_cons]

/-- A store under one cap holds a queue, through any upserts. -/
theorem payloads_upsertAll (sql : OrderBy) (cap : ℕ) (traces : List RoutingTrace)
    {store : TraceStore τ} (h : store.Ready) (hcap : store.maxTraces = some cap)
    (hlen : (payloads store.rows).length ≤ cap) :
    ∃ store', store.upsertAll sql traces = some store' ∧ store'.Ready ∧
      payloads store'.rows =
        enqueueAll RoutingTrace.messageId cap traces (payloads store.rows) := by
  refine payloads_upsertAll_of_write sql (I := fun queue => queue.length ≤ cap) ?_
    (fun trace queue => length_enqueue_le trace) traces h hcap hlen
  -- one write is one write to the queue
  intro rows trace htable hle
  rw [enqueue_eq_newest trace hle, ← htable.payloads_insertTrace]
  exact (newest_map TraceRow.payload cap _).symm

/-- An uncapped store keeps every trace. -/
theorem payloads_upsertAll_uncapped (sql : OrderBy) (traces : List RoutingTrace)
    {store : TraceStore τ} (h : store.Ready) (hcap : store.maxTraces = none) :
    ∃ store', store.upsertAll sql traces = some store' ∧ store'.Ready ∧
      payloads store'.rows = upsertAll RoutingTrace.messageId traces (payloads store.rows) := by
  refine payloads_upsertAll_of_write sql (I := fun _ => True) ?_ (fun _ _ _ => trivial) traces h
    hcap trivial
  intro rows trace htable _
  exact htable.payloads_insertTrace trace

/-- **Under one cap the trace store is a bounded queue, and without a cap it is a map.** -/
theorem traceStore_is_queue (τ : Type) (sql : OrderBy) (traces : List RoutingTrace) :
    (∀ cap : ℕ, ∃ opened store : TraceStore τ,
      TraceStore.openWith (some cap) Database.empty = some opened ∧
      opened.upsertAll sql traces = some store ∧
      payloads store.rows = enqueueAll RoutingTrace.messageId cap traces [] ∧
      ∀ id, store.get id = some
        ((enqueueAll RoutingTrace.messageId cap traces []).find? fun trace =>
          trace.messageId = id)) ∧
    ∃ opened store : TraceStore τ,
      TraceStore.openWith none Database.empty = some opened ∧
      opened.upsertAll sql traces = some store ∧
      ∀ id, store.get id = some ((UpsertStore.empty.upsertAll traces : InMemoryRoutingTraceStore)
        id) := by
  constructor
  · intro cap
    obtain ⟨hready, hnil, hmax⟩ :=
      TraceStore.Ready.of_empty (TraceStore.openWith_empty (τ := τ) (some cap))
    obtain ⟨store, hstore, hready', hpayloads⟩ :=
      payloads_upsertAll sql cap traces hready hmax (by rw [hnil]; exact Nat.zero_le cap)
    rw [hnil] at hpayloads
    refine ⟨_, store, TraceStore.openWith_empty (some cap), hstore, hpayloads, fun id => ?_⟩
    rw [hready'.get_eq, hpayloads]
    rfl
  · obtain ⟨hready, hnil, hmax⟩ :=
      TraceStore.Ready.of_empty (TraceStore.openWith_empty (τ := τ) none)
    obtain ⟨store, hstore, hready', hpayloads⟩ :=
      payloads_upsertAll_uncapped sql traces hready hmax
    refine ⟨_, store, TraceStore.openWith_empty none, hstore, fun id => ?_⟩
    rw [hready'.get_eq, hpayloads, hnil, find?_upsertAll, UpsertStore.upsertAll_apply]
    rfl

end OneCap

end Mirrorlane
