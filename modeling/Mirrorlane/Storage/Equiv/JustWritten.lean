import Mirrorlane.Storage.Equiv.TraceRetention

/-!
# Whether the just-written trace stays

A capped upsert keeps its own trace when fewer than the cap's many stored traces were inserted after
it (`TraceTable.find?_newest_insertTrace`): a trace of a new message is the newest, but a message
that is routed again keeps the place of its first routing.  Under one cap from the start no table is
longer than the cap, and then the condition always holds; a cap that was lowered between two runs
can break it.
-/

namespace Mirrorlane

/-- The rows that were inserted after the row of `id`; none when there is no such row. -/
def insertedAfter (rows : List TraceRow) (id : MessageId) : List TraceRow :=
  rows.filter fun row => ∃ old ∈ rows, old.id = id ∧ old.rowid < row.rowid

namespace TraceTable

variable {rows : List TraceRow} (h : TraceTable rows)

include h

/-- The row of the upserted trace, and what has a larger row id. -/
theorem exists_mem_insertTrace (trace : RoutingTrace) :
    ∃ row ∈ SqliteRoutingTraceStore.insertTrace rows trace,
      row.id = trace.messageId ∧ row.payload = trace ∧
        ((SqliteRoutingTraceStore.insertTrace rows trace).filter fun r =>
          row.rowid < r.rowid).length = (insertedAfter rows trace.messageId).length := by
  unfold SqliteRoutingTraceStore.insertTrace
  split_ifs with hknown
  · obtain ⟨old, hold, hid⟩ := List.mem_map.mp hknown
    refine ⟨{ old with payload := trace }, ?_, hid, rfl, ?_⟩
    · exact List.mem_map.mpr ⟨old, hold, if_pos hid⟩
    · -- a replacement moves no row, and the id has one row
      unfold insertedAfter
      rw [List.filter_map, List.length_map]
      refine congrArg List.length (List.filter_congr fun row hrow => ?_)
      simp only [Function.comp_apply, TraceRow.rowid_replace, decide_eq_decide]
      constructor
      · exact fun hlt => ⟨old, hold, hid, hlt⟩
      · rintro ⟨old', hold', hid', hlt⟩
        have hsame : old' = old :=
          List.inj_on_of_nodup_map h.nodup hold' hold (hid'.trans hid.symm)
        rwa [hsame] at hlt
  · refine ⟨_, List.mem_append_right _ (List.mem_singleton_self _), rfl, rfl, ?_⟩
    -- the new row has the largest row id, and the id had none
    have hnone : insertedAfter rows trace.messageId = [] := by
      unfold insertedAfter
      refine List.filter_eq_nil_iff.mpr fun row hrow hold => ?_
      obtain ⟨old, hmem, hid, -⟩ := of_decide_eq_true hold
      exact hknown (List.mem_map.mpr ⟨old, hmem, hid⟩)
    rw [hnone]
    refine congrArg List.length (List.filter_eq_nil_iff.mpr fun row hrow hlt => ?_)
    rcases List.mem_append.mp hrow with hrow | hrow
    · have hle := rowid_le_max rows hrow
      have hlt' : ((rows.map TraceRow.rowid).max?).getD 0 + 1 < row.rowid := of_decide_eq_true hlt
      omega
    · rw [List.mem_singleton.mp hrow] at hlt
      exact lt_irrefl _ (of_decide_eq_true hlt)

/-- Of some remaining rows, a lookup finds a row's payload when the row is among them. -/
theorem find?_payloads_iff {kept : List TraceRow} (hsub : kept.Sublist rows) {row : TraceRow}
    (hrow : row ∈ rows) :
    (payloads kept).find? (fun stored => stored.messageId = row.id) = some row.payload ↔
      row ∈ kept := by
  have hkept := h.sublist hsub
  -- a remaining row with the id is the row itself
  have hsame : ∀ {found}, found ∈ kept → found.payload.messageId = row.id → found = row := by
    intro found hfound hid
    rw [hkept.own found hfound] at hid
    exact List.inj_on_of_nodup_map h.nodup (hsub.subset hfound) hrow hid
  constructor
  · intro hfind
    obtain ⟨found, hfound, hpayload⟩ := List.mem_map.mp (List.mem_of_find?_eq_some hfind)
    have hid : found.payload.messageId = row.id := by
      rw [hpayload]
      exact h.own row hrow
    rwa [hsame hfound hid] at hfound
  · intro hmem
    have hsome : ((payloads kept).find? fun stored => stored.messageId = row.id).isSome := by
      rw [List.find?_isSome]
      exact ⟨row.payload, List.mem_map_of_mem hmem, by simpa using h.own row hrow⟩
    obtain ⟨stored, hstored⟩ := Option.isSome_iff_exists.mp hsome
    obtain ⟨found, hfound, rfl⟩ := List.mem_map.mp (List.mem_of_find?_eq_some hstored)
    have hid : found.payload.messageId = row.id := by simpa using List.find?_some hstored
    rw [hstored, hsame hfound hid]

/-- **The upserted trace survives the cut when fewer than `max` rows were inserted after it.** -/
theorem find?_newest_insertTrace (trace : RoutingTrace) (max : ℕ) :
    (payloads (newest max (SqliteRoutingTraceStore.insertTrace rows trace))).find?
      (fun stored => stored.messageId = trace.messageId) = some trace ↔
    (insertedAfter rows trace.messageId).length < max := by
  have htable := h.insertTrace trace
  obtain ⟨row, hrow, hid, hpayload, hlater⟩ := h.exists_mem_insertTrace trace
  rw [← hlater, ← mem_newest_iff htable.increasing hrow max]
  have hfind := htable.find?_payloads_iff (newest_sublist max _) hrow
  rwa [hid, hpayload] at hfind

end TraceTable

/-! ### Histories of openings -/

namespace TraceHistory

variable {τ : Type}

/-- What the store promises of the just-written row: an upsert into a capped store never prunes it,
and leaves no more traces than the cap. -/
def JustWrittenKept : TraceOp → TraceStore τ → Prop
  | .reopen _, _ => True
  | .upsert trace, store => ∀ max ∈ store.maxTraces,
      store.get trace.messageId = some (some trace) ∧ store.rows.length ≤ max

/-- Fewer than the cap's many stored traces were inserted after the one an upsert replaces. -/
def NotBehindCap : TraceStore τ → TraceOp → Prop
  | _, .reopen _ => True
  | store, .upsert trace => ∀ max ∈ store.maxTraces,
      (insertedAfter store.rows trace.messageId).length < max

instance (store : TraceStore τ) (op : TraceOp) : Decidable (NotBehindCap store op) :=
  match op with
  | .reopen _ => isTrue trivial
  | .upsert trace => inferInstanceAs (Decidable (∀ max ∈ store.maxTraces,
      (insertedAfter store.rows trace.messageId).length < max))

theorem ready_of_init {sql : OrderBy} {store : TraceStore τ} (h : (machine τ sql).init store) :
    store.Ready := by
  obtain ⟨maxTraces, hopen⟩ := h
  exact (TraceStore.Ready.of_empty hopen).1

theorem ready_of_step {sql : OrderBy} {store store' : TraceStore τ} {op : TraceOp}
    (h : store.Ready) (hstep : (machine τ sql).step store op store') : store'.Ready := by
  cases op with
  | reopen maxTraces =>
    have hreopen : TraceStore.openWith maxTraces store.conn = some store' := hstep
    rw [h.openWith_eq, Option.some.injEq] at hreopen
    exact hreopen ▸ h.reopen maxTraces
  | upsert trace =>
    obtain ⟨after, hupsert, hready, -⟩ := h.upsert sql trace
    have hsame : store.upsert sql trace = some store' := hstep
    rw [hupsert, Option.some.injEq] at hsame
    exact hsame ▸ hready

/-- **The step.** An upsert keeps its trace when the trace is not behind the cap. -/
theorem notBehindCap_iff_kept {sql : OrderBy} {store store' : TraceStore τ} {op : TraceOp}
    (h : store.Ready) (hstep : (machine τ sql).step store op store') :
    NotBehindCap store op ↔ JustWrittenKept op store' := by
  cases op with
  | reopen maxTraces => exact Iff.rfl
  | upsert trace =>
    obtain ⟨after, hupsert, hready, hmax, hrows⟩ := h.upsert sql trace
    have hsame : store.upsert sql trace = some store' := hstep
    rw [hupsert, Option.some.injEq] at hsame
    subst hsame
    show (∀ max ∈ store.maxTraces, _) ↔ ∀ max ∈ after.maxTraces, _
    rw [hmax]
    refine forall₂_congr fun max hmem => ?_
    have hcap : store.maxTraces = some max := hmem
    rw [hcap] at hrows
    have hrows' : after.rows =
        newest max (SqliteRoutingTraceStore.insertTrace store.rows trace) := hrows
    have hlen := length_newest max (SqliteRoutingTraceStore.insertTrace store.rows trace)
    rw [hready.get_eq, hrows', Option.some.injEq, h.table.find?_newest_insertTrace]
    constructor
    · exact fun hlt => ⟨hlt, by omega⟩
    · exact fun hkept => hkept.1

/-! ### Under one cap -/

/-- A table that is not longer than the cap has no trace behind it. -/
theorem length_insertedAfter_lt {rows : List TraceRow} (h : TraceTable rows) {max : ℕ}
    (hpos : 1 ≤ max) (hlen : rows.length ≤ max) (id : MessageId) :
    (insertedAfter rows id).length < max := by
  cases rows with
  | nil => exact hpos
  | cons first rest =>
    -- the oldest row was inserted after none
    have hnot : ¬∃ old ∈ first :: rest, old.id = id ∧ old.rowid < first.rowid := by
      rintro ⟨old, hold, -, hlt⟩
      rcases List.mem_cons.mp hold with rfl | hold
      · exact lt_irrefl _ hlt
      · exact lt_asymm hlt ((List.pairwise_cons.mp h.increasing).1 old hold)
    have hlt : (insertedAfter (first :: rest) id).length < (first :: rest).length :=
      List.length_filter_lt_length_iff_exists.mpr
        ⟨first, List.mem_cons_self, by simpa using hnot⟩
    omega

/-- **Under one cap every upsert keeps its trace.** -/
theorem checked_of_oneCap {sql : OrderBy} {cap : ℕ} (hpos : 1 ≤ cap) {opened store : TraceStore τ}
    {ops : List TraceOp} (h : (machine τ sql).Run opened ops store) (hready : opened.Ready)
    (hcap : opened.maxTraces = some cap) (hlen : opened.rows.length ≤ cap)
    (hops : ∀ op ∈ ops, ∀ maxTraces, op = .reopen maxTraces → maxTraces = some cap) :
    ((machine τ sql).checked JustWrittenKept).Run opened ops store := by
  induction h with
  | nil => exact .nil _
  | @cons s t u op ops hstep _ ih =>
    have hkept : JustWrittenKept op t := by
      refine (notBehindCap_iff_kept hready hstep).mp ?_
      cases op with
      | reopen maxTraces => exact trivial
      | upsert trace =>
        intro max hmax
        rw [hcap, Option.mem_some] at hmax
        exact hmax ▸ length_insertedAfter_lt hready.table hpos hlen trace.messageId
    -- the next store has the same cap and is no longer than it
    have hnext : t.maxTraces = some cap ∧ t.rows.length ≤ cap := by
      cases op with
      | reopen maxTraces =>
        have hsame : TraceStore.openWith maxTraces s.conn = some t := hstep
        rw [hready.openWith_eq, Option.some.injEq] at hsame
        subst hsame
        exact ⟨hops _ List.mem_cons_self maxTraces rfl, hlen⟩
      | upsert trace =>
        obtain ⟨after, hupsert, -, hmax, -⟩ := hready.upsert sql trace
        have hsame : s.upsert sql trace = some t := hstep
        rw [hupsert, Option.some.injEq] at hsame
        subst hsame
        have hcap' := hmax.trans hcap
        exact ⟨hcap', (hkept cap hcap').2⟩
    refine .cons ⟨hstep, hkept⟩ (ih (ready_of_step hready hstep) hnext.1 hnext.2 ?_)
    exact fun op' hop' => hops op' (List.mem_cons_of_mem _ hop')

/-! ### Under changing caps -/

/-- The trace of a message, without steps. -/
def bareTrace (id : String) : RoutingTrace := ⟨⟨id⟩, []⟩

/-- The opening of a new file. -/
def newFile (maxTraces : Option ℕ) : TraceStore String :=
  ⟨{ Database.empty with routingTraces := some [], userVersion := 1 }, maxTraces⟩

/-- **The histories in which every upsert keeps its trace are those in which no upserted trace is
behind the cap.** -/
theorem justWrittenKept_iff (sql : OrderBy) {opened store : TraceStore τ} {ops : List TraceOp}
    (h : (machine τ sql).init opened) :
    ((machine τ sql).checked JustWrittenKept).Run opened ops store ↔
      ((machine τ sql).guarded NotBehindCap).Run opened ops store :=
  (Machine.Run.guarded_iff_checked (I := TraceStore.Ready) notBehindCap_iff_kept
    (fun hready hstep _ => ready_of_step hready hstep) (ready_of_init h)).symm

/-- Under one cap the third upsert, of a message that was routed before, keeps its trace. -/
theorem justWrittenKept_iff_oneCap :
    ∃ store : TraceStore String,
      ((machine String .insertionSort).checked JustWrittenKept).Run (newFile (some 2))
        [.upsert (bareTrace "m-1"), .upsert (bareTrace "m-2"), .upsert (bareTrace "m-1")]
        store := by
  have hrun : ([.upsert (bareTrace "m-1"), .upsert (bareTrace "m-2"),
      .upsert (bareTrace "m-1")] : List TraceOp).foldlM (fun store op =>
        if NotBehindCap store op then next .insertionSort store op else none)
        (newFile (some 2)) |>.isSome := by
    decide +kernel
  obtain ⟨store, hstore⟩ := Option.isSome_iff_exists.mp hrun
  have hguarded := Machine.Run.of_foldlM
    (M := (machine String .insertionSort).guarded NotBehindCap) (fun {store op store'} h => by
      split_ifs at h with hcond
      exact ⟨hcond, h⟩) hstore
  exact ⟨store, (justWrittenKept_iff .insertionSort ⟨some 2, rfl⟩).mpr hguarded⟩

/-- Two messages are routed without a cap; the first is routed again in a run with cap `1`. -/
def loweredCap : List TraceOp :=
  [.upsert (bareTrace "m-1"), .upsert (bareTrace "m-2"), .reopen (some 1)]

/-- **A capped upsert drops the trace it writes.** -/
theorem just_written_trace_is_dropped :
    ∃ before after : TraceStore String,
      (machine String .insertionSort).init (newFile none) ∧
      (machine String .insertionSort).Run (newFile none) loweredCap before ∧
      (machine String .insertionSort).step before (.upsert (bareTrace "m-1")) after ∧
      after.maxTraces = some 1 ∧ after.get ⟨"m-1"⟩ = some none ∧
      ¬JustWrittenKept (.upsert (bareTrace "m-1")) after := by
  have hrun : (loweredCap.foldlM (next .insertionSort) (newFile none)).any (fun before =>
      (next .insertionSort before (.upsert (bareTrace "m-1"))).any fun after =>
        after.maxTraces = some 1 ∧ after.get ⟨"m-1"⟩ = some none) = true := by
    decide +kernel
  obtain ⟨before, hbefore, hlast⟩ := (Option.any_eq_true _ _).mp hrun
  obtain ⟨after, hafter, hkept⟩ := (Option.any_eq_true _ _).mp hlast
  obtain ⟨hcap, hget⟩ := of_decide_eq_true hkept
  refine ⟨before, after, ⟨none, rfl⟩, ?_, hafter, hcap, hget, fun h => ?_⟩
  · exact Machine.Run.of_foldlM (M := machine String .insertionSort) id hbefore
  · have hthere := (h 1 hcap).1
    rw [show after.get (bareTrace "m-1").messageId = some none from hget] at hthere
    cases hthere

end TraceHistory

end Mirrorlane
