import Mirrorlane.Cli.Projectors
import Mirrorlane.Worker.Equiv.ContentKeys

/-!
# When a frozen projection stays frozen

Projecting never overwrites a row (`projectAll_keeps`), so a projection stays frozen until a run
under another version opens the table and prunes it.  A run that comes back to the first version
then asks the model again.  And a row is text: what the run that asked the model returned is frozen
only if its confidence is parsed as it was written.

## Main results

* `exec_keeps`: a run under the same version, or without a cache, keeps the row
* `not_frozen_of_comesBack`
* `not_frozen_of_reprojects`
* `frozen_iff`
-/

namespace Mirrorlane

variable {τ : Type} {json : CacheJson τ} (promptFingerprint : String)
  (toLowercase : String → String) (cacheKey : MessageId → String → String)

/-- **Two messages share a row of a version** when they have the same id and body, or the 64-bit
hash collides on them. -/
theorem projectionRequest_hashedKey_eq_iff {finish : List UInt8 → UInt64} {version : StepVersion}
    {m m' : MessageEnvelope} :
    projectionRequest (hashedKey (finishText finish)) version m =
        projectionRequest (hashedKey (finishText finish)) version m' ↔
      SameContent m m' ∨ Collision finish m.keyBytes m'.keyBytes := by
  rw [← (keyedBy_cacheKey finish).key_iff]
  constructor
  · exact congrArg CacheRequest.key
  · exact congrArg (CacheRequest.mk LlmProjector.kind version)

/-! ### Projecting the messages of a run -/

section ProjectAll

variable {cacheKey} {version : StepVersion} {answers : Answers}

theorem projectAll_cons (n : ℕ) (m : MessageEnvelope) (messages : List MessageEnvelope)
    (rows : ProjectionRows json) :
    projectAll cacheKey version answers n (m :: messages) rows =
      let run := Cached.run rows (projectionRequest cacheKey version m)
        (LlmProjector.run (answers n) m)
      let rest := projectAll cacheKey version answers (n + 1) messages run.2
      (rest.1, (m, run.1) :: rest.2) := rfl

theorem projectAll_append (messages messages' : List MessageEnvelope) :
    ∀ n (rows : ProjectionRows json),
      projectAll cacheKey version answers n (messages ++ messages') rows =
        let first := projectAll cacheKey version answers n messages rows
        let rest := projectAll cacheKey version answers (n + messages.length) messages' first.1
        (rest.1, first.2 ++ rest.2) := by
  induction messages with
  | nil => intro n rows; rfl
  | cons m messages ih =>
    intro n rows
    rw [List.cons_append, projectAll_cons, projectAll_cons]
    dsimp only
    rw [ih, List.length_cons, Nat.add_right_comm, Nat.add_assoc n]
    rfl

theorem projectAll_fst (messages : List MessageEnvelope) :
    ∀ n (rows : ProjectionRows json),
      (projectAll cacheKey version answers n messages rows).2.map Prod.fst = messages := by
  induction messages with
  | nil => intro n rows; rfl
  | cons m messages ih => intro n rows; exact congrArg (m :: ·) (ih (n + 1) _)

/-- **Projecting never overwrites a row.** -/
theorem projectAll_keeps {r : CacheRequest} {p : Projection} (messages : List MessageEnvelope) :
    ∀ n (rows : ProjectionRows json), Cache.get rows r = some p →
      Cache.get (projectAll cacheKey version answers n messages rows).1 r = some p := by
  induction messages with
  | nil => intro n rows h; exact h
  | cons m messages ih => intro n rows h; exact ih (n + 1) _ (Cached.get_run h)

/-- The row of a returned projection: the projection itself, or what the model's answer is read back
as. -/
def RowOf (json : CacheJson τ) (answers : Answers) (p row : Projection) : Prop :=
  row = p ∨ row = p.mapNumbers json.number ∧
    ∃ k dto id, answers k = some dto ∧ p = parseProjection dto id

theorem RowOf.intent_eq {p row : Projection} (h : RowOf json answers p row) :
    row.intent = p.intent := by
  rcases h with rfl | ⟨rfl, -⟩
  · rfl
  · exact p.mapNumbers_intent json.number

/-- What was returned for a message has its row in the table. -/
theorem projectAll_get {m : MessageEnvelope} {p : Projection} (messages : List MessageEnvelope) :
    ∀ n (rows : ProjectionRows json),
      (m, some p) ∈ (projectAll cacheKey version answers n messages rows).2 →
      ∃ row, RowOf json answers p row ∧
        Cache.get (projectAll cacheKey version answers n messages rows).1
          (projectionRequest cacheKey version m) = some row := by
  induction messages with
  | nil => intro n rows h; exact absurd h List.not_mem_nil
  | cons m' messages ih =>
    intro n rows h
    rcases List.mem_cons.mp h with heq | hmem
    · rw [Prod.mk.injEq] at heq
      obtain ⟨rfl, hout⟩ := heq
      -- found or put here, and never overwritten by the messages that follow
      cases hget : Cache.get rows (projectionRequest cacheKey version m) with
      | some row =>
        rw [Cached.run_of_hit hget] at hout
        obtain rfl := Option.some.inj hout
        exact ⟨p, Or.inl rfl, projectAll_keeps messages (n + 1) _ (Cached.get_run hget)⟩
      | none =>
        cases hinner : LlmProjector.run (answers n) m with
        | none =>
          rw [hinner, Cached.run_of_panic hget] at hout
          cases hout
        | some new =>
          rw [hinner, Cached.run_of_miss hget] at hout
          obtain rfl := Option.some.inj hout
          obtain ⟨dto, hdto, hp⟩ := Option.map_eq_some_iff.mp hinner
          refine ⟨_, Or.inr ⟨rfl, n, dto, m.id, hdto, hp.symm⟩,
            projectAll_keeps messages (n + 1) _ ?_⟩
          rw [Cached.get_run_of_miss hget, hinner]
          rfl
    · exact ih (n + 1) _ hmem

/-- A message whose projection is in the table gets it back. -/
theorem projectAll_hit {m : MessageEnvelope} {p : Projection} {out : Option Projection}
    (messages : List MessageEnvelope) :
    ∀ n (rows : ProjectionRows json),
      Cache.get rows (projectionRequest cacheKey version m) = some p →
      (m, out) ∈ (projectAll cacheKey version answers n messages rows).2 → out = some p := by
  induction messages with
  | nil => intro n rows _ h; exact absurd h List.not_mem_nil
  | cons m' messages ih =>
    intro n rows hget h
    rcases List.mem_cons.mp h with heq | hmem
    · rw [Prod.mk.injEq] at heq
      obtain ⟨rfl, rfl⟩ := heq
      rw [Cached.run_of_hit hget]
    · exact ih (n + 1) _ (Cached.get_run hget) hmem

/-- A row of the table was there before, or is read back from an answer of the model. -/
theorem of_projectAll_get {r : CacheRequest} {p : Projection} (messages : List MessageEnvelope) :
    ∀ n (rows : ProjectionRows json),
      Cache.get (projectAll cacheKey version answers n messages rows).1 r = some p →
      Cache.get rows r = some p ∨ ∃ k dto id, n ≤ k ∧ k < n + messages.length ∧
        answers k = some dto ∧ p = (parseProjection dto id).mapNumbers json.number := by
  induction messages with
  | nil => intro n rows h; exact Or.inl h
  | cons m messages ih =>
    intro n rows h
    rw [List.length_cons]
    rcases ih (n + 1) _ h with hget | ⟨k, dto, id, hle, hlt, hanswer, hp⟩
    · rcases Cached.of_get_run hget with hrows | ⟨new, hinner, hp⟩
      · exact Or.inl hrows
      · obtain ⟨dto, hdto, rfl⟩ := Option.map_eq_some_iff.mp hinner
        exact Or.inr ⟨n, dto, m.id, le_rfl, by omega, hdto, hp.symm⟩
    · exact Or.inr ⟨k, dto, id, by omega, by omega, hanswer, hp⟩

/-- A model that always answers always returns a projection. -/
theorem projectAll_isSome (hanswers : ∀ k, (answers k).isSome) {m : MessageEnvelope}
    {out : Option Projection} (messages : List MessageEnvelope) :
    ∀ n (rows : ProjectionRows json),
      (m, out) ∈ (projectAll cacheKey version answers n messages rows).2 → out.isSome := by
  induction messages with
  | nil => intro n rows h; exact absurd h List.not_mem_nil
  | cons m' messages ih =>
    intro n rows h
    rcases List.mem_cons.mp h with heq | hmem
    · rw [Prod.mk.injEq] at heq
      rw [heq.2]
      refine Cached.isSome_run ?_
      rw [LlmProjector.run, Option.isSome_map]
      exact hanswers n
    · exact ih (n + 1) _ hmem

end ProjectAll

/-! ### Runs -/

section Runs

variable {promptFingerprint toLowercase cacheKey}

theorem get_pruneSuperseded (rows : ProjectionRows json) (keep : StepVersion) (r : CacheRequest) :
    Cache.get (rows.pruneSuperseded keep) r =
      if r.version = keep then Cache.get rows r else none :=
  apply_ite (Option.map TextCodec.Readable.value) (r.version = keep) (rows.rows _) none

/-- **A run under the same version, or without a cache, keeps the row.** -/
theorem exec_keeps {run : CliRun} {answers : Answers} {rows : ProjectionRows json}
    {r : CacheRequest} {p : Projection}
    (hversion : ∀ w, run.version promptFingerprint = some w → w = r.version)
    (h : Cache.get rows r = some p) :
    Cache.get (run.exec promptFingerprint toLowercase cacheKey answers rows).1 r = some p := by
  unfold CliRun.exec
  cases hv : run.version promptFingerprint with
  | none => exact h
  | some v =>
    refine projectAll_keeps _ 0 _ ?_
    -- the prune at the start of the run spares its own version
    rw [get_pruneSuperseded, if_pos (hversion v hv).symm, h]

theorem rowsAfter_keeps {r : CacheRequest} {p : Projection} {answers : ℕ → Answers}
    {runs : List CliRun}
    (hversion : ∀ run ∈ runs, ∀ w, run.version promptFingerprint = some w → w = r.version) :
    ∀ {n} {rows : ProjectionRows json}, Cache.get rows r = some p →
      Cache.get (rowsAfter promptFingerprint toLowercase cacheKey answers n runs rows) r =
        some p := by
  induction runs with
  | nil => intro n rows h; exact h
  | cons run runs ih =>
    intro n rows h
    exact ih (fun run' hrun' => hversion run' (List.mem_cons_of_mem _ hrun'))
      (exec_keeps (hversion run List.mem_cons_self) h)

theorem rowsAfter_append (answers : ℕ → Answers) (runs runs' : List CliRun) (n : ℕ)
    (rows : ProjectionRows json) :
    rowsAfter promptFingerprint toLowercase cacheKey answers n (runs ++ runs') rows =
      rowsAfter promptFingerprint toLowercase cacheKey answers (n + runs.length) runs'
        (rowsAfter promptFingerprint toLowercase cacheKey answers n runs rows) := by
  induction runs generalizing n rows with
  | nil => rfl
  | cons run runs ih =>
    rw [List.cons_append, rowsAfter, ih, rowsAfter, List.length_cons, Nat.add_right_comm,
      Nat.add_assoc n]

theorem exec_of_version {run : CliRun} {v : StepVersion}
    (hv : run.version promptFingerprint = some v) (answers : Answers)
    (rows : ProjectionRows json) :
    run.exec promptFingerprint toLowercase cacheKey answers rows =
      projectAll cacheKey v answers 0 run.messages (rows.pruneSuperseded v) := by
  unfold CliRun.exec
  rw [hv]

/-- A row after a run was there before, or is read back from an answer the run got. -/
theorem of_exec_get {run : CliRun} {answers : Answers} {rows : ProjectionRows json}
    {r : CacheRequest} {p : Projection}
    (h : Cache.get (run.exec promptFingerprint toLowercase cacheKey answers rows).1 r = some p) :
    (Cache.get rows r = some p ∧
        ∀ w, run.version promptFingerprint = some w → r.version = w) ∨
      ∃ k dto id, answers k = some dto ∧ p = (parseProjection dto id).mapNumbers json.number := by
  unfold CliRun.exec at h
  cases hv : run.version promptFingerprint with
  | none =>
    rw [hv] at h
    exact Or.inl ⟨h, by simp⟩
  | some v =>
    rw [hv] at h
    rcases of_projectAll_get _ 0 _ h with hrows | ⟨k, dto, id, -, -, hanswer⟩
    · -- the prune kept the row, so it is under the version of the run
      rw [get_pruneSuperseded] at hrows
      split_ifs at hrows with hkeep
      refine Or.inl ⟨hrows, fun w hw => ?_⟩
      rw [hkeep, Option.some.inj hw]
    · exact Or.inr ⟨k, dto, id, hanswer⟩

/-- A row after some runs was there before, or is read back from an answer one of them got. -/
theorem of_rowsAfter_get {answers : ℕ → Answers} {r : CacheRequest} {p : Projection}
    {runs : List CliRun} :
    ∀ {n} {rows : ProjectionRows json},
      Cache.get (rowsAfter promptFingerprint toLowercase cacheKey answers n runs rows) r =
        some p →
      Cache.get rows r = some p ∨ ∃ i k dto id, n ≤ i ∧ i < n + runs.length ∧
        answers i k = some dto ∧ p = (parseProjection dto id).mapNumbers json.number := by
  induction runs with
  | nil => intro n rows h; exact Or.inl h
  | cons run runs ih =>
    intro n rows h
    rw [List.length_cons]
    rcases ih h with hget | ⟨i, k, dto, id, hle, hlt, hanswer, hp⟩
    · rcases of_exec_get hget with ⟨hrows, -⟩ | ⟨k, dto, id, hanswer, hp⟩
      · exact Or.inl hrows
      · exact Or.inr ⟨n, k, dto, id, le_rfl, by omega, hanswer, hp⟩
    · exact Or.inr ⟨i, k, dto, id, by omega, by omega, hanswer, hp⟩

/-- A run under another version drops a row, unless an answer is put for it again. -/
theorem of_rowsAfter_get_of_other {answers : ℕ → Answers} {r : CacheRequest} {p : Projection}
    {runs more : List CliRun} {run : CliRun} {w : StepVersion} {n : ℕ} {rows : ProjectionRows json}
    (hw : run.version promptFingerprint = some w) (hne : w ≠ r.version)
    (h : Cache.get (rowsAfter promptFingerprint toLowercase cacheKey answers n
      (runs ++ run :: more) rows) r = some p) :
    ∃ i k dto id, n + runs.length ≤ i ∧ i < n + (runs ++ run :: more).length ∧
      answers i k = some dto ∧ p = (parseProjection dto id).mapNumbers json.number := by
  rw [← List.singleton_append, rowsAfter_append, rowsAfter_append] at h
  rw [List.length_append, List.length_cons]
  rcases of_rowsAfter_get h with hrow | ⟨i, k, dto, id, hle, hlt, hanswer⟩
  · rcases of_exec_get hrow with ⟨-, hversion⟩ | ⟨k, dto, id, hanswer⟩
    · exact absurd (hversion w hw).symm hne
    · exact ⟨_, k, dto, id, le_rfl, by omega, hanswer⟩
  · rw [List.length_singleton] at hle hlt
    exact ⟨i, k, dto, id, by omega, by omega, hanswer⟩

end Runs

variable (rows₀ : ProjectionRows json)

/-- What a run returns when it is made after the runs `pre`. -/
def returned (answers : ℕ → Answers) (pre : List CliRun) (run : CliRun) :
    List (MessageEnvelope × Option Projection) :=
  (run.exec promptFingerprint toLowercase cacheKey (answers pre.length)
    (rowsAfter promptFingerprint toLowercase cacheKey answers 0 pre rows₀)).2

/-- Once a run under a version has returned a projection for an id and a body, every later run under
that version returns it for them. -/
def Frozen (answers : ℕ → Answers) (runs : List CliRun) : Prop :=
  ∀ pre a mid b post v, runs = pre ++ a :: (mid ++ b :: post) →
    a.version promptFingerprint = some v → b.version promptFingerprint = some v →
    ∀ m p, (m, some p) ∈ returned promptFingerprint toLowercase cacheKey rows₀ answers pre a →
    ∀ m' out,
      (m', out) ∈ returned promptFingerprint toLowercase cacheKey rows₀ answers
        (pre ++ a :: mid) b →
      m'.id = m.id → m'.body = m.body → out = some p

/-- Two runs under one version project the same id and body, and a run between them uses another
version. -/
def ComesBack (runs : List CliRun) : Prop :=
  ∃ pre a mid b post v, runs = pre ++ a :: (mid ++ b :: post) ∧
    a.version promptFingerprint = some v ∧ b.version promptFingerprint = some v ∧
    (∃ c ∈ mid, ∃ w, c.version promptFingerprint = some w ∧ w ≠ v) ∧
    ∃ m ∈ a.messages, ∃ m' ∈ b.messages, m'.id = m.id ∧ m'.body = m.body

/-- Two runs under one version project the same id and body, and the first one finds no row for
them: the table starts without one, or a run under another version came before. -/
def Reprojects (runs : List CliRun) : Prop :=
  ∃ pre a mid b post v, runs = pre ++ a :: (mid ++ b :: post) ∧
    a.version promptFingerprint = some v ∧ b.version promptFingerprint = some v ∧
    ∃ m ∈ a.messages, ∃ m' ∈ b.messages, m'.id = m.id ∧ m'.body = m.body ∧
      (Cache.get rows₀ (projectionRequest cacheKey v m) = none ∨
        ∃ c ∈ pre, ∃ w, c.version promptFingerprint = some w ∧ w ≠ v)

/-- What the model answers has its confidences in `K`. -/
def AnswersIn (K : Set Confidence) (answers : ℕ → Answers) : Prop :=
  ∀ i k dto, answers i k = some dto → .new dto.confidence ∈ K

section Frozen

variable {promptFingerprint} {answers : ℕ → Answers} {pre : List CliRun} {run : CliRun}
  {v : StepVersion} {K : Set Confidence}

/-- A run returns something for every message, if only a failure. -/
theorem exists_mem_returned (answers : ℕ → Answers) (pre : List CliRun)
    (hv : run.version promptFingerprint = some v) {m : MessageEnvelope} (hm : m ∈ run.messages) :
    ∃ out, (m, out) ∈ returned promptFingerprint toLowercase cacheKey rows₀ answers pre run := by
  have hmem : m ∈ (returned promptFingerprint toLowercase cacheKey rows₀ answers pre run).map
      Prod.fst := by
    unfold returned
    rw [exec_of_version hv, projectAll_fst]
    exact hm
  obtain ⟨⟨m', out⟩, hout, rfl⟩ := List.mem_map.mp hmem
  exact ⟨out, hout⟩

/-- A model that always answers returns a projection for every message. -/
theorem exists_returned (answers : ℕ → Answers) (pre : List CliRun)
    (hv : run.version promptFingerprint = some v) (hanswers : ∀ k, (answers pre.length k).isSome)
    {m : MessageEnvelope} (hm : m ∈ run.messages) :
    ∃ p, (m, some p) ∈ returned promptFingerprint toLowercase cacheKey rows₀ answers pre run := by
  obtain ⟨out, hout⟩ := exists_mem_returned toLowercase cacheKey rows₀ answers pre hv hm
  have hsome : out.isSome := by
    have hout' := hout
    unfold returned at hout'
    rw [exec_of_version hv] at hout'
    exact projectAll_isSome hanswers run.messages 0 _ hout'
  obtain ⟨p, rfl⟩ := Option.isSome_iff_exists.mp hsome
  exact ⟨p, hout⟩

variable {toLowercase cacheKey rows₀}

theorem mem_messages_of_returned (hv : run.version promptFingerprint = some v)
    {m : MessageEnvelope} {out : Option Projection}
    (h : (m, out) ∈ returned promptFingerprint toLowercase cacheKey rows₀ answers pre run) :
    m ∈ run.messages := by
  unfold returned at h
  rw [exec_of_version hv] at h
  rw [← projectAll_fst run.messages 0]
  exact List.mem_map_of_mem h

/-- The row of a returned projection, in the table the run leaves. -/
theorem get_of_returned (hv : run.version promptFingerprint = some v) {m : MessageEnvelope}
    {p : Projection}
    (h : (m, some p) ∈ returned promptFingerprint toLowercase cacheKey rows₀ answers pre run) :
    ∃ row, RowOf json (answers pre.length) p row ∧
      Cache.get (rowsAfter promptFingerprint toLowercase cacheKey answers 0 (pre ++ [run]) rows₀)
        (projectionRequest cacheKey v m) = some row := by
  unfold returned at h
  rw [exec_of_version hv] at h
  rw [rowsAfter_append, Nat.zero_add, rowsAfter, rowsAfter, exec_of_version hv]
  exact projectAll_get run.messages 0 _ h

/-- A run that finds a row returns it. -/
theorem eq_of_returned (hv : run.version promptFingerprint = some v) {m : MessageEnvelope}
    {row : Projection} {out : Option Projection}
    (hrow : Cache.get (rowsAfter promptFingerprint toLowercase cacheKey answers 0 pre rows₀)
      (projectionRequest cacheKey v m) = some row)
    (h : (m, out) ∈ returned promptFingerprint toLowercase cacheKey rows₀ answers pre run) :
    out = some row := by
  unfold returned at h
  rw [exec_of_version hv] at h
  refine projectAll_hit run.messages 0 _ ?_ h
  rw [get_pruneSuperseded, if_pos (projectionRequest_version cacheKey v m), hrow]

/-- The row that a run leaves is found by a later one, when no run under another version stands
between them. -/
theorem get_of_later {mid : List CliRun} {m m' : MessageEnvelope} {row : Projection}
    (hmid : ∀ c ∈ mid, ∀ w, c.version promptFingerprint = some w → w = v) (hid : m'.id = m.id)
    (hbody : m'.body = m.body)
    (hrow : Cache.get (rowsAfter promptFingerprint toLowercase cacheKey answers 0 (pre ++ [run])
      rows₀) (projectionRequest cacheKey v m) = some row) :
    Cache.get (rowsAfter promptFingerprint toLowercase cacheKey answers 0 (pre ++ run :: mid) rows₀)
      (projectionRequest cacheKey v m') = some row := by
  have hsame : projectionRequest cacheKey v m' = projectionRequest cacheKey v m := by
    unfold projectionRequest
    rw [hid, hbody]
  rw [← List.singleton_append, ← List.append_assoc, rowsAfter_append, hsame]
  exact rowsAfter_keeps hmid hrow

/-! ### Frozen runs -/

/-- A returned projection is its row, when the model's confidences are read back as they are or the
run finds a row. -/
theorem get_of_returned_of_readBack {runs mid post : List CliRun} {b : CliRun}
    (hread : Reprojects promptFingerprint cacheKey rows₀ runs →
      ∀ x ∈ K, x.mapNumber json.number = x)
    (hanswers : AnswersIn K answers) (hruns : runs = pre ++ run :: (mid ++ b :: post))
    (hv : run.version promptFingerprint = some v) (hb : b.version promptFingerprint = some v)
    {m m' : MessageEnvelope} (hm' : m' ∈ b.messages) (hid : m'.id = m.id) (hbody : m'.body = m.body)
    {p : Projection}
    (h : (m, some p) ∈ returned promptFingerprint toLowercase cacheKey rows₀ answers pre run) :
    Cache.get (rowsAfter promptFingerprint toLowercase cacheKey answers 0 (pre ++ [run]) rows₀)
      (projectionRequest cacheKey v m) = some p := by
  obtain ⟨row, hrowOf, hget⟩ := get_of_returned hv h
  suffices hrow : row = p by rw [hget, hrow]
  by_cases hre : Cache.get rows₀ (projectionRequest cacheKey v m) = none ∨
      ∃ c ∈ pre, ∃ w, c.version promptFingerprint = some w ∧ w ≠ v
  · -- the row may be an answer of the model: its confidence comes back as it was
    have hreads := hread ⟨pre, run, mid, b, post, v, hruns, hv, hb, m,
      mem_messages_of_returned hv h, m', hm', hid, hbody, hre⟩
    rcases hrowOf with hsame | ⟨rfl, k, dto, id, hdto, rfl⟩
    · exact hsame
    · exact (Projection.mapNumbers_eq_self_iff _).mpr (hreads _ (hanswers _ k dto hdto))
  · -- the row the table started with is still there
    rw [not_or] at hre
    obtain ⟨hstart, hpre⟩ := hre
    obtain ⟨first, hfirst⟩ := Option.ne_none_iff_exists'.mp hstart
    have hsame : ∀ c ∈ pre, ∀ w, c.version promptFingerprint = some w → w = v := by
      intro c hc w hw
      by_contra hne
      exact hpre ⟨c, hc, w, hw, hne⟩
    have hfound : Cache.get (rowsAfter promptFingerprint toLowercase cacheKey answers 0 pre rows₀)
        (projectionRequest cacheKey v m) = some first := rowsAfter_keeps hsame hfirst
    have hp : some p = some first := eq_of_returned hv hfound h
    rw [rowsAfter_append] at hget
    have hkept : some row = some first :=
      hget.symm.trans (exec_keeps (fun w hw => Option.some.inj (hw.symm.trans hv)) hfound)
    exact Option.some.inj (hkept.trans hp.symm)

/-- Without a run under another version between them, the later run finds the row. -/
theorem frozen_of_not_comesBack {runs : List CliRun} (h : ¬ComesBack promptFingerprint runs)
    (hread : Reprojects promptFingerprint cacheKey rows₀ runs →
      ∀ x ∈ K, x.mapNumber json.number = x)
    (hanswers : AnswersIn K answers) :
    Frozen promptFingerprint toLowercase cacheKey rows₀ answers runs := by
  intro pre a mid b post v hruns ha hb m p hm m' out hm' hid hbody
  have hmb := mem_messages_of_returned hb hm'
  have hmid : ∀ c ∈ mid, ∀ w, c.version promptFingerprint = some w → w = v := by
    intro c hc w hw
    by_contra hne
    exact h ⟨pre, a, mid, b, post, v, hruns, ha, hb, ⟨c, hc, w, hw, hne⟩, m,
      mem_messages_of_returned ha hm, m', hmb, hid, hbody⟩
  have hrow := get_of_returned_of_readBack hread hanswers hruns ha hb hmb hid hbody hm
  exact eq_of_returned hb (get_of_later hmid hid hbody hrow) hm'

/-! ### Runs that come back -/

/-- A model that answers one intent up to some run and another one from then on. -/
def changingAnswers (change : ℕ) (before after : Intent) (confidence : Confidence) : ℕ → Answers :=
  fun n _ => some ⟨if n < change then before else after, [], [], confidence.get⟩

/-- There is an intent that is neither a question nor that of a given projection. -/
theorem exists_other_intent (row : Option Projection) :
    ∃ intent : Intent, intent ≠ .question ∧ ∀ p, row = some p → p.intent ≠ intent := by
  cases row with
  | none => exact ⟨.decision, by decide, by simp⟩
  | some p₀ =>
    by_cases hp₀ : p₀.intent = .decision
    · exact ⟨.proposal, by decide, by simp [hp₀]⟩
    · exact ⟨.decision, by decide, by simpa using hp₀⟩

/-- When a run comes back, a model that changes its mind at the run in between is not frozen. -/
theorem not_frozen_of_comesBack {runs : List CliRun} (h : ComesBack promptFingerprint runs)
    {x : Confidence} (hx : x ∈ K) :
    ∃ answers, AnswersIn K answers ∧
      ¬Frozen promptFingerprint toLowercase cacheKey rows₀ answers runs := by
  obtain ⟨pre, a, mid, b, post, v, hruns, ha, hb, ⟨c, hc, w, hw, hne⟩, m, hm, m', hm', hid,
    hbody⟩ := h
  obtain ⟨mid₁, mid₂, rfl⟩ := List.append_of_mem hc
  set r := projectionRequest cacheKey v m with hr
  -- an intent that is neither the early answer nor what the table starts with
  obtain ⟨after, hafter, hafter₀⟩ := exists_other_intent (Cache.get rows₀ r)
  set change := (pre ++ a :: mid₁).length with hchange
  set answers := changingAnswers change .question after x with hanswers
  have hin : AnswersIn K answers := fun i k dto hdto => by
    obtain rfl := Option.some.inj hdto
    rwa [Confidence.new_get]
  refine ⟨answers, hin, fun hfrozen => ?_⟩
  obtain ⟨p, hp⟩ := exists_returned toLowercase cacheKey rows₀ answers pre ha (fun _ => rfl) hm
  obtain ⟨p', hp'⟩ := exists_returned toLowercase cacheKey rows₀ answers
    (pre ++ a :: (mid₁ ++ c :: mid₂)) hb (fun _ => rfl) hm'
  have heq : p' = p :=
    Option.some.inj (hfrozen pre a _ b post v hruns ha hb m p hp m' _ hp' hid hbody)
  -- the first run returned an early answer
  have hearly : p.intent ≠ after := by
    obtain ⟨row, hrowOf, hget⟩ := get_of_returned ha hp
    rw [← hrowOf.intent_eq]
    rcases of_rowsAfter_get hget with hrow | ⟨i, k, dto, id, -, hi, hdto, rfl⟩
    · exact hafter₀ row hrow
    · have hlt : i < change := by
        simp only [hchange, List.length_append, List.length_cons, List.length_nil] at hi ⊢
        omega
      obtain rfl := Option.some.inj hdto
      simpa [parseProjection, hlt] using hafter.symm
  -- the run in between pruned the version, so every row of it is a late answer
  have hlate : p'.intent = after := by
    obtain ⟨row, hrowOf, hget⟩ := get_of_returned hb hp'
    rw [← hrowOf.intent_eq]
    have hsplit : pre ++ a :: (mid₁ ++ c :: mid₂) ++ [b] =
        (pre ++ a :: mid₁) ++ c :: (mid₂ ++ [b]) := by simp
    rw [hsplit] at hget
    obtain ⟨i, k, dto, id, hi, -, hdto, rfl⟩ := of_rowsAfter_get_of_other hw hne hget
    obtain rfl := Option.some.inj hdto
    simp [parseProjection, show ¬i < change by omega]
  exact hearly (heq ▸ hlate)

/-! ### Runs that read text back -/

/-- A model that answers one call only. -/
def oneAnswer (run call : ℕ) (confidence : Confidence) : ℕ → Answers := fun i k =>
  if i = run ∧ k = call then some ⟨.question, [], [], confidence.get⟩ else none

theorem eq_of_oneAnswer {i k run call : ℕ} {x : Confidence} {dto : ProjectionDto}
    (h : oneAnswer run call x i k = some dto) :
    i = run ∧ k = call ∧ dto = ⟨.question, [], [], x.get⟩ := by
  unfold oneAnswer at h
  split_ifs at h with heq
  exact ⟨heq.1, heq.2, (Option.some.inj h).symm⟩

/-- No run before the one that gets the answer has put a row. -/
theorem get_eq_none_of_oneAnswer {call : ℕ} {x : Confidence} {m : MessageEnvelope}
    (hfree : Cache.get rows₀ (projectionRequest cacheKey v m) = none ∨
      ∃ c ∈ pre, ∃ w, c.version promptFingerprint = some w ∧ w ≠ v) :
    Cache.get (rowsAfter promptFingerprint toLowercase cacheKey (oneAnswer pre.length call x) 0 pre
      rows₀) (projectionRequest cacheKey v m) = none := by
  by_contra hsome
  obtain ⟨row, hrow⟩ := Option.ne_none_iff_exists'.mp hsome
  rcases hfree with hfirst | ⟨c, hc, w, hw, hne⟩
  · rcases of_rowsAfter_get hrow with hold | ⟨i, k, dto, id, -, hlt, hdto, -⟩
    · rw [hfirst] at hold
      cases hold
    · have hi := (eq_of_oneAnswer hdto).1
      omega
  · -- a run under another version dropped what the table started with
    obtain ⟨pre₁, pre₂, hpre⟩ := List.append_of_mem hc
    rw [hpre] at hrow
    obtain ⟨i, k, dto, id, -, hlt, hdto, -⟩ := of_rowsAfter_get_of_other hw hne hrow
    have hi := (eq_of_oneAnswer hdto).1
    omega

/-- The run that gets the answer returns it for its message, and leaves the row that is read back
from it. -/
theorem projectAll_oneAnswer (i : ℕ) (x : Confidence) (before later : List MessageEnvelope)
    {m : MessageEnvelope} {rows : ProjectionRows json}
    (hfree : Cache.get rows (projectionRequest cacheKey v m) = none) :
    let projected := projectAll cacheKey v (oneAnswer i before.length x i) 0 (before ++ m :: later)
      rows
    let p := parseProjection ⟨.question, [], [], x.get⟩ m.id
    (m, some p) ∈ projected.2 ∧
      Cache.get projected.1 (projectionRequest cacheKey v m) =
        some (p.mapNumbers json.number) := by
  intro projected p
  set answers := oneAnswer i before.length x i with hanswers
  set earlier := projectAll cacheKey v answers 0 before rows with hearlier
  set r := projectionRequest cacheKey v m with hr
  have hmiss : Cache.get earlier.1 r = none := by
    by_contra hsome
    obtain ⟨row, hrow⟩ := Option.ne_none_iff_exists'.mp hsome
    rcases of_projectAll_get before 0 _ hrow with hold | ⟨k, dto, id, -, hlt, hdto, -⟩
    · rw [hfree] at hold
      cases hold
    · have hk := (eq_of_oneAnswer hdto).2.1
      omega
  have hinner : LlmProjector.run (answers before.length) m = some p := by
    have hanswer : answers before.length = some ⟨.question, [], [], x.get⟩ := if_pos ⟨rfl, rfl⟩
    rw [LlmProjector.run, hanswer, Option.map_some]
  -- the call for `m` misses, and its answer is put
  have hrun : Cached.run earlier.1 r (some p) = (some p, Cache.put earlier.1 r p) :=
    Cached.run_of_miss hmiss
  set rest := projectAll cacheKey v answers (before.length + 1) later (Cache.put earlier.1 r p)
    with hrest
  have hprojected : projected = (rest.1, earlier.2 ++ (m, some p) :: rest.2) := by
    show projectAll cacheKey v answers 0 (before ++ m :: later) rows = _
    rw [projectAll_append, ← hearlier, Nat.zero_add]
    dsimp only
    rw [projectAll_cons, hinner, ← hr, hrun]
  rw [hprojected]
  refine ⟨List.mem_append_right _ List.mem_cons_self, projectAll_keeps later _ _ ?_⟩
  exact (LawfulCache.get_put earlier.1 r r p).trans (if_pos rfl)

/-- When a run projects a message again that was projected without a row, a model whose confidence
is not read back as it was is not frozen. -/
theorem not_frozen_of_reprojects {runs : List CliRun}
    (h : Reprojects promptFingerprint cacheKey rows₀ runs)
    (hback : ¬ComesBack promptFingerprint runs) {x : Confidence} (hx : x ∈ K)
    (hread : x.mapNumber json.number ≠ x) :
    ∃ answers, AnswersIn K answers ∧
      ¬Frozen promptFingerprint toLowercase cacheKey rows₀ answers runs := by
  obtain ⟨pre, a, mid, b, post, v, hruns, ha, hb, m, hm, m', hm', hid, hbody, hfree⟩ := h
  obtain ⟨before, later, hsplit⟩ := List.append_of_mem hm
  set answers := oneAnswer pre.length before.length x with hanswers
  have hin : AnswersIn K answers := fun i k dto hdto => by
    obtain ⟨-, -, rfl⟩ := eq_of_oneAnswer hdto
    rwa [Confidence.new_get]
  refine ⟨answers, hin, fun hfrozen => ?_⟩
  have hnone : Cache.get (rowsAfter promptFingerprint toLowercase cacheKey answers 0 pre rows₀)
      (projectionRequest cacheKey v m) = none := get_eq_none_of_oneAnswer hfree
  set start := rowsAfter promptFingerprint toLowercase cacheKey answers 0 pre rows₀ with hstart
  have hopened : Cache.get (start.pruneSuperseded v) (projectionRequest cacheKey v m) = none := by
    rw [get_pruneSuperseded, hnone, ite_self]
  have hexec : a.exec promptFingerprint toLowercase cacheKey (answers pre.length) start =
      projectAll cacheKey v (answers pre.length) 0 (before ++ m :: later)
        (start.pruneSuperseded v) := by
    rw [exec_of_version ha, hsplit]
  obtain ⟨hreturned, hrow⟩ := projectAll_oneAnswer pre.length x before later hopened
  set p := parseProjection ⟨.question, [], [], x.get⟩ m.id with hp
  rw [← hanswers, ← hexec] at hreturned hrow
  -- the second run reads the row, and returns another confidence than the first one
  have hmid : ∀ c ∈ mid, ∀ w, c.version promptFingerprint = some w → w = v := by
    intro c hc w hw
    by_contra hne
    exact hback ⟨pre, a, mid, b, post, v, hruns, ha, hb, ⟨c, hc, w, hw, hne⟩, m, hm, m', hm', hid,
      hbody⟩
  obtain ⟨out, hout⟩ := exists_mem_returned toLowercase cacheKey rows₀ answers (pre ++ a :: mid) hb
    hm'
  have hlater : out = some (p.mapNumbers json.number) := by
    refine eq_of_returned hb (get_of_later hmid hid hbody ?_) hout
    rw [rowsAfter_append, Nat.zero_add]
    exact hrow
  have hsame := hfrozen pre a mid b post v hruns ha hb m p hreturned m' out hout hid hbody
  rw [hlater, Option.some.injEq, Projection.mapNumbers_eq_self_iff, hp, parseProjection,
    Confidence.new_get] at hsame
  exact hread hsame

end Frozen

/-- **When a frozen projection stays frozen**, whatever a model answers whose confidences are in
`K`: exactly when no run under another version stands between two runs that project the same id and
body, and, where two runs under one version project the same id and body and the first finds no
row, every confidence in `K` is read back as it was. -/
theorem frozen_iff (promptFingerprint : String) (toLowercase : String → String)
    (cacheKey : MessageId → String → String) (rows₀ : ProjectionRows json) (runs : List CliRun)
    {K : Set Confidence} (hK : K.Nonempty) :
    (∀ answers, AnswersIn K answers →
        Frozen promptFingerprint toLowercase cacheKey rows₀ answers runs) ↔
      ¬ComesBack promptFingerprint runs ∧
        (Reprojects promptFingerprint cacheKey rows₀ runs →
          ∀ x ∈ K, x.mapNumber json.number = x) := by
  constructor
  · intro h
    have hback : ¬ComesBack promptFingerprint runs := fun hback => by
      obtain ⟨x, hx⟩ := hK
      obtain ⟨answers, hin, hnot⟩ := not_frozen_of_comesBack hback hx
      exact hnot (h answers hin)
    refine ⟨hback, fun hre x hx => ?_⟩
    by_contra hread
    obtain ⟨answers, hin, hnot⟩ := not_frozen_of_reprojects hre hback hx hread
    exact hnot (h answers hin)
  · rintro ⟨hback, hread⟩ answers hanswers
    exact frozen_of_not_comesBack hback hread hanswers

/-- The message of the runs below. -/
def useRust : MessageEnvelope :=
  ⟨⟨"m-1"⟩, .manual, ⟨⟨"u-1"⟩, "Dev"⟩, ⟨⟨"c-1"⟩, none⟩, "use rust"⟩

/-- The settings of a run with a model of Ollama. -/
def ollamaSettings (model : String) : LlmSettings := ⟨⟨model, "v2"⟩, ⟨"gpt-4o-mini", "v2"⟩⟩

/-- A parser that is off in the last bit on one number. -/
def lastBitOff (x : ℚ) : ℚ :=
  if x = 9049407667077843 / 10 ^ 16 then 9049407667077844 / 10 ^ 16 else x

/-- One message is projected twice with one model, whose confidences are read back as they are. -/
theorem frozen_iff_twice :
    let runs : List CliRun :=
      [⟨.ollama, ollamaSettings "a", [useRust]⟩, ⟨.ollama, ollamaSettings "a", [useRust]⟩]
    (∀ answers, AnswersIn {.new (1 / 2)} answers → Frozen "0123456789abcdef" id
      (fun id body => id.val ++ body) (⟨.empty⟩ : ProjectionRows (.decoded lastBitOff)) answers
      runs) ↔
    ¬ComesBack "0123456789abcdef" runs ∧
      (Reprojects "0123456789abcdef" (fun id body => id.val ++ body)
        (⟨.empty⟩ : ProjectionRows (.decoded lastBitOff)) runs →
        ∀ x ∈ ({.new (1 / 2)} : Set Confidence), x.mapNumber lastBitOff = x) :=
  frozen_iff _ _ _ _ _ (Set.singleton_nonempty _)

/-- One message is projected with one model, the next run uses another model, and the third the
first one again: the model is asked again and its new answer is returned. -/
theorem projection_recomputed :
    let runs : List CliRun := [⟨.ollama, ollamaSettings "a", [useRust]⟩,
      ⟨.ollama, ollamaSettings "b", []⟩, ⟨.ollama, ollamaSettings "a", [useRust]⟩]
    ¬∀ answers, Frozen "0123456789abcdef" id (fun id body => id.val ++ body)
      (⟨.empty⟩ : ProjectionRows (.decoded id)) answers runs := by
  intro runs h
  have hfrozen := h (changingAnswers 1 .question .decision (.new 1)) []
    ⟨.ollama, ollamaSettings "a", [useRust]⟩ [⟨.ollama, ollamaSettings "b", []⟩]
    ⟨.ollama, ollamaSettings "a", [useRust]⟩ []
    ⟨"ollama:a:v2:0123456789abcdef"⟩ rfl (by decide) (by decide) useRust
    (parseProjection ⟨.question, [], [], 1⟩ useRust.id) (List.mem_singleton.mpr rfl) useRust
    (some (parseProjection ⟨.decision, [], [], 1⟩ useRust.id)) (List.mem_singleton.mpr rfl) rfl rfl
  have hintent := congrArg (Option.map Projection.intent) hfrozen
  exact absurd hintent (by decide)

end Mirrorlane
