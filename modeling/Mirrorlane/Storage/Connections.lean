import Mirrorlane.Foundation.Machine
import Mirrorlane.Storage.SqliteMessageStore

/-!
# Many connections on one file

`migrate` is not one transaction: a connection reads the header version and then commits one step at
a time, and other connections may commit in between.  `Connections.machine` has any number of
connections opening the message log and appending to it, interleaved in any order.

An open that runs alone takes the steps of `migrate` (`run_of_migrateFrom`).
-/

namespace Mirrorlane

/-- Where a connection stands. -/
inductive Connection where
  | idle
  /-- It read the header version `current` and considers step `next` now. -/
  | opening (current next : ℕ)
  | opened
  | failed
  deriving DecidableEq

/-- The file and its connections. -/
structure Connections (ι τ : Type) where
  db : Database τ
  connections : ι → Connection

/-- What a connection does next. -/
inductive ConnectionEvent (ι τ : Type) where
  /-- Open the file and read its header version. -/
  | readVersion (i : ι)
  /-- Skip, commit or roll back the next migration step. -/
  | migrateStep (i : ι)
  /-- Return `Ok` once every step was considered. -/
  | finish (i : ι)
  /-- Stop in the middle of an open: a lock timeout, an I/O error, a crash. -/
  | abort (i : ι)
  | append (i : ι) (id : MessageId) (payload : τ)

namespace Connections

variable {ι τ : Type}

section Machine

variable [DecidableEq ι]

/-- The connection `i` moves to `c`. -/
def moved (s : Connections ι τ) (i : ι) (c : Connection) : ι → Connection :=
  Function.update s.connections i c

/-- One atomic step of one connection. -/
inductive Move (sql : OrderBy) :
    Connections ι τ → ConnectionEvent ι τ → Connections ι τ → Prop
  | readVersion {s : Connections ι τ} {i : ι} (h : s.connections i = .idle) :
      Move sql s (.readVersion i) ⟨s.db, s.moved i (.opening s.db.userVersion 0)⟩
  -- `next < current` is decided on the version the connection read, not on the file's
  | skip {s : Connections ι τ} {i : ι} {current next : ℕ}
      (h : s.connections i = .opening current next)
      (hnext : next < (SqliteMessageStore.steps (τ := τ) sql).length) (hskip : next < current) :
      Move sql s (.migrateStep i) ⟨s.db, s.moved i (.opening current (next + 1))⟩
  -- one transaction: the statements of the step and the header version it is for
  | commit {s : Connections ι τ} {i : ι} {current next : ℕ} {step : Step τ}
      {db' : Database τ} (h : s.connections i = .opening current next)
      (hstep : (SqliteMessageStore.steps sql)[next]? = some step) (hskip : ¬next < current)
      (hcommit : step.commit (next + 1) s.db = some db') :
      Move sql s (.migrateStep i) ⟨db', s.moved i (.opening current (next + 1))⟩
  -- a statement failed: the transaction leaves no trace and `init` returns the error
  | rollback {s : Connections ι τ} {i : ι} {current next : ℕ} {step : Step τ}
      (h : s.connections i = .opening current next)
      (hstep : (SqliteMessageStore.steps sql)[next]? = some step) (hskip : ¬next < current)
      (hfail : step.commit (next + 1) s.db = none) :
      Move sql s (.migrateStep i) ⟨s.db, s.moved i .failed⟩
  | finish {s : Connections ι τ} {i : ι} {current next : ℕ}
      (h : s.connections i = .opening current next)
      (hdone : next = (SqliteMessageStore.steps (τ := τ) sql).length) :
      Move sql s (.finish i) ⟨s.db, s.moved i .opened⟩
  | abort {s : Connections ι τ} {i : ι} {current next : ℕ}
      (h : s.connections i = .opening current next) :
      Move sql s (.abort i) ⟨s.db, s.moved i .failed⟩
  | append {s : Connections ι τ} {i : ι} {id : MessageId} {payload : τ} {db' : Database τ}
      (h : s.connections i = .opened)
      (hupsert : SqliteMessageStore.upsert s.db id payload = some db') :
      Move sql s (.append i id payload) ⟨db', s.connections⟩

/-- The connections of one file.  They start on a new file, or on one that was last written before
the header version existed. -/
def machine (ι τ : Type) [DecidableEq ι] (sql : OrderBy) :
    Machine (Connections ι τ) (ConnectionEvent ι τ) where
  init s := s.db.userVersion = 0 ∧ ∀ i, s.connections i = .idle
  step := Move sql

end Machine

/-- Some open has returned `Ok`. -/
def SomeOpened (s : Connections ι τ) : Prop := ∃ i, s.connections i = .opened

/-- What an event appends. -/
def appended : ConnectionEvent ι τ → List (MessageId × τ)
  | .append _ id payload => [(id, payload)]
  | .readVersion _ | .migrateStep _ | .finish _ | .abort _ => []

/-- The appends of a run, in order. -/
def appends (events : List (ConnectionEvent ι τ)) : List (MessageId × τ) :=
  events.flatMap appended

theorem appends_append (es es' : List (ConnectionEvent ι τ)) :
    appends (es ++ es') = appends es ++ appends es' :=
  List.flatMap_append

/-! ### An open that runs alone -/

variable [DecidableEq ι]

/-- Where an open ends. -/
def openResult (ok : Bool) : Connection := if ok then .opened else .failed

/-- From step `next` on, a connection that is not interleaved with others runs the loop of
`migrate`. -/
theorem run_of_migrateFrom (sql : OrderBy) (i : ι) (current : ℕ)
    {rest : List (Step τ)} :
    ∀ {next : ℕ} {s : Connections ι τ}, next ≤ (SqliteMessageStore.steps (τ := τ) sql).length →
      (SqliteMessageStore.steps sql).drop next = rest →
      s.connections i = .opening current next →
      ∃ es c, (machine ι τ sql).Run s es ⟨(migrateFrom current next rest s.db).1, c⟩ ∧
        c i = openResult (migrateFrom current next rest s.db).2 := by
  induction rest with
  | nil =>
    intro next s hle hdrop hi
    rw [List.drop_eq_nil_iff] at hdrop
    refine ⟨[.finish i], s.moved i .opened, .cons (.finish hi (by omega)) (.nil _), ?_⟩
    simp [moved, migrateFrom, openResult]
  | cons step rest ih =>
    intro next s hle hdrop hi
    have hget : (SqliteMessageStore.steps sql)[next]? = some step := by
      rw [← List.head?_drop, hdrop, List.head?_cons]
    have hlt : next < (SqliteMessageStore.steps (τ := τ) sql).length :=
      (List.getElem?_eq_some_iff.mp hget).1
    have hdrop' : (SqliteMessageStore.steps sql).drop (next + 1) = rest := by
      rw [← List.tail_drop, hdrop, List.tail_cons]
    have hmoved : ∀ c, s.moved i c i = c := fun c => Function.update_self ..
    -- the three ways an iteration of the loop goes are the three moves of `migrateStep`
    by_cases hskip : next < current
    · obtain ⟨es, c, hrun, hc⟩ := ih (s := ⟨s.db, s.moved i (.opening current (next + 1))⟩)
        (by omega) hdrop' (hmoved _)
      unfold migrateFrom
      rw [if_pos hskip]
      exact ⟨_, c, .cons (.skip hi hlt hskip) hrun, hc⟩
    · unfold migrateFrom
      rw [if_neg hskip]
      cases hcommit : step.commit (next + 1) s.db with
      | none =>
        refine ⟨[.migrateStep i], s.moved i .failed,
          .cons (.rollback hi hget hskip hcommit) (.nil _), hmoved _⟩
      | some db' =>
        obtain ⟨es, c, hrun, hc⟩ := ih (s := ⟨db', s.moved i (.opening current (next + 1))⟩)
          (by omega) hdrop' (hmoved _)
        exact ⟨_, c, .cons (.commit hi hget hskip hcommit) hrun, hc⟩

/-- **An open that is not interleaved with others is `SqliteMessageStore.init`.** -/
theorem run_of_init (sql : OrderBy) {i : ι} {s : Connections ι τ} (hi : s.connections i = .idle) :
    ∃ es c, (machine ι τ sql).Run s es ⟨(SqliteMessageStore.init sql s.db).1, c⟩ ∧
      c i = openResult (SqliteMessageStore.init sql s.db).2 := by
  obtain ⟨es, c, hrun, hc⟩ := run_of_migrateFrom sql i s.db.userVersion
    (s := ⟨s.db, s.moved i (.opening s.db.userVersion 0)⟩) (Nat.zero_le _) rfl
    (Function.update_self ..)
  exact ⟨_, c, .cons (.readVersion hi) hrun, hc⟩

end Connections

end Mirrorlane
