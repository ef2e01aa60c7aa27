import Mirrorlane.Foundation.Machine
import Mirrorlane.Storage.SqliteMessageStore

/-!
# A migration that may be interrupted

`migrate` once more, statement by statement: `Migration.machine` opens one file again and again, and
each open may fail at a statement or stop anywhere.  The file is what is committed; the statements
of an open transaction work on a copy, which is gone when the connection closes.

The steps are arbitrary, over any type of file that has a header version.  An open that nothing
interrupts is `migrate` (`run_of_migrate`).
-/

namespace Mirrorlane

/-- A file that has a header version apart from its schema and its rows. -/
class Versioned (σ : Type) where
  userVersion : σ → ℕ
  setUserVersion : ℕ → σ → σ
  userVersion_setUserVersion : ∀ n file, userVersion (setUserVersion n file) = n
  setUserVersion_userVersion : ∀ file, setUserVersion (userVersion file) file = file
  setUserVersion_setUserVersion : ∀ m n file,
    setUserVersion n (setUserVersion m file) = setUserVersion n file

open Versioned

attribute [simp] userVersion_setUserVersion setUserVersion_setUserVersion
  setUserVersion_userVersion

instance {τ : Type} : Versioned (Database τ) where
  userVersion := Database.userVersion
  setUserVersion n db := { db with userVersion := n }
  userVersion_setUserVersion _ _ := rfl
  setUserVersion_userVersion _ := rfl
  setUserVersion_setUserVersion _ _ _ := rfl

/-- One statement of a schema step; `none` when it fails.  It works on the schema and the rows: the
header version is neither read nor written by it. -/
structure Statement (σ : Type) [Versioned σ] where
  run : σ → Option σ
  run_setUserVersion : ∀ n file, run (setUserVersion n file) = (run file).map (setUserVersion n)

section Statements

variable {σ : Type} [Versioned σ]

/-- What all statements of a step do, one after the other. -/
def stepEffect (step : List (Statement σ)) (file : σ) : Option σ :=
  step.foldlM (fun file statement => statement.run file) file

/-- What the first steps of a migration do, one after the other. -/
def stepsEffect (steps : List (List (Statement σ))) (file : σ) : Option σ :=
  steps.foldlM (fun file step => stepEffect step file) file

/-- The batch `migrate` executes between `BEGIN` and `COMMIT`: the statements of the step and then
the version bump. -/
def stepBatch (step : List (Statement σ)) (next : ℕ) : List (σ → Option σ) :=
  step.map Statement.run ++ [fun file => some (setUserVersion next file)]

/-- Execute statements until one fails. -/
def executeBatch (batch : List (σ → Option σ)) (file : σ) : Option σ :=
  batch.foldlM (fun file statement => statement file) file

theorem executeBatch_stepBatch (step : List (Statement σ)) (next : ℕ) (file : σ) :
    executeBatch (stepBatch step next) file = (stepEffect step file).map (setUserVersion next) := by
  unfold executeBatch stepBatch stepEffect
  rw [List.foldlM_append, List.foldlM_map]
  cases step.foldlM (fun file statement => statement.run file) file <;> rfl

end Statements

/-! ### The machine -/

/-- An open transaction: the copy its statements work on, and what is left of the batch. -/
structure Transaction (σ : Type) where
  working : σ
  remaining : List (σ → Option σ)

/-- A call of `migrate`: the header version it read, the step it considers now, and the transaction
of that step once it has begun. -/
structure MigrationCall (σ : Type) where
  current : ℕ
  next : ℕ
  transaction : Option (Transaction σ)

/-- The committed file, and the call of `migrate` on it if one is running. -/
structure Migration (σ : Type) where
  file : σ
  call : Option (MigrationCall σ)

/-- What happens to the file next. -/
inductive MigrationEvent where
  /-- A connection opens and reads `PRAGMA user_version`. -/
  | readVersion
  /-- `continue`: the step was applied before. -/
  | skip
  | begin
  /-- The next statement of the batch, the version bump included. -/
  | statement
  | commit (next : ℕ)
  /-- The next statement fails: `migrate` returns the error and the connection closes. -/
  | fail
  /-- The connection goes away in the middle: a crash, an I/O error, a lock timeout. -/
  | interrupt
  /-- `migrate` returns `Ok`. -/
  | finish
  deriving DecidableEq

namespace Migration

variable {σ : Type} [Versioned σ]

/-- One atomic event. -/
inductive Move (steps : List (List (Statement σ))) :
    Migration σ → MigrationEvent → Migration σ → Prop
  | readVersion {file : σ} :
      Move steps ⟨file, none⟩ .readVersion ⟨file, some ⟨userVersion file, 0, none⟩⟩
  | skip {file : σ} {current next : ℕ} (hnext : next < steps.length) (hskip : next < current) :
      Move steps ⟨file, some ⟨current, next, none⟩⟩ .skip ⟨file, some ⟨current, next + 1, none⟩⟩
  | begin {file : σ} {current next : ℕ} {step : List (Statement σ)}
      (hstep : steps[next]? = some step) (hskip : ¬next < current) :
      Move steps ⟨file, some ⟨current, next, none⟩⟩ .begin
        ⟨file, some ⟨current, next, some ⟨file, stepBatch step (next + 1)⟩⟩⟩
  | statement {file working working' : σ} {current next : ℕ} {statement : σ → Option σ}
      {remaining : List (σ → Option σ)} (hrun : statement working = some working') :
      Move steps ⟨file, some ⟨current, next, some ⟨working, statement :: remaining⟩⟩⟩ .statement
        ⟨file, some ⟨current, next, some ⟨working', remaining⟩⟩⟩
  -- only here the working copy becomes the file
  | commit {file working : σ} {current next : ℕ} :
      Move steps ⟨file, some ⟨current, next, some ⟨working, []⟩⟩⟩ (.commit next)
        ⟨working, some ⟨current, next + 1, none⟩⟩
  | fail {file working : σ} {current next : ℕ} {statement : σ → Option σ}
      {remaining : List (σ → Option σ)} (hrun : statement working = none) :
      Move steps ⟨file, some ⟨current, next, some ⟨working, statement :: remaining⟩⟩⟩ .fail
        ⟨file, none⟩
  -- the connection closes, so SQLite rolls an open transaction back
  | interrupt {file : σ} {call : MigrationCall σ} :
      Move steps ⟨file, some call⟩ .interrupt ⟨file, none⟩
  | finish {file : σ} {current next : ℕ} (hdone : next = steps.length) :
      Move steps ⟨file, some ⟨current, next, none⟩⟩ .finish ⟨file, none⟩

/-- The opens of one file, one after the other. -/
def machine (steps : List (List (Statement σ))) : Machine (Migration σ) MigrationEvent where
  init s := s.call = none
  step := Move steps

/-! ### A call that nothing interrupts -/

variable {steps : List (List (Statement σ))}

/-- The statements of a batch that succeeds. -/
theorem run_of_executeBatch {file : σ} {current next : ℕ} :
    ∀ {remaining : List (σ → Option σ)} {working working' : σ},
      executeBatch remaining working = some working' →
      (machine steps).Run ⟨file, some ⟨current, next, some ⟨working, remaining⟩⟩⟩
        (List.replicate remaining.length .statement)
        ⟨file, some ⟨current, next, some ⟨working', []⟩⟩⟩ := by
  intro remaining
  induction remaining with
  | nil =>
    intro working working' h
    obtain rfl : working = working' := Option.some.inj h
    exact .nil _
  | cons statement remaining ih =>
    intro working working' h
    obtain ⟨working₁, hrun, hrest⟩ := Option.bind_eq_some_iff.mp
      (show (statement working).bind (executeBatch remaining) = some working' from h)
    exact .cons (.statement hrun) (ih hrest)

/-- The statements of a batch that fails, up to the one that does. -/
theorem run_of_executeBatch_none {file : σ} {current next : ℕ} :
    ∀ {remaining : List (σ → Option σ)} {working : σ}, executeBatch remaining working = none →
      ∃ k, (machine steps).Run ⟨file, some ⟨current, next, some ⟨working, remaining⟩⟩⟩
        (List.replicate k .statement ++ [.fail]) ⟨file, none⟩ := by
  intro remaining
  induction remaining with
  | nil => intro working h; exact absurd h (Option.some_ne_none working)
  | cons statement remaining ih =>
    intro working h
    cases hrun : statement working with
    | none => exact ⟨0, .cons (.fail hrun) (.nil _)⟩
    | some working₁ =>
      have hrest : executeBatch remaining working₁ = none := by
        have hbind : (statement working).bind (executeBatch remaining) = none := h
        rw [hrun] at hbind
        exact hbind
      obtain ⟨k, hk⟩ := ih hrest
      exact ⟨k + 1, .cons (.statement hrun) hk⟩

/-- How a call of `migrate` ends. -/
def endEvent (ok : Bool) : MigrationEvent := if ok then .finish else .fail

/-- From step `next` on, a call that is not interrupted runs the loop of `migrate`. -/
theorem run_of_migrateFrom {τ : Type} {steps : List (List (Statement (Database τ)))} {current : ℕ}
    {rest : List (List (Statement (Database τ)))} :
    ∀ {next : ℕ} {db : Database τ}, next ≤ steps.length → steps.drop next = rest →
      ∃ es, .interrupt ∉ es ∧ (machine steps).Run ⟨db, some ⟨current, next, none⟩⟩
        (es ++ [endEvent (migrateFrom current next (rest.map stepEffect) db).2])
        ⟨(migrateFrom current next (rest.map stepEffect) db).1, none⟩ := by
  induction rest with
  | nil =>
    intro next db hle hdrop
    rw [List.drop_eq_nil_iff] at hdrop
    have hdone : next = steps.length := by omega
    exact ⟨[], List.not_mem_nil, .cons (.finish hdone) (.nil _)⟩
  | cons step rest ih =>
    intro next db hle hdrop
    have hget : steps[next]? = some step := by
      rw [← List.head?_drop, hdrop, List.head?_cons]
    have hlt : next < steps.length := (List.getElem?_eq_some_iff.mp hget).1
    have hdrop' : steps.drop (next + 1) = rest := by
      rw [← List.tail_drop, hdrop, List.tail_cons]
    rw [List.map_cons, migrateFrom]
    by_cases hskip : next < current
    · rw [if_pos hskip]
      have hle' : next + 1 ≤ steps.length := by omega
      obtain ⟨es, hes, hrun⟩ := @ih (next + 1) db hle' hdrop'
      exact ⟨.skip :: es, by simpa using hes, .cons (.skip hlt hskip) hrun⟩
    · rw [if_neg hskip]
      -- `commit` of the step is its batch, executed on the copy
      have hcommit : Step.commit (stepEffect step) (next + 1) db =
          executeBatch (stepBatch step (next + 1)) db := by
        rw [executeBatch_stepBatch]
        rfl
      rw [hcommit]
      cases hbatch : executeBatch (stepBatch step (next + 1)) db with
      | none =>
        obtain ⟨k, hk⟩ := run_of_executeBatch_none hbatch
        refine ⟨.begin :: List.replicate k .statement, ?_, .cons (.begin hget hskip) hk⟩
        simp [List.mem_replicate]
      | some db' =>
        have hle' : next + 1 ≤ steps.length := by omega
        obtain ⟨es, hes, hrun⟩ := @ih (next + 1) db' hle' hdrop'
        refine ⟨.begin :: (List.replicate (stepBatch step (next + 1)).length .statement ++
          .commit next :: es), ?_, ?_⟩
        · simp [List.mem_replicate, hes]
        · rw [List.cons_append, List.append_assoc]
          refine .cons (.begin hget hskip) ?_
          exact (run_of_executeBatch hbatch).append (.cons .commit hrun)

/-- **A call that nothing interrupts is `migrate`.** -/
theorem run_of_migrate {τ : Type} (steps : List (List (Statement (Database τ))))
    (db : Database τ) :
    ∃ es, .interrupt ∉ es ∧ (machine steps).Run ⟨db, none⟩
      (es ++ [endEvent (migrate db (steps.map stepEffect)).2])
      ⟨(migrate db (steps.map stepEffect)).1, none⟩ := by
  obtain ⟨es, hes, hrun⟩ := @run_of_migrateFrom τ steps db.userVersion steps 0 db
    (Nat.zero_le _) List.drop_zero
  exact ⟨.readVersion :: es, by simpa using hes, .cons .readVersion hrun⟩

end Migration

/-! ### The message log -/

namespace SqliteMessageStore

/-- The schema steps of the message log, as transformations of the schema and the rows. -/
def statements (sql : OrderBy) (τ : Type) : List (List (Statement (Database τ))) :=
  [[⟨stepV1, fun _ _ => rfl⟩],
   [⟨stepV2 sql, fun n db => by
      show (db.messages.bind _) = Option.map _ (db.messages.bind _)
      cases db.messages with
      | none => rfl
      | some messages =>
        show ((messages.rebuild sql).bind _) = Option.map _ ((messages.rebuild sql).bind _)
        cases messages.rebuild sql <;> rfl⟩]]

theorem statements_effect (sql : OrderBy) (τ : Type) :
    (statements sql τ).map stepEffect = steps sql := by
  have hsingle : ∀ statement : Statement (Database τ), stepEffect [statement] = statement.run :=
    fun statement => funext fun db => Option.bind_fun_some (statement.run db)
  unfold statements steps
  rw [List.map_cons, List.map_cons, List.map_nil, hsingle, hsingle]

/-- An open of the message log that nothing interrupts. -/
theorem run_of_init {τ : Type} (sql : OrderBy) (db : Database τ) :
    ∃ es, .interrupt ∉ es ∧ (Migration.machine (statements sql τ)).Run ⟨db, none⟩
      (es ++ [Migration.endEvent (init sql db).2]) ⟨(init sql db).1, none⟩ := by
  have hrun := Migration.run_of_migrate (statements sql τ) db
  rwa [statements_effect] at hrun

end SqliteMessageStore

end Mirrorlane
