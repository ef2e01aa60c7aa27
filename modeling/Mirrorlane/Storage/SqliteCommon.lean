import Mirrorlane.Storage.Database

/-!
# Schema migration

`migrate` runs the ordered schema steps of one store, gated on the header version of the file.  Each
step commits together with its version bump or not at all, so a step that fails leaves the file as
the steps before it left it.
-/

namespace Mirrorlane

variable {τ : Type}

/-- A schema step: the batch of statements between `BEGIN` and the version bump.  `none` when a
statement fails. -/
abbrev Step (τ : Type) := Database τ → Option (Database τ)

/-- One transaction: the step and its version bump. -/
def Step.commit (step : Step τ) (next : ℕ) (db : Database τ) : Option (Database τ) :=
  (step db).map fun db' => { db' with userVersion := next }

/-- The loop of `migrate` from step `i`: the file it leaves, and whether it returned `Ok`. -/
def migrateFrom (current : ℕ) : ℕ → List (Step τ) → Database τ → Database τ × Bool
  | _, [], db => (db, true)
  | i, step :: steps, db =>
    -- `current` is read once, before the loop, and outside every transaction
    if i < current then migrateFrom current (i + 1) steps db
    else
      match step.commit (i + 1) db with
      -- `execute_batch` failed: the steps before this one stay committed
      | none => (db, false)
      | some db' => migrateFrom current (i + 1) steps db'

/-- Apply the steps not yet applied to the file, as its header version tells them. -/
def migrate (db : Database τ) (steps : List (Step τ)) : Database τ × Bool :=
  migrateFrom db.userVersion 0 steps db

/-- A file at or past the last step is left as it is, whatever its tables are. -/
theorem migrateFrom_of_le {current i : ℕ} {steps : List (Step τ)} (db : Database τ)
    (h : i + steps.length ≤ current) : migrateFrom current i steps db = (db, true) := by
  induction steps generalizing i with
  | nil => rfl
  | cons step steps ih =>
    rw [List.length_cons] at h
    unfold migrateFrom
    rw [if_pos (by omega)]
    exact ih (by omega)

theorem migrate_of_length_le {db : Database τ} {steps : List (Step τ)}
    (h : steps.length ≤ db.userVersion) : migrate db steps = (db, true) :=
  migrateFrom_of_le db (by omega)

/-- A one-step migration of a file that has no version yet. -/
theorem migrate_singleton (step : Step τ) {db db' : Database τ} (hversion : db.userVersion = 0)
    (hstep : step db = some db') : migrate db [step] = ({ db' with userVersion := 1 }, true) := by
  have hcommit : step.commit 1 db = some { db' with userVersion := 1 } := by
    unfold Step.commit
    rw [hstep, Option.map_some]
  unfold migrate
  rw [hversion, migrateFrom, if_neg (lt_irrefl 0), hcommit]
  rfl

/-- What every step keeps, a migration keeps, also one that fails midway. -/
theorem migrateFrom_keeps {P : Database τ → Prop} {current i : ℕ} {steps : List (Step τ)}
    (hstep : ∀ step ∈ steps, ∀ next db db', P db → step.commit next db = some db' → P db')
    {db : Database τ} (hdb : P db) : P (migrateFrom current i steps db).1 := by
  induction steps generalizing i db with
  | nil => exact hdb
  | cons step steps ih =>
    have hsteps : ∀ s ∈ steps, ∀ next db db', P db → s.commit next db = some db' → P db' :=
      fun s hs => hstep s (List.mem_cons_of_mem _ hs)
    rw [migrateFrom]
    split_ifs
    · exact ih hsteps hdb
    · split
      · exact hdb
      · rename_i db' hcommit
        exact ih hsteps (hstep step List.mem_cons_self _ _ _ hdb hcommit)

end Mirrorlane
