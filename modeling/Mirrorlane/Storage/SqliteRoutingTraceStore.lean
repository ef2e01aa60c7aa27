import Mirrorlane.Storage.SqliteCommon

/-!
# The SQLite routing trace store

`upsert` keeps the `rowid` of a known id and gives a new one the next; an optional cap then prunes
all but the rows of the highest `rowid`s.
-/

namespace Mirrorlane

namespace SqliteRoutingTraceStore

variable {τ : Type}

/-- `CREATE TABLE IF NOT EXISTS routing_traces`. -/
def stepV1 : Step τ := fun db =>
  some { db with routingTraces := some (db.routingTraces.getD []) }

/-- The migration of the trace store. -/
def steps : List (Step τ) := [stepV1]

/-- Open the trace store: the file it leaves, and whether it returned `Ok`. -/
def init (db : Database τ) : Database τ × Bool :=
  migrate db steps

/-- `INSERT … ON CONFLICT(id) DO UPDATE SET payload`. -/
def insertTrace (rows : List TraceRow) (trace : RoutingTrace) : List TraceRow :=
  if trace.messageId ∈ rows.map TraceRow.id then
    rows.map fun row => if row.id = trace.messageId then { row with payload := trace } else row
  else
    -- the implicit `rowid` of a new row is one past the largest there is
    rows ++ [⟨((rows.map TraceRow.rowid).max?).getD 0 + 1, trace.messageId, trace⟩]

/-- `DELETE … WHERE rowid NOT IN (SELECT rowid … ORDER BY rowid DESC LIMIT max)`. -/
def pruneTraces (sql : OrderBy) (rows : List TraceRow) (max : ℕ) : List TraceRow :=
  let kept := ((sql.orderBy (fun row => -(row.rowid : ℤ)) rows).take max).map TraceRow.rowid
  rows.filter fun row => row.rowid ∈ kept

/-- Insert or replace the trace of a message, and prune past the cap. -/
def upsert (sql : OrderBy) (maxTraces : Option ℕ) (db : Database τ) (trace : RoutingTrace) :
    Option (Database τ) := do
  let rows ← db.routingTraces
  let rows := insertTrace rows trace
  let rows := match maxTraces with
    | none => rows
    | some max => pruneTraces sql rows max
  some { db with routingTraces := some rows }

/-- Fetch the trace of a message. -/
def get (db : Database τ) (id : MessageId) : Option (Option RoutingTrace) := do
  let rows ← db.routingTraces
  some ((rows.find? fun row => row.id = id).map TraceRow.payload)

end SqliteRoutingTraceStore

end Mirrorlane
