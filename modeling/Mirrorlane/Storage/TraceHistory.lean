import Mirrorlane.Foundation.Machine
import Mirrorlane.Storage.SqliteRoutingTraceStore

/-!
# Openings of one trace file

The cap is a setting of the opened store, not of the file: a file is opened in one run with one cap
and in the next with another, or with none.  `TraceHistory.machine` has every history of openings
and upserts of one file that was new at its first opening.
-/

namespace Mirrorlane

/-- An opened trace store: its file, and the cap it was opened with. -/
structure TraceStore (τ : Type) where
  conn : Database τ
  maxTraces : Option ℕ

namespace TraceStore

variable {τ : Type}

/-- Open a store and bound it, or not.  `none` when the open returns an error. -/
def openWith (maxTraces : Option ℕ) (db : Database τ) : Option (TraceStore τ) :=
  match SqliteRoutingTraceStore.init db with
  | (db, true) => some ⟨db, maxTraces⟩
  | (_, false) => none

/-- Upsert a trace. -/
def upsert (sql : OrderBy) (store : TraceStore τ) (trace : RoutingTrace) :
    Option (TraceStore τ) :=
  (SqliteRoutingTraceStore.upsert sql store.maxTraces store.conn trace).map fun conn =>
    { store with conn }

/-- Upsert some traces, in order. -/
def upsertAll (sql : OrderBy) (store : TraceStore τ) (traces : List RoutingTrace) :
    Option (TraceStore τ) :=
  traces.foldlM (upsert sql) store

/-- Fetch the trace of a message. -/
def get (store : TraceStore τ) (id : MessageId) : Option (Option RoutingTrace) :=
  SqliteRoutingTraceStore.get store.conn id

/-- The rows of the trace table. -/
def rows (store : TraceStore τ) : List TraceRow := store.conn.routingTraces.getD []

end TraceStore

/-- An opening of the file or an upsert into the store that is open. -/
inductive TraceOp where
  | reopen (maxTraces : Option ℕ)
  | upsert (trace : RoutingTrace)
  deriving DecidableEq

namespace TraceHistory

variable {τ : Type}

/-- One operation. -/
def next (sql : OrderBy) (store : TraceStore τ) : TraceOp → Option (TraceStore τ)
  | .reopen maxTraces => TraceStore.openWith maxTraces store.conn
  | .upsert trace => store.upsert sql trace

/-- The histories of a file. -/
def machine (τ : Type) (sql : OrderBy) : Machine (TraceStore τ) TraceOp where
  init store := ∃ maxTraces, TraceStore.openWith maxTraces Database.empty = some store
  step store op store' := next sql store op = some store'

end TraceHistory

end Mirrorlane
