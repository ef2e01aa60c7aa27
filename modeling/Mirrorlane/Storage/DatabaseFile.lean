import Mirrorlane.Storage.SqliteDerivedOutputCache
import Mirrorlane.Storage.SqliteMessageStore
import Mirrorlane.Storage.SqliteProjectionCache
import Mirrorlane.Storage.SqliteRoutingTraceStore

/-!
# The four stores on one file

Every store is opened on the same path, so the history of a file is a list of opens and writes of
all four of them.  `FileOp.apply` runs one of them; an open that returns an error and a write that
panics leave the file as the statements before the failing one left it.
-/

namespace Mirrorlane

variable {τ : Type}

/-- The four SQLite stores. -/
inductive StoreKind where
  | messages
  | projectionCache
  | derivedOutputCache
  | routingTraces
  deriving DecidableEq

namespace StoreKind

/-- The migration of a store. -/
def steps (sql : OrderBy) : StoreKind → List (Step τ)
  | .messages => SqliteMessageStore.steps sql
  | .projectionCache => SqliteProjectionCache.steps
  | .derivedOutputCache => SqliteDerivedOutputCache.steps
  | .routingTraces => SqliteRoutingTraceStore.steps

/-- Open a store on a file: the file it leaves, and whether it returned `Ok`. -/
def init (sql : OrderBy) (kind : StoreKind) (db : Database τ) : Database τ × Bool :=
  migrate db (kind.steps sql)

/-- The store's table exists. -/
def present (db : Database τ) : StoreKind → Bool
  | .messages => db.messages.isSome
  | .projectionCache => db.projectionCache.isSome
  | .derivedOutputCache => db.derivedOutputCache.isSome
  | .routingTraces => db.routingTraces.isSome

/-- The store's table exists in its current schema. -/
def ready (db : Database τ) : StoreKind → Bool
  | .messages => db.messages.any MessagesTable.seqUnique
  | kind => kind.present db

/-- The store's table and its rows are the same in both files. -/
def SameTable (db db' : Database τ) : StoreKind → Prop
  | .messages => db'.messages = db.messages
  | .projectionCache => db'.projectionCache = db.projectionCache
  | .derivedOutputCache => db'.derivedOutputCache = db.derivedOutputCache
  | .routingTraces => db'.routingTraces = db.routingTraces

theorem present_of_ready {db : Database τ} {kind : StoreKind} (h : kind.ready db = true) :
    kind.present db = true := by
  cases kind with
  | messages => exact Option.isSome_of_any h
  | projectionCache => exact h
  | derivedOutputCache => exact h
  | routingTraces => exact h

end StoreKind

/-- The JSON text of the payloads of a file. -/
structure FileJson (τ : Type) where
  messages : PayloadJson τ
  caches : CacheJson τ

/-- Payloads that are kept decoded, when numbers are parsed as `number` says. -/
def FileJson.decoded (number : ℚ → ℚ) : FileJson DecodedPayload where
  messages := {
    toText := .message
    fromText := fun
      | .message m => some m
      | .projection _ | .derivation _ => none
    extractConversationId := fun
      | .message m => some m.conversation.id
      | .projection _ | .derivation _ => none
    fromText_toText := fun _ => rfl
    extract_toText := fun _ => rfl }
  caches := .decoded number

/-! ### Histories of a file -/

/-- An open or a write. -/
inductive FileOp (τ : Type) where
  | openStore (kind : StoreKind)
  | append (id : MessageId) (payload : τ)
  | putProjection (version : StepVersion) (key : String) (payload : τ)
  | pruneProjections (keepVersion : StepVersion)
  | putDerivation (version : StepVersion) (conversation : ConversationId) (content : String)
      (payload : τ)
  | reclaimDerivations (conversation : ConversationId) (keepVersion : StepVersion)
      (keepContent : String)
  | upsertTrace (maxTraces : Option ℕ) (trace : RoutingTrace)

namespace FileOp

/-- The file after a statement, which is unchanged when it fails. -/
def orKeep (db : Database τ) : Option (Database τ) → Database τ
  | some db' => db'
  | none => db

/-- The file after one operation. -/
def apply (sql : OrderBy) (db : Database τ) : FileOp τ → Database τ
  | .openStore kind => (kind.init sql db).1
  | .append id payload => orKeep db (SqliteMessageStore.upsert db id payload)
  | .putProjection version key payload =>
    orKeep db (SqliteProjectionCache.upsert db version key payload)
  | .pruneProjections keepVersion =>
    orKeep db (SqliteProjectionCache.pruneSuperseded db keepVersion)
  | .putDerivation version conversation content payload =>
    orKeep db (SqliteDerivedOutputCache.upsert db version conversation content payload)
  | .reclaimDerivations conversation keepVersion keepContent =>
    SqliteDerivedOutputCache.reclaimSuperseded db conversation keepVersion keepContent
  | .upsertTrace maxTraces trace =>
    orKeep db (SqliteRoutingTraceStore.upsert sql maxTraces db trace)

/-- The file after a history. -/
def applyAll (sql : OrderBy) (db : Database τ) (ops : List (FileOp τ)) : Database τ :=
  ops.foldl (apply sql) db

/-- The store an operation opens. -/
def opened : FileOp τ → Option StoreKind
  | .openStore kind => some kind
  | _ => none

/-- The stores a history opens, in order. -/
def opens (ops : List (FileOp τ)) : List StoreKind :=
  ops.filterMap opened

end FileOp

end Mirrorlane
