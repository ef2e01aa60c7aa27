import Mirrorlane.Storage.SqliteCommon

/-!
# The SQLite message store

`append` upserts by id and allocates the next sequence number to a new id; the reads order by it.
The port is infallible, so a SQL error is a panic: every operation returns `none` then.
-/

namespace Mirrorlane

/-- The JSON text of a payload: what `serde_json` writes and reads, and what `json_extract` finds
at `$.conversation.id`. -/
structure PayloadJson (τ : Type) where
  toText : MessageEnvelope → τ
  fromText : τ → Option MessageEnvelope
  extractConversationId : τ → Option ConversationId
  /-- The payload round-trips. -/
  fromText_toText : ∀ message, fromText (toText message) = some message
  /-- `json_extract` returns the decoded conversation id. -/
  extract_toText : ∀ message, extractConversationId (toText message) = some message.conversation.id

/-- Payloads that are kept decoded. -/
def PayloadJson.decoded : PayloadJson MessageEnvelope where
  toText := id
  fromText := some
  extractConversationId message := some message.conversation.id
  fromText_toText _ := rfl
  extract_toText _ := rfl

namespace MessagesTable

variable {τ : Type}

/-- `COALESCE(MAX(seq), 0)`. -/
def maxSeq (t : MessagesTable τ) : ℤ :=
  ((t.rows.map MessageRow.seq).max?).getD 0

/-- `INSERT … ON CONFLICT(id) DO UPDATE SET payload`, the new row numbered past the last one. -/
def upsert (t : MessagesTable τ) (id : MessageId) (payload : τ) : Option (MessagesTable τ) :=
  -- on a conflict only the payload is set, so the row keeps its `seq`
  if id ∈ t.rows.map MessageRow.id then some (t.updatePayload id payload)
  else t.insert ⟨id, t.maxSeq + 1, payload⟩

/-- An upsert never changes the schema. -/
theorem seqUnique_of_upsert {t t' : MessagesTable τ} {id : MessageId} {payload : τ}
    (h : t.upsert id payload = some t') : t'.seqUnique = t.seqUnique := by
  unfold upsert at h
  split_ifs at h
  · rw [← Option.some.inj h, updatePayload_seqUnique]
  · exact seqUnique_of_insert h

/-- `SELECT id, ROW_NUMBER() OVER (ORDER BY seq), payload`. -/
def renumbered (sql : OrderBy) (t : MessagesTable τ) : List (MessageRow τ) :=
  number (fun k row => { row with seq := k }) (sql.orderBy MessageRow.seq t.rows)

/-- The rebuild of schema v2: a new table with `UNIQUE` on `seq`, filled by the numbered rows. -/
def rebuild (sql : OrderBy) (t : MessagesTable τ) : Option (MessagesTable τ) :=
  (t.renumbered sql).foldlM insert (create true)

end MessagesTable

namespace SqliteMessageStore

variable {τ : Type}

/-- v1: `CREATE TABLE IF NOT EXISTS messages`. -/
def stepV1 : Step τ := fun db =>
  some { db with messages := some (db.messages.getD (.create false)) }

/-- v2: rebuild `messages`.  It is read by name, so the step fails when it does not exist. -/
def stepV2 (sql : OrderBy) : Step τ := fun db => do
  let messages ← db.messages
  let messagesV2 ← messages.rebuild sql
  some { db with messages := some messagesV2 }

/-- The migration of the message log. -/
def steps (sql : OrderBy) : List (Step τ) := [stepV1, stepV2 sql]

/-- Open the message log: the file it leaves, and whether it returned `Ok`. -/
def init (sql : OrderBy) (db : Database τ) : Database τ × Bool :=
  migrate db (steps sql)

/-- The statement of `append`, on the values it binds. -/
def upsert (db : Database τ) (id : MessageId) (payload : τ) : Option (Database τ) := do
  let messages ← db.messages
  let messages' ← messages.upsert id payload
  some { db with messages := some messages' }

/-- The rebuild succeeds on an existing table whose rows can be copied. -/
theorem stepV2_eq_some {sql : OrderBy} {db db' : Database τ} (h : stepV2 sql db = some db') :
    ∃ t t', db.messages = some t ∧ t.rebuild sql = some t' ∧
      db' = { db with messages := some t' } := by
  obtain ⟨t, ht, h⟩ := Option.bind_eq_some_iff.mp h
  obtain ⟨t', ht', h⟩ := Option.bind_eq_some_iff.mp h
  exact ⟨t, t', ht, ht', (Option.some.inj h).symm⟩

theorem upsert_eq_some {db db' : Database τ} {id : MessageId} {payload : τ}
    (h : upsert db id payload = some db') :
    ∃ t t', db.messages = some t ∧ t.upsert id payload = some t' ∧
      db' = { db with messages := some t' } := by
  obtain ⟨t, ht, h⟩ := Option.bind_eq_some_iff.mp h
  obtain ⟨t', ht', h⟩ := Option.bind_eq_some_iff.mp h
  exact ⟨t, t', ht, ht', (Option.some.inj h).symm⟩

variable (json : PayloadJson τ) (sql : OrderBy)

/-- Append a message, replacing any existing entry with the same id. -/
def append (db : Database τ) (message : MessageEnvelope) : Option (Database τ) :=
  upsert db message.id (json.toText message)

/-- Fetch a message by id, if present. -/
def get (db : Database τ) (id : MessageId) : Option (Option MessageEnvelope) := do
  let messages ← db.messages
  match messages.rows.find? (fun row => row.id = id) with
  | none => some none
  | some row => (json.fromText row.payload).map some

/-- All messages, in append order. -/
def all (db : Database τ) : Option (List MessageEnvelope) := do
  let messages ← db.messages
  (sql.orderBy MessageRow.seq messages.rows).mapM fun row => json.fromText row.payload

/-- `MIN(seq)` over the rows of one group. -/
def minSeq (rows : List (MessageRow τ)) (cid : Option ConversationId) : ℤ :=
  groupMin MessageRow.seq (fun row => json.extractConversationId row.payload) rows cid

/-- The distinct conversation ids: `GROUP BY cid ORDER BY MIN(seq)`. -/
def conversationIds (db : Database τ) : Option (List ConversationId) := do
  let messages ← db.messages
  let groups := (messages.rows.map fun row => json.extractConversationId row.payload).dedup
  -- `cid` is read into a `String`: a group without a conversation id would panic
  (sql.orderBy (minSeq json messages.rows) groups).mapM id

/-- The messages belonging to `conversation`, in append order. -/
def messagesFor (db : Database τ) (conversation : ConversationId) :
    Option (List MessageEnvelope) := do
  let messages ← db.messages
  let rows := messages.rows.filter fun row =>
    json.extractConversationId row.payload = some conversation
  (sql.orderBy MessageRow.seq rows).mapM fun row => json.fromText row.payload

end SqliteMessageStore

end Mirrorlane
