import Mirrorlane.Core.InMemoryMessageStore
import Mirrorlane.Storage.Equiv.MessagesTable

/-!
# The SQLite message store refines the in-memory one

Both adapters are compared with `MessageLog`: `SqliteMessageStore.Abstracts` says which log a file
stands for, `InMemoryMessageStore.Abstracts` which one a memory store does.  Appends keep both
relations, reopening a file keeps the first, and on related states every read is the log's.

## Main results

* `get_of_abstracts`, `all_of_abstracts`, `conversationIds_of_abstracts`, `messagesFor_of_abstracts`
* `sqlite_refines_inMemory`
-/

namespace Mirrorlane

namespace SqliteMessageStore

variable {τ : Type} (json : PayloadJson τ) (sql : OrderBy)

/-- The entry a message is stored as. -/
def entryOf (message : MessageEnvelope) : MessageId × τ := (message.id, json.toText message)

/-- The file is at the current schema version and its `messages` table represents the log. -/
structure Abstracts (db : Database τ) (log : MessageLog) : Prop where
  userVersion_eq : db.userVersion = 2
  exists_messages : ∃ t, db.messages = some t ∧ t.Represents (log.all.map (entryOf json))

variable {json}

/-! ### Reads -/

section Reads

variable {db : Database τ} {log : MessageLog}

theorem fromText_rowOf (k : ℤ) (message : MessageEnvelope) :
    json.fromText (MessagesTable.rowOf k (entryOf json message)).payload = some message :=
  json.fromText_toText message

/-- Decoding the numbered rows of some messages, filtered, gives the filtered messages. -/
theorem mapM_fromText (json : PayloadJson τ) {p : MessageRow τ → Bool} {q : MessageEnvelope → Bool}
    (hpq : ∀ k message, p (MessagesTable.rowOf k (entryOf json message)) = q message)
    (messages : List MessageEnvelope) :
    ((number MessagesTable.rowOf (messages.map (entryOf json))).filter p).mapM
      (fun row => json.fromText row.payload) = some (messages.filter q) := by
  induction messages using List.reverseRecOn with
  | nil => rfl
  | append_singleton messages message ih =>
    rw [List.map_append, List.map_singleton, number_concat, List.filter_append,
      List.mapM_append, ih]
    cases hq : q message <;> simp [hpq, hq, fromText_rowOf]

theorem all_of_abstracts (h : Abstracts json db log) : all json sql db = some log.all := by
  obtain ⟨t, ht, hrep⟩ := h.exists_messages
  have hread := mapM_fromText json (p := fun _ => true) (q := fun _ => true)
    (fun _ _ => rfl) log.all
  rw [List.filter_true, List.filter_true] at hread
  unfold all
  rw [ht, Option.bind_eq_bind, Option.bind_some, hrep.orderBy_eq]
  exact hread

theorem get_of_abstracts (h : Abstracts json db log) (id : MessageId) :
    get json db id = some (log.get id) := by
  obtain ⟨t, ht, hrep⟩ := h.exists_messages
  have hfind : (t.rows.find? fun row => row.id = id).map MessagesTable.entryOf =
      (log.get id).map (entryOf json) := by
    rw [hrep.find?_rows, List.find?_map]
    rfl
  unfold get
  rw [ht, Option.bind_eq_bind, Option.bind_some]
  cases hrow : t.rows.find? (fun row => decide (row.id = id)) with
  | none =>
    rw [hrow] at hfind
    rw [Option.map_eq_none_iff.mp hfind.symm]
  | some row =>
    rw [hrow, Option.map_some, eq_comm, Option.map_eq_some_iff] at hfind
    obtain ⟨message, hmessage, heq⟩ := hfind
    have hpayload : json.toText message = row.payload := congrArg Prod.snd heq
    show (json.fromText row.payload).map some = some (log.get id)
    rw [hmessage, ← hpayload, json.fromText_toText, Option.map_some]

theorem conversationIds_of_abstracts (h : Abstracts json db log) :
    conversationIds json sql db = some log.conversationIds := by
  obtain ⟨t, ht, hrep⟩ := h.exists_messages
  have hgroup : ∀ k entry, json.extractConversationId (MessagesTable.rowOf k entry).payload =
      json.extractConversationId entry.2 := fun _ _ => rfl
  unfold conversationIds
  rw [ht, Option.bind_eq_bind, Option.bind_some]
  show List.mapM id (sql.orderBy (groupMin MessageRow.seq
    (fun row => json.extractConversationId row.payload) t.rows) _) = _
  -- the rows are numbered in append order, so the least number of a group marks its first message
  rw [orderBy_groupMin_eq sql (fun k x => MessagesTable.seq_rowOf k x) hgroup hrep, List.map_map]
  have hcids : (fun entry : MessageId × τ => json.extractConversationId entry.2) ∘ entryOf json =
      some ∘ fun message => message.conversation.id := by
    funext message
    exact json.extract_toText message
  rw [hcids, ← List.map_map, firstSeen_map (Option.some_injective _), List.mapM_map]
  exact List.mapM_pure (m := Option) (f := id) |>.trans (by rw [List.map_id]; rfl)

theorem messagesFor_of_abstracts (h : Abstracts json db log) (c : ConversationId) :
    messagesFor json sql db c = some (log.messagesFor c) := by
  obtain ⟨t, ht, hrep⟩ := h.exists_messages
  have hstrict : ((number MessagesTable.rowOf (log.all.map (entryOf json))).filter fun row =>
      json.extractConversationId row.payload = some c).Pairwise fun r s => r.seq < s.seq :=
    (pairwise_number (fun k x => MessagesTable.seq_rowOf k x) _).filter _
  unfold messagesFor
  rw [ht, Option.bind_eq_bind, Option.bind_some]
  show List.mapM _ (sql.orderBy MessageRow.seq (t.rows.filter _)) = _
  -- `hstrict`: the sequence numbers of the filtered rows differ, so the ordered read is determined
  rw [sql.orderBy_eq_of_perm (hrep.filter _) hstrict]
  refine mapM_fromText json (fun k message => ?_) log.all
  have hcid : json.extractConversationId (MessagesTable.rowOf k (entryOf json message)).payload =
      some message.conversation.id := json.extract_toText message
  simp [hcid]

end Reads

/-! ### Writes and opens -/

/-- Opening a new file creates an empty log. -/
theorem exists_init_empty (json : PayloadJson τ) (sql : OrderBy) :
    ∃ db, init sql Database.empty = (db, true) ∧ Abstracts json db MessageLog.empty := by
  obtain ⟨t, hrebuild, hrep, -⟩ :=
    (MessagesTable.represents_create (τ := τ) false).exists_rebuild sql
  -- both steps commit: v1 creates the table and v2 rebuilds the empty one
  refine ⟨⟨2, some t, none, none, none⟩, ?_, rfl, t, rfl, hrep⟩
  simp [init, migrate, steps, migrateFrom, Step.commit, stepV1, stepV2, Database.empty, hrebuild]

/-- Reopening a current file changes nothing. -/
theorem init_of_abstracts {db : Database τ} {log : MessageLog} (h : Abstracts json db log) :
    init sql db = (db, true) :=
  migrate_of_length_le h.userVersion_eq.ge

theorem exists_append_eq_some {db : Database τ} {log : MessageLog} (h : Abstracts json db log)
    (message : MessageEnvelope) :
    ∃ db', append json db message = some db' ∧ Abstracts json db' (log.append message) := by
  obtain ⟨t, ht, hrep⟩ := h.exists_messages
  obtain ⟨t', hup, hrep', -⟩ := hrep.exists_upsert_eq_some message.id (json.toText message)
  refine ⟨{ db with messages := some t' }, ?_, h.userVersion_eq, t', rfl, ?_⟩
  · simp [append, upsert, ht, hup]
  · rwa [MessageLog.append_all,
      ← upsertBy_map MessageEnvelope.id Prod.fst (f := entryOf json) fun _ => rfl]

end SqliteMessageStore

/-! ### Runs -/

/-- What happens to a log: a message is appended, or the process ends and opens the file again. -/
inductive LogEvent where
  | append (message : MessageEnvelope)
  | reopen
  deriving DecidableEq

/-- Open the message log, as a caller that needs it does: an open that fails ends the run. -/
def SqliteMessageStore.openOk {τ : Type} (sql : OrderBy) (db : Database τ) : Option (Database τ) :=
  match SqliteMessageStore.init sql db with
  | (db', true) => some db'
  | (_, false) => none

/-- One event on a file; `none` when it panics or fails to open. -/
def SqliteMessageStore.event {τ : Type} (json : PayloadJson τ) (sql : OrderBy) (db : Database τ) :
    LogEvent → Option (Database τ)
  | .append message => SqliteMessageStore.append json db message
  | .reopen => SqliteMessageStore.openOk sql db

/-- One event on the memory store, which has no file to reopen. -/
def InMemoryMessageStore.event (store : InMemoryMessageStore) : LogEvent → InMemoryMessageStore
  | .append message => store.append message
  | .reopen => store

/-- Both stores after some events, each related to the same log. -/
def BothAbstract {τ : Type} (json : PayloadJson τ) (events : List LogEvent) (db : Database τ) :
    Prop :=
  ∃ log, SqliteMessageStore.Abstracts json db log ∧
    InMemoryMessageStore.Abstracts (events.foldl InMemoryMessageStore.event .new) log

/-- The step of the simulation: an event never fails and keeps both relations. -/
theorem bothAbstract_event {τ : Type} (json : PayloadJson τ) (sql : OrderBy)
    (events : List LogEvent) (db : Database τ) (event : LogEvent)
    (h : BothAbstract json events db) :
    ∃ db', SqliteMessageStore.event json sql db event = some db' ∧
      BothAbstract json (events ++ [event]) db' := by
  obtain ⟨log, hdb, hmem⟩ := h
  cases event with
  | append message =>
    obtain ⟨db', happend, hdb'⟩ := SqliteMessageStore.exists_append_eq_some hdb message
    refine ⟨db', happend, log.append message, hdb', ?_⟩
    rw [List.foldl_append]
    exact InMemoryMessageStore.abstracts_append hmem message
  | reopen =>
    refine ⟨db, ?_, log, hdb, ?_⟩
    · unfold SqliteMessageStore.event
      rw [SqliteMessageStore.openOk, SqliteMessageStore.init_of_abstracts sql hdb]
    · rw [List.foldl_append]
      exact hmem

/-- **The SQLite message store refines the in-memory one.** After any appends and reopenings no
operation has failed, no lookup of the memory store misses, and both stores answer every read
alike; the SQL reads by conversation are first-seen de-duplication and filtering of `all`. -/
theorem sqlite_refines_inMemory {τ : Type} (json : PayloadJson τ) (sql : OrderBy)
    (events : List LogEvent) :
    ∃ db messages,
      (SqliteMessageStore.openOk sql Database.empty >>=
        events.foldlM (SqliteMessageStore.event json sql)) = some db ∧
      let store := events.foldl InMemoryMessageStore.event .new
      (store.all = some messages ∧ SqliteMessageStore.all json sql db = some messages) ∧
      (∀ id, SqliteMessageStore.get json db id = some (store.get id)) ∧
      (store.conversationIds = some (firstSeen (messages.map (·.conversation.id))) ∧
        SqliteMessageStore.conversationIds json sql db = store.conversationIds) ∧
      ∀ c, store.messagesFor c = some (messages.filter (fun m => m.conversation.id = c)) ∧
        SqliteMessageStore.messagesFor json sql db c = store.messagesFor c := by
  obtain ⟨db₀, hopen, hdb₀⟩ := SqliteMessageStore.exists_init_empty json sql
  have hinit : BothAbstract json [] db₀ :=
    ⟨.empty, hdb₀, InMemoryMessageStore.abstracts_new⟩
  obtain ⟨db, hrun, log, hdb, hmem⟩ :=
    exists_foldlM_eq_some (bothAbstract_event json sql) events hinit
  rw [List.nil_append] at hmem
  have hconv := InMemoryMessageStore.conversationIds_of_abstracts hmem
  have hfor := InMemoryMessageStore.messagesFor_of_abstracts hmem
  refine ⟨db, log.all, ?_, ⟨InMemoryMessageStore.all_of_abstracts hmem,
    SqliteMessageStore.all_of_abstracts sql hdb⟩, fun id => ?_, ⟨hconv, ?_⟩, fun c => ⟨hfor c, ?_⟩⟩
  · unfold SqliteMessageStore.openOk
    rw [hopen]
    exact hrun
  · rw [SqliteMessageStore.get_of_abstracts hdb, InMemoryMessageStore.get_of_abstracts hmem]
  · rw [hconv, SqliteMessageStore.conversationIds_of_abstracts sql hdb]
  · rw [hfor, SqliteMessageStore.messagesFor_of_abstracts sql hdb]

end Mirrorlane
