import Mirrorlane.Foundation.FirstSeen
import Mirrorlane.Foundation.UpsertList

/-!
# The message model and the message log

`MessageEnvelope` is one unit of human communication; the log is the source of truth everything else
is re-derived from.  `MessageLog` is what the `MessageStore` port promises, as a type: the messages
in append order, no id twice, a re-appended id replaced in place.  The two adapters
(`InMemoryMessageStore` and the SQLite store) are compared with it in
`Storage/Equiv/MessageStore.lean`.
-/

namespace Mirrorlane

/-- Stable identifier for a message. -/
structure MessageId where
  val : String
  deriving DecidableEq

theorem MessageId.val_inj {a b : MessageId} : a.val = b.val ↔ a = b := by
  cases a
  cases b
  simp

/-- Where a message originated. -/
inductive Source where
  | discord
  | slack
  | gitHub
  | manual
  deriving DecidableEq

/-- Stable identifier for a message author. -/
structure AuthorId where
  val : String
  deriving DecidableEq

theorem AuthorId.val_inj {a b : AuthorId} : a.val = b.val ↔ a = b := by
  cases a
  cases b
  simp

/-- The author of a message. -/
structure Author where
  id : AuthorId
  displayName : String
  deriving DecidableEq

/-- Identifier for a conversation (channel, DM, issue, etc.). -/
structure ConversationId where
  val : String
  deriving DecidableEq

theorem ConversationId.val_inj {a b : ConversationId} : a.val = b.val ↔ a = b := by
  cases a
  cases b
  simp

/-- Identifier for a thread within a conversation. -/
structure ThreadId where
  val : String
  deriving DecidableEq

/-- The conversation a message belongs to, with an optional thread. -/
structure Conversation where
  id : ConversationId
  thread : Option ThreadId
  deriving DecidableEq

/-- A normalized message: the unit of input to the projection pipeline. -/
structure MessageEnvelope where
  id : MessageId
  source : Source
  author : Author
  conversation : Conversation
  body : String
  deriving DecidableEq

/-- A message log: messages in append order, no id twice. -/
structure MessageLog where
  /-- All messages, in append order. -/
  all : List MessageEnvelope
  /-- Each id occurs once. -/
  nodup : (all.map MessageEnvelope.id).Nodup

namespace MessageLog

@[ext] theorem ext {l l' : MessageLog} (h : l.all = l'.all) : l = l' := by
  cases l
  cases l'
  simpa using h

instance : DecidableEq MessageLog := fun l l' =>
  decidable_of_iff (l.all = l'.all) ⟨ext, congrArg all⟩

/-- The log nothing was appended to. -/
def empty : MessageLog := ⟨[], List.nodup_nil⟩

/-- Append a message, replacing any existing entry with the same id in place. -/
def append (log : MessageLog) (message : MessageEnvelope) : MessageLog where
  all := upsertBy MessageEnvelope.id message log.all
  nodup := nodup_map_upsertBy log.nodup message

/-- Fetch a message by id, if present. -/
def get (log : MessageLog) (id : MessageId) : Option MessageEnvelope :=
  log.all.find? (fun message => message.id = id)

/-- The distinct conversation ids present, in first-seen (append) order. -/
def conversationIds (log : MessageLog) : List ConversationId :=
  firstSeen (log.all.map (·.conversation.id))

/-- The messages belonging to `conversation`, in append order. -/
def messagesFor (log : MessageLog) (conversation : ConversationId) : List MessageEnvelope :=
  log.all.filter (fun message => message.conversation.id = conversation)

/-! ### Reading the log -/

@[simp] theorem append_all (log : MessageLog) (message : MessageEnvelope) :
    (log.append message).all = upsertBy MessageEnvelope.id message log.all := rfl

theorem get_append (log : MessageLog) (message : MessageEnvelope) (id : MessageId) :
    (log.append message).get id = if message.id = id then some message else log.get id :=
  find?_upsertBy MessageEnvelope.id message log.all id

theorem get_eq_some_iff {log : MessageLog} {id : MessageId} {message : MessageEnvelope} :
    log.get id = some message ↔ message ∈ log.all ∧ message.id = id := by
  constructor
  · intro h
    exact ⟨List.mem_of_find?_eq_some h, by simpa using List.find?_some h⟩
  · rintro ⟨hmem, rfl⟩
    cases hf : log.get message.id with
    | none =>
      unfold get at hf
      rw [List.find?_eq_none] at hf
      exact absurd (by simp) (hf message hmem)
    | some m =>
      have hm : m ∈ log.all := List.mem_of_find?_eq_some hf
      have hid : m.id = message.id := by simpa using List.find?_some hf
      rw [List.inj_on_of_nodup_map log.nodup hm hmem hid]

theorem get_of_mem {log : MessageLog} {message : MessageEnvelope} (h : message ∈ log.all) :
    log.get message.id = some message :=
  get_eq_some_iff.mpr ⟨h, rfl⟩

theorem isSome_get {log : MessageLog} {id : MessageId} :
    (log.get id).isSome ↔ id ∈ log.all.map MessageEnvelope.id := by
  simp [get, List.find?_isSome]

@[simp] theorem mem_messagesFor {log : MessageLog} {c : ConversationId} {m : MessageEnvelope} :
    m ∈ log.messagesFor c ↔ m ∈ log.all ∧ m.conversation.id = c := by
  simp [messagesFor]

/-- The conversations of a log are those with messages. -/
theorem mem_conversationIds {log : MessageLog} {c : ConversationId} :
    c ∈ log.conversationIds ↔ log.messagesFor c ≠ [] := by
  unfold conversationIds messagesFor
  rw [mem_firstSeen, List.mem_map, Ne, List.filter_eq_nil_iff]
  simp

/-- A message of another conversation, under an id that `c` does not use, leaves `c` alone. -/
theorem messagesFor_append_of_ne {log : MessageLog} {message : MessageEnvelope} {c : ConversationId}
    (hc : message.conversation.id ≠ c)
    (hid : message.id ∉ (log.messagesFor c).map MessageEnvelope.id) :
    (log.append message).messagesFor c = log.messagesFor c := by
  refine filter_upsertBy_of_not (by simp [hc]) fun old hold hkey => ?_
  rw [decide_eq_false_iff_not]
  intro hconversation
  exact hid (hkey ▸ List.mem_map_of_mem (mem_messagesFor.mpr ⟨hold, hconversation⟩))

theorem nodup_messagesFor (log : MessageLog) (c : ConversationId) :
    ((log.messagesFor c).map MessageEnvelope.id).Nodup :=
  log.nodup.sublist (List.Sublist.map _ List.filter_sublist)

end MessageLog

end Mirrorlane
