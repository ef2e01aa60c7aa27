import Mirrorlane.Core.Message
import Mirrorlane.Foundation.Fallible
import Mirrorlane.Foundation.KeyedStore

/-!
# The in-memory message store

An ordered id list next to a map by id.  `all` looks every id of the order up in the map, which
panics on a miss; `abstracts` says which `MessageLog` a store stands for, and under it no lookup
misses.
-/

namespace Mirrorlane

/-- The message log held in memory. -/
structure InMemoryMessageStore where
  order : List MessageId
  byId : KeyedStore MessageId MessageEnvelope

namespace InMemoryMessageStore

/-- An empty log. -/
def new : InMemoryMessageStore := ⟨[], .empty⟩

/-- Append a message, replacing any existing entry with the same id. -/
def append (store : InMemoryMessageStore) (message : MessageEnvelope) : InMemoryMessageStore where
  order := if (store.byId message.id).isSome then store.order else store.order ++ [message.id]
  byId := store.byId.insert message.id message

/-- Fetch a message by id, if present. -/
def get (store : InMemoryMessageStore) (id : MessageId) : Option MessageEnvelope :=
  store.byId id

/-- All messages, in append order; `none` when an id of the order is not in the map. -/
def all (store : InMemoryMessageStore) : Option (List MessageEnvelope) :=
  store.order.mapM store.byId

/-- The distinct conversation ids present, in first-seen order. -/
def conversationIds (store : InMemoryMessageStore) : Option (List ConversationId) :=
  store.all.map fun messages => firstSeen (messages.map (·.conversation.id))

/-- The messages belonging to `conversation`, in append order. -/
def messagesFor (store : InMemoryMessageStore) (conversation : ConversationId) :
    Option (List MessageEnvelope) :=
  store.all.map fun messages => messages.filter (fun m => m.conversation.id = conversation)

/-! ### The log a store stands for -/

/-- The store holds exactly the messages of the log, in the log's order. -/
structure Abstracts (store : InMemoryMessageStore) (log : MessageLog) : Prop where
  order_eq : store.order = log.all.map MessageEnvelope.id
  byId_eq : ∀ id, store.byId id = log.get id

theorem abstracts_new : Abstracts new MessageLog.empty where
  order_eq := rfl
  byId_eq _ := rfl

theorem abstracts_append {store : InMemoryMessageStore} {log : MessageLog}
    (h : Abstracts store log) (message : MessageEnvelope) :
    Abstracts (store.append message) (log.append message) where
  order_eq := by
    have hsome : (store.byId message.id).isSome ↔ message.id ∈ log.all.map MessageEnvelope.id := by
      rw [h.byId_eq, MessageLog.isSome_get]
    simp only [append, MessageLog.append_all, map_upsertBy, hsome, h.order_eq]
  byId_eq id := by
    rw [MessageLog.get_append, append, KeyedStore.insert_apply, h.byId_eq]
    simp only [eq_comm]

/-- **No lookup misses.** -/
theorem all_of_abstracts {store : InMemoryMessageStore} {log : MessageLog}
    (h : Abstracts store log) : store.all = some log.all := by
  have hmem : ∀ message ∈ log.all, (store.byId ∘ MessageEnvelope.id) message = some (id message) :=
    fun message hm => by rw [Function.comp_apply, h.byId_eq, MessageLog.get_of_mem hm, id]
  unfold all
  rw [h.order_eq, List.mapM_map]
  simpa using mapM_eq_some_map hmem

theorem get_of_abstracts {store : InMemoryMessageStore} {log : MessageLog}
    (h : Abstracts store log) (id : MessageId) : store.get id = log.get id :=
  h.byId_eq id

theorem conversationIds_of_abstracts {store : InMemoryMessageStore} {log : MessageLog}
    (h : Abstracts store log) : store.conversationIds = some log.conversationIds := by
  unfold conversationIds
  rw [all_of_abstracts h]
  rfl

theorem messagesFor_of_abstracts {store : InMemoryMessageStore} {log : MessageLog}
    (h : Abstracts store log) (c : ConversationId) :
    store.messagesFor c = some (log.messagesFor c) := by
  unfold messagesFor
  rw [all_of_abstracts h]
  rfl

end InMemoryMessageStore

end Mirrorlane
