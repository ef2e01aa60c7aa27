import Mirrorlane.Core.Cache
import Mirrorlane.Worker.Replay

/-!
# From a run's stores to cached derivations

After a run, `populateCache` reads the log again, groups its messages by conversation and writes
each conversation's derivation to the cache, keyed by the version and a content hash of the
conversation's messages.

The hash is a `digest` of the bytes the hasher is fed, rendered as text; nothing is assumed about it
here.
-/

namespace Mirrorlane

/-! ### The content hash -/

/-- The bytes a conversation's messages feed the hasher: each id, then the body. -/
def contentBytes (messages : List MessageEnvelope) : List UInt8 :=
  messages.flatMap fun message => hashedStr message.id.val ++ hashedStr message.body

/-- The content hash of a conversation's messages. -/
def contentHashOf (digest : List UInt8 → String) (messages : List MessageEnvelope) : String :=
  digest (contentBytes messages)

/-- What the content hash covers of a message. -/
def hashedFields (message : MessageEnvelope) : MessageId × String := (message.id, message.body)

/-- The hashed strings of some messages, encoded: an id and a body of each. -/
def contentWords (messages : List MessageEnvelope) : List (List UInt8) :=
  messages.flatMap fun message => [utf8 message.id.val, utf8 message.body]

theorem contentBytes_eq_terminated (messages : List MessageEnvelope) :
    contentBytes messages = terminated 0xFF (contentWords messages) := by
  simp only [contentBytes, terminated, contentWords, List.flatMap_assoc]
  refine List.flatMap_congr fun message _ => ?_
  simp [hashedStr]

theorem notMem_contentWords {messages : List MessageEnvelope} {word : List UInt8}
    (h : word ∈ contentWords messages) : (0xFF : UInt8) ∉ word := by
  obtain ⟨message, -, hmem⟩ := List.mem_flatMap.mp h
  rcases List.mem_cons.mp hmem with rfl | hmem
  · exact notMem_utf8 _
  · rw [List.mem_singleton.mp hmem]
    exact notMem_utf8 _

/-- The words come in pairs, one pair for each message. -/
theorem map_hashedFields_of_contentWords {messages messages' : List MessageEnvelope}
    (h : contentWords messages = contentWords messages') :
    messages.map hashedFields = messages'.map hashedFields := by
  induction messages generalizing messages' with
  | nil =>
    cases messages' with
    | nil => rfl
    | cons message' rest' => simp [contentWords] at h
  | cons message rest ih =>
    cases messages' with
    | nil => simp [contentWords] at h
    | cons message' rest' =>
      simp only [contentWords, List.flatMap_cons, List.cons_append, List.nil_append,
        List.cons.injEq] at h
      obtain ⟨hid, hbody, hrest⟩ := h
      have hid' : message.id = message'.id := MessageId.val_inj.mp (utf8_injective hid)
      rw [List.map_cons, List.map_cons, ih hrest, hashedFields, hashedFields, hid',
        utf8_injective hbody]

/-- **The hashed bytes determine the ids and bodies.** -/
theorem contentBytes_eq_iff {messages messages' : List MessageEnvelope} :
    contentBytes messages = contentBytes messages' ↔
      messages.map hashedFields = messages'.map hashedFields := by
  constructor
  · intro h
    rw [contentBytes_eq_terminated, contentBytes_eq_terminated] at h
    exact map_hashedFields_of_contentWords
      (terminated_injective (fun _ => notMem_contentWords) (fun _ => notMem_contentWords) h)
  · intro h
    have hmap : ∀ messages, contentBytes messages =
        (messages.map hashedFields).flatMap fun fields =>
          hashedStr fields.1.val ++ hashedStr fields.2 := by
      intro messages
      rw [List.flatMap_map]
      rfl
    rw [hmap, hmap, h]

/-- The digest does not collide on the bytes that messages feed it. -/
def CollisionFree (digest : List UInt8 → String) : Prop :=
  ∀ messages messages', contentHashOf digest messages = contentHashOf digest messages' →
    contentBytes messages = contentBytes messages'

/-- The digest that shows every byte as a character. -/
def plainDigest (bytes : List UInt8) : String :=
  String.ofList (bytes.map fun byte => Char.ofUInt8 byte)

theorem collisionFree_plainDigest : CollisionFree plainDigest := by
  intro messages messages' h
  have hchars : (contentBytes messages).map Char.ofUInt8 =
      (contentBytes messages').map Char.ofUInt8 := by
    simpa [contentHashOf, plainDigest] using congrArg String.toList h
  refine List.map_injective_iff.mpr ?_ hchars
  intro a b hab
  have hval : a.toUInt32.toNat = b.toUInt32.toNat := congrArg Char.toNat hab
  rw [UInt8.toNat_toUInt32, UInt8.toNat_toUInt32] at hval
  exact UInt8.toNat_inj.mp hval

/-- The bytes a scan of a store's messages feeds the hasher: a message feeds it when it is of the
conversation. -/
def scannedBytes (all : List MessageEnvelope) (conversation : ConversationId) : List UInt8 :=
  all.foldl (fun hasher message =>
    if message.conversation.id = conversation then
      hasher ++ hashedStr message.id.val ++ hashedStr message.body
    else hasher) []

/-- The same hash, by a scan of the whole log. -/
def contentHash (digest : List UInt8 → String) (log : MessageLog) (conversation : ConversationId) :
    String :=
  digest (scannedBytes log.all conversation)

/-- A scan feeds the hasher what the conversation's own messages do. -/
theorem scannedBytes_eq (all : List MessageEnvelope) (c : ConversationId) :
    scannedBytes all c = contentBytes (all.filter fun message => message.conversation.id = c) := by
  unfold scannedBytes
  induction all using List.reverseRecOn with
  | nil => rfl
  | append_singleton all message ih =>
    rw [List.foldl_append, ih, List.filter_append, contentBytes, contentBytes, List.flatMap_append]
    by_cases hc : message.conversation.id = c
    · simp [hc]
    · simp [hc]

/-- A scan of the log and a conversation's own messages hash to the same text. -/
theorem contentHash_eq (digest : List UInt8 → String) (log : MessageLog) (c : ConversationId) :
    contentHash digest log c = contentHashOf digest (log.messagesFor c) :=
  congrArg digest (scannedBytes_eq log.all c)

/-! ### Derivations -/

/-- Distinct conversation ids in the log, in first-seen order. -/
def conversations (log : MessageLog) : List ConversationId :=
  log.all.foldl (fun seen message =>
    if message.conversation.id ∈ seen then seen else seen ++ [message.conversation.id]) []

/-- The helper and the port's `conversation_ids` are the same loop. -/
theorem conversations_eq (log : MessageLog) : conversations log = log.conversationIds := by
  unfold conversations MessageLog.conversationIds firstSeen
  rw [List.foldl_map]
  rfl

/-- A conversation's message ids, in first-seen order. -/
def messagesIn (log : MessageLog) (conversation : ConversationId) : List MessageId :=
  (log.all.filter fun message => message.conversation.id = conversation).map MessageEnvelope.id

/-- Extract one conversation's derivation from a run's stores, given its messages. -/
def derivationFromMessages (stores : ReplayStores) (conversation : ConversationId)
    (messages : List MessageEnvelope) : Option ConversationDerivation :=
  (stores.warmups conversation).map fun warmup =>
    { conversation
      projections := messages.filterMap fun message => stores.projections message.id
      scope := stores.scopes conversation
      warmup
      developers := stores.developers conversation
      hints := messages.filterMap fun message => stores.hints message.id }

/-- Extract one conversation's derivation from a run's stores. -/
def derivationFor (log : MessageLog) (stores : ReplayStores) (conversation : ConversationId) :
    Option ConversationDerivation :=
  (stores.warmups conversation).map fun warmup =>
    { conversation
      projections := (messagesIn log conversation).filterMap stores.projections
      scope := stores.scopes conversation
      warmup
      developers := stores.developers conversation
      hints := (messagesIn log conversation).filterMap stores.hints }

theorem derivationFor_eq (log : MessageLog) (stores : ReplayStores) (c : ConversationId) :
    derivationFor log stores c = derivationFromMessages stores c (log.messagesFor c) := by
  unfold derivationFor
  rw [messagesIn, derivationFromMessages, List.filterMap_map, List.filterMap_map]
  rfl

/-! ### Populating the cache -/

section Populate

variable (digest : List UInt8 → String)

/-- One write of the keying pass. -/
structure CacheEntry where
  conversation : ConversationId
  content : String
  derivation : ConversationDerivation
  deriving DecidableEq

/-- The log's messages by conversation, first-seen order. -/
def messageGroups (log : MessageLog) : List (ConversationId × List MessageEnvelope) :=
  groupFirstSeen (·.conversation.id) (fun message => message) log.all

/-- What the keying pass writes for one group: nothing when the run left no warm-up for it. -/
def entryFor (stores : ReplayStores) (group : ConversationId × List MessageEnvelope) :
    Option CacheEntry :=
  (derivationFromMessages stores group.1 group.2).map fun derivation =>
    ⟨group.1, contentHashOf digest group.2, derivation⟩

/-- The writes of the keying pass, in first-seen order. -/
def cacheEntries (log : MessageLog) (stores : ReplayStores) : List CacheEntry :=
  (messageGroups log).filterMap (entryFor digest stores)

/-- Put one entry and reclaim what it supersedes. -/
def putEntry {κ : Type} [DerivedOutputCache κ] (version : StepVersion) (cache : κ)
    (entry : CacheEntry) : κ :=
  reclaimSuperseded
    (DerivedOutputCache.put cache version entry.conversation entry.content entry.derivation)
    entry.conversation version entry.content

/-- Write every conversation's derivation to the cache; returns the derivations. -/
def populateCache {κ : Type} [DerivedOutputCache κ] (log : MessageLog) (stores : ReplayStores)
    (cache : κ) (version : StepVersion) : κ × List ConversationDerivation :=
  let entries := cacheEntries digest log stores
  (entries.foldl (putEntry version) cache, entries.map CacheEntry.derivation)

end Populate

end Mirrorlane
