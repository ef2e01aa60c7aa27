import Mathlib.Data.List.Forall2
import Mirrorlane.Foundation.HashedKeys
import Mirrorlane.Worker.Derived

/-!
# What a shared cache key means

Three keys are hashes of ids and bodies: the cache key of a message (`MessageEnvelope.cacheKey`),
the content hash of some messages (`contentHashOf`) and the content hash of a conversation of a
store (`contentHash`).  The bytes they hash are uniquely decodable, for texts and lists of any
length, so a key that is shared by different content is a collision of the 64-bit hash
(`content_encodings_decodable`).
-/

namespace Mirrorlane

/-- The same id and the same body. -/
def SameContent (message message' : MessageEnvelope) : Prop :=
  message.id = message'.id ∧ message.body = message'.body

theorem hashedFields_eq_iff {message message' : MessageEnvelope} :
    hashedFields message = hashedFields message' ↔ SameContent message message' :=
  Prod.ext_iff

/-- Lists agree on the hashed fields when they agree position by position. -/
theorem map_hashedFields_eq_iff {messages messages' : List MessageEnvelope} :
    messages.map hashedFields = messages'.map hashedFields ↔
      List.Forall₂ SameContent messages messages' := by
  rw [← List.forall₂_eq_eq_eq, List.forall₂_map_left_iff, List.forall₂_map_right_iff]
  simp only [hashedFields_eq_iff]

/-- A message feeds its cache key's hasher what it feeds the content hash. -/
theorem keyBytes_eq (message : MessageEnvelope) : message.keyBytes = contentBytes [message] :=
  (List.flatMap_singleton ..).symm

/-- **The bytes of a cache key determine the id and the body.** -/
theorem keyBytes_eq_iff (message message' : MessageEnvelope) :
    message.keyBytes = message'.keyBytes ↔ SameContent message message' := by
  rw [keyBytes_eq, keyBytes_eq, contentBytes_eq_iff, map_hashedFields_eq_iff,
    List.forall₂_cons, and_iff_left List.Forall₂.nil]

/-- **The bytes of a content hash determine the ids and bodies**, position by position. -/
theorem contentBytes_eq_iff_forall₂ (messages messages' : List MessageEnvelope) :
    contentBytes messages = contentBytes messages' ↔
      List.Forall₂ SameContent messages messages' :=
  contentBytes_eq_iff.trans map_hashedFields_eq_iff

/-! ### The keys -/

section Keys

variable (finish : List UInt8 → UInt64)

theorem keyedBy_cacheKey :
    KeyedBy finish MessageEnvelope.keyBytes (MessageEnvelope.cacheKey (finishText finish))
      SameContent :=
  KeyedBy.of_injective hashText_injective keyBytes_eq_iff

theorem keyedBy_contentHashOf :
    KeyedBy finish contentBytes (contentHashOf (finishText finish)) (List.Forall₂ SameContent) :=
  KeyedBy.of_injective hashText_injective contentBytes_eq_iff_forall₂

theorem keyedBy_contentHash :
    KeyedBy finish (fun store : MessageLog × ConversationId => scannedBytes store.1.all store.2)
      (fun store => contentHash (finishText finish) store.1 store.2)
      (fun store store' =>
        List.Forall₂ SameContent (store.1.messagesFor store.2)
          (store'.1.messagesFor store'.2)) := by
  refine KeyedBy.of_injective hashText_injective fun store store' => ?_
  rw [scannedBytes_eq, scannedBytes_eq]
  exact contentBytes_eq_iff_forall₂ _ _

/-- A content hash of 64 bits is free of collisions when the hash is, on what messages feed it. -/
theorem collisionFree_finishText : CollisionFree (finishText finish) ↔ ∀ messages messages',
    ¬Collision finish (contentBytes messages) (contentBytes messages') := by
  refine forall₂_congr fun messages messages' => ?_
  rw [(keyedBy_contentHashOf finish).key_iff, contentBytes_eq_iff_forall₂]
  constructor
  · rintro h hcollision
    exact hcollision.1 ((contentBytes_eq_iff_forall₂ _ _).mpr (h (Or.inr hcollision)))
  · rintro h (hsame | hcollision)
    · exact hsame
    · exact absurd hcollision h

/-- **The hashed encodings are uniquely decodable**, so a collision of any of the three keys is a
collision of the 64-bit hash. -/
theorem content_encodings_decodable :
    KeyedBy finish MessageEnvelope.keyBytes (MessageEnvelope.cacheKey (finishText finish))
        SameContent ∧
      KeyedBy finish contentBytes (contentHashOf (finishText finish)) (List.Forall₂ SameContent) ∧
      KeyedBy finish (fun store : MessageLog × ConversationId => scannedBytes store.1.all store.2)
        (fun store => contentHash (finishText finish) store.1 store.2)
        (fun store store' =>
          List.Forall₂ SameContent (store.1.messagesFor store.2)
            (store'.1.messagesFor store'.2)) ∧
      ∀ (log : MessageLog) (c : ConversationId),
        scannedBytes log.all c = contentBytes (log.messagesFor c) :=
  ⟨keyedBy_cacheKey finish, keyedBy_contentHashOf finish, keyedBy_contentHash finish, fun log c =>
    scannedBytes_eq log.all c⟩

end Keys

end Mirrorlane
