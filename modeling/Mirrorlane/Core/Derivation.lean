import Mirrorlane.Core.Projection
import Mirrorlane.Foundation.KeyedStore

/-!
# The per-conversation derived-output unit and its cache port

`ConversationDerivation` is the reproducible derivation of one conversation.  `DerivedOutputCache`
is the port for caching it, keyed by a derivation version, a conversation and a content hash;
`LawfulDerivedOutputCache` is what its callers rely on: a `put` answers its own key and no other,
and reclaiming a conversation keeps the key it is told to keep and every other conversation.
Reclaiming is best-effort, so a superseded row may or may not survive it.

A cache that keeps text may answer other numbers than were put (`number`).
-/

namespace Mirrorlane

/-- The identity-version of a step. -/
structure StepVersion where
  val : String
  deriving DecidableEq

/-- The version of the derivation code. -/
def derivationSchemaVersion : String := "1"

/-- Compose the version that keys the derived-output cache: the schema version, the strategy id and
the projector's version. -/
def derivationVersion (strategy : String) (projector : StepVersion) : StepVersion :=
  ⟨derivationSchemaVersion ++ ":" ++ strategy ++ ":" ++ projector.val⟩

/-- The reproducible derived output for one conversation. -/
structure ConversationDerivation where
  conversation : ConversationId
  projections : List Projection
  scope : Option Scope
  warmup : WarmupDocument
  developers : Option SessionDevelopers
  hints : List RoutingHint
  deriving DecidableEq

/-- The derivation when its numbers come back changed. -/
def ConversationDerivation.mapNumbers (f : ℚ → ℚ) (d : ConversationDerivation) :
    ConversationDerivation where
  conversation := d.conversation
  projections := d.projections.map (Projection.mapNumbers f)
  scope := d.scope.map (Scope.mapNumbers f)
  warmup := d.warmup
  developers := d.developers.map (SessionDevelopers.mapNumbers f)
  hints := d.hints.map (RoutingHint.mapNumbers f)

@[simp] theorem ConversationDerivation.mapNumbers_id (d : ConversationDerivation) :
    d.mapNumbers id = d := by
  have hprojections : Projection.mapNumbers id = id := funext Projection.mapNumbers_id
  have hscope : Scope.mapNumbers id = id := funext Scope.mapNumbers_id
  have hdevelopers : SessionDevelopers.mapNumbers id = id :=
    funext SessionDevelopers.mapNumbers_id
  have hhints : RoutingHint.mapNumbers id = id := funext RoutingHint.mapNumbers_id
  rw [mapNumbers, hprojections, hscope, hdevelopers, hhints]
  simp only [List.map_id, Option.map_id_apply]

/-- The messages it projects are the same. -/
@[simp] theorem ConversationDerivation.map_messageId_mapNumbers (f : ℚ → ℚ)
    (d : ConversationDerivation) : (d.mapNumbers f).projections.map Projection.messageId =
      d.projections.map Projection.messageId := by
  rw [mapNumbers, List.map_map]
  rfl

/-- A cache of derivations, keyed by a derivation version, a conversation and a hash of its message
content. -/
class DerivedOutputCache (κ : Type) where
  /-- Fetch the cached derivation for `(version, conversation, content)`. -/
  get : κ → StepVersion → ConversationId → String → Option ConversationDerivation
  /-- Cache a value under `(version, conversation, content)`. -/
  put : κ → StepVersion → ConversationId → String → ConversationDerivation → κ
  /-- Reclaim output for the conversation superseded by `(keepVersion, keepContent)`. -/
  reclaimSuperseded : κ → ConversationId → StepVersion → String → κ

export DerivedOutputCache (reclaimSuperseded)

/-- What the callers of a derived-output cache rely on. -/
class LawfulDerivedOutputCache (κ : Type) [DerivedOutputCache κ] where
  /-- What a number is read back as. -/
  number : ℚ → ℚ
  /-- A put answers its own key and leaves every other key alone. -/
  get_put : ∀ (cache : κ) (v v' : StepVersion) (c c' : ConversationId) (h h' : String) d,
    DerivedOutputCache.get (DerivedOutputCache.put cache v c h d) v' c' h' =
      if v' = v ∧ c' = c ∧ h' = h then some (d.mapNumbers number)
      else DerivedOutputCache.get cache v' c' h'
  /-- Reclaiming keeps the kept key and every other conversation. -/
  get_reclaim_kept : ∀ (cache : κ) (v v' : StepVersion) (c c' : ConversationId) (h h' : String),
    (c' = c → v' = v ∧ h' = h) →
    DerivedOutputCache.get (reclaimSuperseded cache c v h) v' c' h' =
      DerivedOutputCache.get cache v' c' h'
  /-- Reclaiming never changes a row it does not remove. -/
  get_reclaim : ∀ (cache : κ) (v v' : StepVersion) (c c' : ConversationId) (h h' : String) d,
    DerivedOutputCache.get (reclaimSuperseded cache c v h) v' c' h' = some d →
      DerivedOutputCache.get cache v' c' h' = some d

/-- The cache answers a derivation as it was put. -/
def LawfulDerivedOutputCache.ReadsBack (κ : Type) [DerivedOutputCache κ]
    [LawfulDerivedOutputCache κ] (d : ConversationDerivation) : Prop :=
  d.mapNumbers (number κ) = d

theorem LawfulDerivedOutputCache.map_mapNumbers {κ : Type} [DerivedOutputCache κ]
    [LawfulDerivedOutputCache κ] (hround : ∀ d, ReadsBack κ d)
    (derivation : Option ConversationDerivation) :
    derivation.map (ConversationDerivation.mapNumbers (number κ)) = derivation := by
  have hid : ConversationDerivation.mapNumbers (number κ) = id := funext hround
  rw [hid, Option.map_id_apply]

/-- The columns a derivation is keyed by. -/
abbrev DerivedKey := StepVersion × ConversationId × String

/-- An in-memory derived-output cache: a map with a tuple key.  Reclaiming is the port's default, a
no-op. -/
structure InMemoryDerivedOutputCache where
  inner : KeyedStore DerivedKey ConversationDerivation

instance : DerivedOutputCache InMemoryDerivedOutputCache where
  get cache version conversation content := cache.inner (version, conversation, content)
  put cache version conversation content value :=
    ⟨cache.inner.insert (version, conversation, content) value⟩
  reclaimSuperseded cache _ _ _ := cache

instance : LawfulDerivedOutputCache InMemoryDerivedOutputCache where
  number := id
  get_put cache v v' c c' h h' d := by
    simp only [DerivedOutputCache.get, DerivedOutputCache.put, KeyedStore.insert_apply,
      Prod.mk.injEq, ConversationDerivation.mapNumbers_id]
  get_reclaim_kept cache v v' c c' h h' _ := rfl
  get_reclaim cache v v' c c' h h' d hd := hd

/-- Values kept in memory stay as they are. -/
theorem InMemoryDerivedOutputCache.readsBack (d : ConversationDerivation) :
    LawfulDerivedOutputCache.ReadsBack InMemoryDerivedOutputCache d :=
  d.mapNumbers_id

end Mirrorlane
