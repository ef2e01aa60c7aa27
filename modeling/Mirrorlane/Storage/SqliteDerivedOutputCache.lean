import Mirrorlane.Storage.CacheJson
import Mirrorlane.Storage.SqliteCommon

/-!
# The SQLite derived-output cache

Entries are keyed by the columns `(version, conversation, content)`.  `DerivedRows` is the table on
its own, of payloads that parse, and it is a lawful `DerivedOutputCache`: reclaiming a conversation
deletes its rows but the one it is told to keep.  On a file a SQL error or a payload that does not
parse is a panic: an operation returns `none` then.
-/

namespace Mirrorlane

/-- The condition of `DELETE … WHERE conversation = ? AND NOT (version = ? AND content = ?)`. -/
def DerivedKey.Superseded (conversation : ConversationId) (keepVersion : StepVersion)
    (keepContent : String) (key : DerivedKey) : Prop :=
  key.2.1 = conversation ∧ ¬(key.1 = keepVersion ∧ key.2.2 = keepContent)

instance (conversation : ConversationId) (keepVersion : StepVersion) (keepContent : String) :
    DecidablePred (DerivedKey.Superseded conversation keepVersion keepContent) := fun key =>
  inferInstanceAs (Decidable (key.2.1 = conversation ∧ ¬(_ ∧ _)))

/-- The rows of `derived_output_cache`. -/
structure DerivedRows {τ : Type} (json : CacheJson τ) where
  rows : KeyedStore DerivedKey json.derivation.Readable

section Rows

variable {τ : Type} {json : CacheJson τ}

/-- Delete the superseded rows of a conversation. -/
def DerivedRows.pruneSuperseded (t : DerivedRows json) (conversation : ConversationId)
    (keepVersion : StepVersion) (keepContent : String) : DerivedRows json :=
  ⟨t.rows.restrict fun key => ¬key.Superseded conversation keepVersion keepContent⟩

instance : DerivedOutputCache (DerivedRows json) where
  get t version conversation content :=
    (t.rows (version, conversation, content)).map TextCodec.Readable.value
  put t version conversation content value :=
    ⟨t.rows.insert (version, conversation, content) (json.derivation.write value)⟩
  reclaimSuperseded t conversation keepVersion keepContent :=
    t.pruneSuperseded conversation keepVersion keepContent

instance : LawfulDerivedOutputCache (DerivedRows json) where
  number := json.number
  get_put t v v' c c' h h' d := by
    simp only [DerivedOutputCache.get, DerivedOutputCache.put, KeyedStore.insert_apply,
      Prod.mk.injEq]
    split_ifs
    · rw [Option.map_some, TextCodec.value_write]
    · rfl
  get_reclaim_kept t v v' c c' h h' hkeep := by
    simp only [DerivedOutputCache.get, reclaimSuperseded, DerivedRows.pruneSuperseded]
    -- the condition of the `DELETE` is false of the kept row
    rw [KeyedStore.restrict_apply, if_pos]
    rintro ⟨hc, hne⟩
    exact hne (hkeep hc)
  get_reclaim t v v' c c' h h' d hd := by
    simp only [DerivedOutputCache.get, reclaimSuperseded, DerivedRows.pruneSuperseded,
      KeyedStore.restrict_apply] at hd ⊢
    split_ifs at hd
    · exact absurd hd nofun
    · exact hd

/-- When the parser returns every number as it was written, every derivation is read back. -/
theorem DerivedRows.readsBack (hnumber : json.number = id) (d : ConversationDerivation) :
    LawfulDerivedOutputCache.ReadsBack (DerivedRows json) d := by
  show d.mapNumbers json.number = d
  rw [hnumber, d.mapNumbers_id]

/-- The payload column. -/
def DerivedRows.texts (t : DerivedRows json) : KeyedStore DerivedKey τ :=
  t.rows.map TextCodec.Readable.text

theorem DerivedRows.texts_put (t : DerivedRows json) (version : StepVersion)
    (conversation : ConversationId) (content : String) (value : ConversationDerivation) :
    (DerivedOutputCache.put t version conversation content value).texts =
      t.texts.insert (version, conversation, content) (json.derivation.toText value) :=
  t.rows.map_insert _ _ _

theorem DerivedRows.texts_pruneSuperseded (t : DerivedRows json) (conversation : ConversationId)
    (keepVersion : StepVersion) (keepContent : String) :
    (t.pruneSuperseded conversation keepVersion keepContent).texts =
      t.texts.restrict fun key => ¬key.Superseded conversation keepVersion keepContent :=
  t.rows.map_restrict _ _

end Rows

namespace SqliteDerivedOutputCache

variable {τ : Type}

/-- `CREATE TABLE IF NOT EXISTS derived_output_cache`. -/
def stepV1 : Step τ := fun db =>
  some { db with derivedOutputCache := some (db.derivedOutputCache.getD .empty) }

/-- The migration of the derived-output cache. -/
def steps : List (Step τ) := [stepV1]

/-- Open the cache: the file it leaves, and whether it returned `Ok`. -/
def init (db : Database τ) : Database τ × Bool :=
  migrate db steps

/-- The statement of `put`, on the values it binds. -/
def upsert (db : Database τ) (version : StepVersion) (conversation : ConversationId)
    (content : String) (payload : τ) : Option (Database τ) := do
  let rows ← db.derivedOutputCache
  some { db with
    derivedOutputCache := some (rows.insert (version, conversation, content) payload) }

/-- Reclaim the rows of a conversation but the kept one.  A failed prune is swallowed. -/
def reclaimSuperseded (db : Database τ) (conversation : ConversationId)
    (keepVersion : StepVersion) (keepContent : String) : Database τ :=
  match db.derivedOutputCache with
  | none => db
  | some rows =>
    { db with
      derivedOutputCache := some (rows.restrict fun key =>
        ¬key.Superseded conversation keepVersion keepContent) }

variable (json : CacheJson τ)

/-- Fetch a cached derivation. -/
def get (db : Database τ) (version : StepVersion) (conversation : ConversationId)
    (content : String) : Option (Option ConversationDerivation) := do
  let rows ← db.derivedOutputCache
  json.derivation.lookup rows (version, conversation, content)

/-- Cache a derivation, replacing what the columns held. -/
def put (db : Database τ) (version : StepVersion) (conversation : ConversationId)
    (content : String) (value : ConversationDerivation) : Option (Database τ) :=
  upsert db version conversation content (json.derivation.toText value)

end SqliteDerivedOutputCache

end Mirrorlane
