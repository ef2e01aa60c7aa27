import Mirrorlane.Runtime.Cache
import Mirrorlane.Storage.CacheJson
import Mirrorlane.Storage.SqliteCommon

/-!
# The SQLite projection cache

Entries are keyed by the columns `(version, key)`; the step kind is not part of the durable key.
`ProjectionRows` is the table on its own, of payloads that parse, and it is a lawful `Cache`.  On a
file the port is infallible, so a SQL error or a payload that does not parse is a panic: an
operation returns `none` then.
-/

namespace Mirrorlane

/-- The rows of `projection_cache`. -/
structure ProjectionRows {τ : Type} (json : CacheJson τ) where
  rows : KeyedStore ProjectionKey json.projection.Readable

section Rows

variable {τ : Type} {json : CacheJson τ}

instance : Cache (ProjectionRows json) Projection where
  get t r := (t.rows (r.version, r.key)).map TextCodec.Readable.value
  put t r value := ⟨t.rows.insert (r.version, r.key) (json.projection.write value)⟩

instance : LawfulCache (ProjectionRows json) where
  -- requests that differ in the kind only share a row
  slot r := { r with kind := "" }
  readBack := Projection.mapNumbers json.number
  get_put t r r' value := by
    have hkey : (r'.version, r'.key) = (r.version, r.key) ↔
        ({ r' with kind := "" } : CacheRequest) = { r with kind := "" } := by
      simp only [Prod.mk.injEq, CacheRequest.mk.injEq, true_and]
    simp only [Cache.get, Cache.put, KeyedStore.insert_apply, hkey]
    split_ifs
    · rw [Option.map_some, TextCodec.value_write]
    · rfl
  get_congr t r r' h := by
    rw [CacheRequest.mk.injEq] at h
    simp only [Cache.get, h.2.1, h.2.2]

/-- `DELETE … WHERE version <> ?`. -/
def ProjectionRows.pruneSuperseded (t : ProjectionRows json) (keepVersion : StepVersion) :
    ProjectionRows json :=
  ⟨t.rows.restrict fun key => key.1 = keepVersion⟩

/-- The payload column. -/
def ProjectionRows.texts (t : ProjectionRows json) : KeyedStore ProjectionKey τ :=
  t.rows.map TextCodec.Readable.text

theorem ProjectionRows.texts_put (t : ProjectionRows json) (r : CacheRequest)
    (value : Projection) :
    (Cache.put t r value).texts =
      t.texts.insert (r.version, r.key) (json.projection.toText value) :=
  t.rows.map_insert _ _ _

theorem ProjectionRows.texts_pruneSuperseded (t : ProjectionRows json)
    (keepVersion : StepVersion) :
    (t.pruneSuperseded keepVersion).texts = t.texts.restrict fun key => key.1 = keepVersion :=
  t.rows.map_restrict _ _

end Rows

namespace SqliteProjectionCache

variable {τ : Type}

/-- `CREATE TABLE IF NOT EXISTS projection_cache`. -/
def stepV1 : Step τ := fun db =>
  some { db with projectionCache := some (db.projectionCache.getD .empty) }

/-- The migration of the projection cache. -/
def steps : List (Step τ) := [stepV1]

/-- Open the cache: the file it leaves, and whether it returned `Ok`. -/
def init (db : Database τ) : Database τ × Bool :=
  migrate db steps

/-- Reclaim cached projections under any version other than `keepVersion`. -/
def pruneSuperseded (db : Database τ) (keepVersion : StepVersion) : Option (Database τ) := do
  let rows ← db.projectionCache
  some { db with projectionCache := some (rows.restrict fun key => key.1 = keepVersion) }

/-- The statement of `put`, on the values it binds. -/
def upsert (db : Database τ) (version : StepVersion) (key : String) (payload : τ) :
    Option (Database τ) := do
  let rows ← db.projectionCache
  some { db with projectionCache := some (rows.insert (version, key) payload) }

variable (json : CacheJson τ)

/-- Fetch a cached projection. -/
def get (db : Database τ) (_kind : String) (version : StepVersion) (key : String) :
    Option (Option Projection) := do
  let rows ← db.projectionCache
  json.projection.lookup rows (version, key)

/-- Cache a projection, replacing what the columns held. -/
def put (db : Database τ) (_kind : String) (version : StepVersion) (key : String)
    (value : Projection) : Option (Database τ) :=
  upsert db version key (json.projection.toText value)

end SqliteProjectionCache

end Mirrorlane
