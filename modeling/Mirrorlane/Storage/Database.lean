import Mirrorlane.Core.Derivation
import Mirrorlane.Core.Message
import Mirrorlane.Core.Routing
import Mirrorlane.Foundation.OrderBy

/-!
# One SQLite database file

The four stores share a file: its tables and its single `user_version` header.  A table that was
not created is `none`, and a statement that names it fails.  Tables carry the constraints they were
created with, so a row that would break one cannot be inserted.

The payload columns of `messages` and of the two caches are opaque text of type `τ`.  A payload of
`routing_traces` has no numbers in it and is read back as it was written: these are kept decoded.
-/

namespace Mirrorlane

/-! ### The `messages` table -/

/-- A row of `messages`. -/
structure MessageRow (τ : Type) where
  id : MessageId
  seq : ℤ
  payload : τ
  deriving DecidableEq

/-- The `messages` table.  `id` is its primary key; the current schema also has `UNIQUE` on `seq`.
The rows stand in storage order, which no query may depend on. -/
structure MessagesTable (τ : Type) where
  seqUnique : Bool
  rows : List (MessageRow τ)
  id_nodup : (rows.map MessageRow.id).Nodup
  seq_nodup : seqUnique = true → (rows.map MessageRow.seq).Nodup

namespace MessagesTable

variable {τ : Type}

/-- `CREATE TABLE`: no rows. -/
def create (seqUnique : Bool) : MessagesTable τ where
  seqUnique := seqUnique
  rows := []
  id_nodup := List.nodup_nil
  seq_nodup _ := List.nodup_nil

/-- `INSERT` of one row; `none` when it breaks a constraint. -/
def insert (t : MessagesTable τ) (row : MessageRow τ) : Option (MessagesTable τ) :=
  if h : row.id ∉ t.rows.map MessageRow.id ∧
      (t.seqUnique = true → row.seq ∉ t.rows.map MessageRow.seq) then
    some {
      seqUnique := t.seqUnique
      rows := t.rows ++ [row]
      id_nodup := by
        rw [List.map_append, List.map_singleton, ← List.concat_eq_append]
        exact t.id_nodup.concat h.1
      seq_nodup := fun hu => by
        rw [List.map_append, List.map_singleton, ← List.concat_eq_append]
        exact (t.seq_nodup hu).concat (h.2 hu) }
  else none

/-- `UPDATE` of the payload of one row. -/
def updatePayload (t : MessagesTable τ) (id : MessageId) (payload : τ) : MessagesTable τ where
  seqUnique := t.seqUnique
  rows := t.rows.map fun row => if row.id = id then { row with payload } else row
  id_nodup := by
    rw [List.map_map]
    convert t.id_nodup using 2
    funext row
    by_cases h : row.id = id <;> simp [h]
  seq_nodup hu := by
    rw [List.map_map]
    convert t.seq_nodup hu using 2
    funext row
    by_cases h : row.id = id <;> simp [h]

@[simp] theorem create_rows (seqUnique : Bool) : (create seqUnique : MessagesTable τ).rows = [] :=
  rfl

@[simp] theorem create_seqUnique (seqUnique : Bool) :
    (create seqUnique : MessagesTable τ).seqUnique = seqUnique := rfl

@[simp] theorem updatePayload_rows (t : MessagesTable τ) (id : MessageId) (payload : τ) :
    (t.updatePayload id payload).rows =
      t.rows.map fun row => if row.id = id then { row with payload } else row := rfl

@[simp] theorem updatePayload_seqUnique (t : MessagesTable τ) (id : MessageId) (payload : τ) :
    (t.updatePayload id payload).seqUnique = t.seqUnique := rfl

/-- An insert that meets the constraints puts the row last. -/
theorem insert_eq_some {t : MessagesTable τ} (row : MessageRow τ)
    (hid : row.id ∉ t.rows.map MessageRow.id)
    (hseq : t.seqUnique = true → row.seq ∉ t.rows.map MessageRow.seq) :
    ∃ t', t.insert row = some t' ∧ t'.rows = t.rows ++ [row] ∧ t'.seqUnique = t.seqUnique := by
  unfold insert
  rw [dif_pos ⟨hid, hseq⟩]
  exact ⟨_, rfl, rfl, rfl⟩

/-- An insert never changes the schema. -/
theorem seqUnique_of_insert {t t' : MessagesTable τ} {row : MessageRow τ}
    (h : t.insert row = some t') : t'.seqUnique = t.seqUnique := by
  unfold insert at h
  split_ifs at h
  rw [Option.some.injEq] at h
  rw [← h]

/-- `INSERT … SELECT` of rows that meet the constraints puts them last, in order. -/
theorem foldlM_insert_eq_some (rows : List (MessageRow τ)) {t : MessagesTable τ}
    (hid : ((t.rows ++ rows).map MessageRow.id).Nodup)
    (hseq : ((t.rows ++ rows).map MessageRow.seq).Nodup) :
    ∃ t', rows.foldlM insert t = some t' ∧ t'.rows = t.rows ++ rows ∧
      t'.seqUnique = t.seqUnique := by
  induction rows generalizing t with
  | nil => exact ⟨t, rfl, by simp, rfl⟩
  | cons row rows ih =>
    rw [List.map_append, List.map_cons] at hid hseq
    have hid' : row.id ∉ t.rows.map MessageRow.id := fun hmem =>
      (List.nodup_append.mp hid).2.2 _ hmem _ List.mem_cons_self rfl
    have hseq' : row.seq ∉ t.rows.map MessageRow.seq := fun hmem =>
      (List.nodup_append.mp hseq).2.2 _ hmem _ List.mem_cons_self rfl
    obtain ⟨t₁, hins, hrows, huniq⟩ := insert_eq_some row hid' fun _ => hseq'
    obtain ⟨t₂, hfold, hrows₂, huniq₂⟩ := ih (t := t₁)
      (by rw [hrows]; simpa using hid) (by rw [hrows]; simpa using hseq)
    refine ⟨t₂, ?_, ?_, huniq₂.trans huniq⟩
    · rw [List.foldlM_cons, hins]
      exact hfold
    · rw [hrows₂, hrows, List.append_assoc, List.singleton_append]

end MessagesTable

/-! ### The `routing_traces` table -/

/-- A row of `routing_traces`, with its implicit `rowid`. -/
structure TraceRow where
  rowid : ℕ
  id : MessageId
  payload : RoutingTrace
  deriving DecidableEq

/-! ### The database -/

/-- The columns a cached projection is keyed by. -/
abbrev ProjectionKey := StepVersion × String

/-- A database file: its header version and the tables that were created in it. -/
structure Database (τ : Type) where
  userVersion : ℕ
  messages : Option (MessagesTable τ)
  projectionCache : Option (KeyedStore ProjectionKey τ)
  derivedOutputCache : Option (KeyedStore DerivedKey τ)
  routingTraces : Option (List TraceRow)

/-- A new file. -/
def Database.empty {τ : Type} : Database τ := ⟨0, none, none, none, none⟩

end Mirrorlane
