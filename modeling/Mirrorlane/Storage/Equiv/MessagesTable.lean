import Mirrorlane.Storage.SqliteMessageStore

/-!
# What a `messages` table stands for

`Represents t entries`: the rows of `t` are the entries numbered `1, …, n`, in some storage order.
On such a table an upsert is `upsertBy` on the entries (`Represents.exists_upsert_eq_some`), an
ordered read returns them in order (`Represents.orderBy_eq`), and the schema rebuild changes nothing
(`Represents.exists_rebuild`).  A rebuild of any table makes it represent its rows in an order of
their old sequence numbers (`exists_rebuild_eq_some`).
-/

namespace Mirrorlane

namespace MessagesTable

variable {τ : Type} {t : MessagesTable τ} {entries : List (MessageId × τ)}

/-- The row of an entry at a position. -/
def rowOf (k : ℤ) (entry : MessageId × τ) : MessageRow τ := ⟨entry.1, k, entry.2⟩

/-- The entry a row stands for. -/
def entryOf (row : MessageRow τ) : MessageId × τ := (row.id, row.payload)

/-- The rows are the entries, numbered from `1`. -/
def Represents (t : MessagesTable τ) (entries : List (MessageId × τ)) : Prop :=
  t.rows.Perm (number rowOf entries)

@[simp] theorem seq_rowOf (k : ℤ) (entry : MessageId × τ) : (rowOf k entry).seq = k := rfl

@[simp] theorem id_rowOf (k : ℤ) (entry : MessageId × τ) : (rowOf k entry).id = entry.1 := rfl

@[simp] theorem entryOf_rowOf (k : ℤ) (entry : MessageId × τ) : entryOf (rowOf k entry) = entry :=
  rfl

theorem represents_create (seqUnique : Bool) : (create seqUnique : MessagesTable τ).Represents [] :=
  List.Perm.nil

/-! ### Ids and sequence numbers -/

theorem Represents.perm_ids (h : t.Represents entries) :
    (t.rows.map MessageRow.id).Perm (entries.map Prod.fst) := by
  rw [← map_number rowOf (fun k x => id_rowOf k x) entries]
  exact h.map _

/-- The sequence numbers are `1, …, n`. -/
theorem Represents.perm_seqs (h : t.Represents entries) :
    (t.rows.map MessageRow.seq).Perm
      ((List.range entries.length).map (fun i : ℕ => (i : ℤ) + 1)) := by
  rw [← map_number_key rowOf (fun k x => seq_rowOf k x) entries]
  exact h.map _

theorem Represents.nodup (h : t.Represents entries) : (entries.map Prod.fst).Nodup :=
  h.perm_ids.nodup t.id_nodup

theorem Represents.mem_ids (h : t.Represents entries) {id : MessageId} :
    id ∈ t.rows.map MessageRow.id ↔ id ∈ entries.map Prod.fst :=
  h.perm_ids.mem_iff

theorem Represents.mem_seqs (h : t.Represents entries) {k : ℤ} :
    k ∈ t.rows.map MessageRow.seq ↔ 1 ≤ k ∧ k ≤ entries.length := by
  rw [h.perm_seqs.mem_iff, List.mem_map]
  constructor
  · rintro ⟨i, hi, rfl⟩
    rw [List.mem_range] at hi
    omega
  · intro hk
    refine ⟨(k - 1).toNat, ?_, ?_⟩
    · rw [List.mem_range]
      omega
    · omega

/-- Ids and sequence numbers together. -/
theorem Represents.perm_positions (h : t.Represents entries) :
    (t.rows.map fun row => (row.id, row.seq)).Perm (positions (entries.map Prod.fst)) := by
  have hnumber : positions (entries.map Prod.fst) =
      (number rowOf entries).map fun row => (row.id, row.seq) :=
    number_map rowOf (fun k id => (id, k)) Prod.fst _ (fun _ _ => rfl) entries
  rw [hnumber]
  exact h.map _

theorem Represents.position_mem (h : t.Represents entries) {row : MessageRow τ}
    (hrow : row ∈ t.rows) : (row.id, row.seq) ∈ positions (entries.map Prod.fst) :=
  h.perm_positions.mem_iff.mp (List.mem_map_of_mem hrow)

/-- A lookup by id. -/
theorem Represents.find?_rows (h : t.Represents entries) (id : MessageId) :
    (t.rows.find? fun row => row.id = id).map entryOf = entries.find? fun e => e.1 = id := by
  have hentries : (t.rows.map entryOf).Perm entries := by
    have hmap := h.map entryOf
    rwa [map_number rowOf fun k x => entryOf_rowOf k x, List.map_id'] at hmap
  have hnodup : ((t.rows.map entryOf).map Prod.fst).Nodup := by
    rw [List.map_map]
    exact t.id_nodup
  rw [← find?_eq_of_perm hentries hnodup, List.find?_map]
  rfl

/-- The last sequence number is the number of rows. -/
theorem Represents.maxSeq_eq (h : t.Represents entries) : t.maxSeq = entries.length := by
  unfold maxSeq
  cases entries with
  | nil =>
    have hnil : t.rows = [] := List.Perm.eq_nil h
    rw [hnil]
    rfl
  | cons entry entries =>
    have hmax : (t.rows.map MessageRow.seq).max? = some ((entry :: entries).length : ℤ) := by
      rw [List.max?_eq_some_iff]
      refine ⟨h.mem_seqs.mpr ⟨?_, le_rfl⟩, fun k hk => (h.mem_seqs.mp hk).2⟩
      rw [List.length_cons]
      omega
    rw [hmax, Option.getD_some]

/-- An ordered read returns the entries in order. -/
theorem Represents.orderBy_eq (h : t.Represents entries) (sql : OrderBy) :
    sql.orderBy MessageRow.seq t.rows = number rowOf entries :=
  sql.orderBy_eq_of_perm h (pairwise_number (fun k x => seq_rowOf k x) entries)

/-! ### Upsert -/

/-- **An upsert never fails**, and is an upsert of the entries: a known id keeps its number, a new
one gets the next. -/
theorem Represents.exists_upsert_eq_some (h : t.Represents entries) (id : MessageId) (payload : τ) :
    ∃ t', t.upsert id payload = some t' ∧
      t'.Represents (upsertBy Prod.fst (id, payload) entries) ∧ t'.seqUnique = t.seqUnique := by
  unfold upsert
  by_cases hid : id ∈ t.rows.map MessageRow.id
  · -- the row keeps its number and takes the payload
    rw [if_pos hid]
    refine ⟨_, rfl, ?_, rfl⟩
    rw [h.mem_ids] at hid
    unfold Represents
    rw [updatePayload_rows, upsertBy_of_mem hid,
      number_map rowOf rowOf _ fun row => if row.id = id then { row with payload } else row]
    · exact h.map _
    · intro k entry
      by_cases hentry : entry.1 = id <;> simp [rowOf, hentry]
  · -- the next number is free, so the insert meets both constraints
    rw [if_neg hid]
    have hseq : t.maxSeq + 1 ∉ t.rows.map MessageRow.seq := fun hmem => by
      rw [h.mem_seqs, h.maxSeq_eq] at hmem
      omega
    obtain ⟨t', hins, hrows, huniq⟩ :=
      insert_eq_some ⟨id, t.maxSeq + 1, payload⟩ hid fun _ => hseq
    refine ⟨t', hins, ?_, huniq⟩
    rw [h.mem_ids] at hid
    unfold Represents
    rw [hrows, upsertBy_of_notMem hid, number_concat, h.maxSeq_eq]
    exact List.Perm.append_right _ h

/-! ### The schema rebuild -/

theorem renumbered_eq (sql : OrderBy) (t : MessagesTable τ) :
    t.renumbered sql = number rowOf ((sql.orderBy MessageRow.seq t.rows).map entryOf) := by
  unfold renumbered number
  rw [List.zipIdx_map, List.map_map]
  rfl

/-- **A rebuild never fails**: the numbered rows meet the new constraint. -/
theorem exists_rebuild_eq_some (sql : OrderBy) (t : MessagesTable τ) :
    ∃ t', t.rebuild sql = some t' ∧
      t'.Represents ((sql.orderBy MessageRow.seq t.rows).map entryOf) ∧ t'.seqUnique = true := by
  have hid : ((t.renumbered sql).map MessageRow.id).Nodup := by
    rw [renumbered_eq, map_number rowOf (fun k x => id_rowOf k x), List.map_map]
    exact ((sql.perm MessageRow.seq t.rows).map MessageRow.id).nodup_iff.mpr t.id_nodup
  have hseq : ((t.renumbered sql).map MessageRow.seq).Nodup := by
    rw [renumbered_eq, List.Nodup, List.pairwise_map]
    exact (pairwise_number (fun k x => seq_rowOf k x) _).imp fun hlt => hlt.ne
  obtain ⟨t', hfold, hrows, huniq⟩ :=
    foldlM_insert_eq_some (t.renumbered sql) (t := create true) hid hseq
  refine ⟨t', hfold, ?_, huniq⟩
  unfold Represents
  rw [hrows, renumbered_eq, create_rows, List.nil_append]

/-- A rebuild of a table that is numbered already keeps every row as it is. -/
theorem Represents.exists_rebuild (h : t.Represents entries) (sql : OrderBy) :
    ∃ t', t.rebuild sql = some t' ∧ t'.Represents entries ∧ t'.seqUnique = true := by
  obtain ⟨t', hrebuild, hrep, huniq⟩ := exists_rebuild_eq_some sql t
  refine ⟨t', hrebuild, ?_, huniq⟩
  rwa [h.orderBy_eq sql, map_number rowOf (fun k x => entryOf_rowOf k x), List.map_id'] at hrep

end MessagesTable

end Mirrorlane
