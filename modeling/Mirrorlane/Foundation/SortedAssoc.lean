import Mathlib.Data.List.Induction
import Mathlib.Data.List.Sort
import Mathlib.Order.Basic

/-!
# Ordered maps

`SortedAssoc κ ν` is an ordered map: its entries in strictly increasing key order, so that iterating
it does not depend on how it was built.  `alter` inserts or updates the entry of one key.  Lookups
determine the map (`ext_get`), and `get_alter` is the law every fold over `alter` is reasoned with.
-/

namespace Mirrorlane

/-- A map whose entries are kept in strictly increasing key order. -/
structure SortedAssoc (κ ν : Type*) [LinearOrder κ] where
  entries : List (κ × ν)
  /-- The keys increase. -/
  sorted : entries.Pairwise (fun p q => p.1 < q.1)

namespace SortedAssoc

variable {κ ν β : Type*} [LinearOrder κ]

/-- The entry list after inserting or updating the entry of `k`. -/
def alterEntries (k : κ) (f : Option ν → ν) : List (κ × ν) → List (κ × ν)
  | [] => [(k, f none)]
  | (k', v) :: rest =>
    if k < k' then (k, f none) :: (k', v) :: rest
    else if k = k' then (k', f (some v)) :: rest
    else (k', v) :: alterEntries k f rest

/-- The value of the first entry with key `k`. -/
def getEntries (k : κ) : List (κ × ν) → Option ν
  | [] => none
  | (k', v) :: rest => if k = k' then some v else getEntries k rest

/-! ### Entry lists -/

theorem mem_alterEntries {k : κ} {f : Option ν → ν} {p : κ × ν} {l : List (κ × ν)}
    (h : p ∈ alterEntries k f l) : p.1 = k ∨ p ∈ l := by
  induction l with
  | nil =>
    left
    simp only [alterEntries, List.mem_singleton] at h
    rw [h]
  | cons q rest ih =>
    obtain ⟨k', v⟩ := q
    rw [alterEntries] at h
    split_ifs at h with hlt heq
    -- the entry is put in front, replaced, or put further back
    · rcases List.mem_cons.mp h with rfl | h
      · exact Or.inl rfl
      · exact Or.inr h
    · rcases List.mem_cons.mp h with rfl | h
      · exact Or.inl heq.symm
      · exact Or.inr (List.mem_cons_of_mem _ h)
    · rcases List.mem_cons.mp h with rfl | h
      · exact Or.inr List.mem_cons_self
      · rcases ih h with h | h
        · exact Or.inl h
        · exact Or.inr (List.mem_cons_of_mem _ h)

theorem pairwise_alterEntries {k : κ} {f : Option ν → ν} {l : List (κ × ν)}
    (h : l.Pairwise (fun p q => p.1 < q.1)) :
    (alterEntries k f l).Pairwise (fun p q => p.1 < q.1) := by
  induction l with
  | nil => simp [alterEntries]
  | cons q rest ih =>
    obtain ⟨k', v⟩ := q
    have hrest := List.pairwise_cons.mp h
    rw [alterEntries]
    split_ifs with hlt heq
    · -- the new key goes in front
      refine List.pairwise_cons.mpr ⟨?_, h⟩
      intro p hp
      rcases List.mem_cons.mp hp with rfl | hp
      · exact hlt
      · exact hlt.trans (hrest.1 p hp)
    · exact List.pairwise_cons.mpr ⟨fun p hp => hrest.1 p hp, hrest.2⟩
    · -- the new key goes further back
      have hgt : k' < k := lt_of_le_of_ne (not_lt.mp hlt) (Ne.symm heq)
      refine List.pairwise_cons.mpr ⟨?_, ih hrest.2⟩
      intro p hp
      rcases mem_alterEntries hp with hpk | hp
      · rw [hpk]
        exact hgt
      · exact hrest.1 p hp

/-- A key below every key of the list has no entry. -/
theorem getEntries_of_lt {k : κ} {l : List (κ × ν)} (h : ∀ p ∈ l, k < p.1) :
    getEntries k l = none := by
  induction l with
  | nil => rfl
  | cons p l ih =>
    have hne : k ≠ p.1 := (h p List.mem_cons_self).ne
    unfold getEntries
    rw [if_neg hne]
    exact ih fun q hq => h q (List.mem_cons_of_mem _ hq)

theorem getEntries_alterEntries (k k' : κ) (f : Option ν → ν) {l : List (κ × ν)}
    (h : l.Pairwise (fun p q => p.1 < q.1)) :
    getEntries k' (alterEntries k f l) =
      if k' = k then some (f (getEntries k l)) else getEntries k' l := by
  induction l with
  | nil => simp [alterEntries, getEntries]
  | cons q rest ih =>
    obtain ⟨k₀, v⟩ := q
    have hrest := List.pairwise_cons.mp h
    by_cases hlt : k < k₀
    · -- the new key goes in front
      have hnone : getEntries k ((k₀, v) :: rest) = none := by
        refine getEntries_of_lt fun p hp => ?_
        rcases List.mem_cons.mp hp with rfl | hp
        · exact hlt
        · exact hlt.trans (hrest.1 p hp)
      unfold alterEntries
      rw [if_pos hlt, hnone, getEntries]
    · by_cases heq : k = k₀
      · subst heq
        unfold alterEntries
        rw [if_neg hlt, if_pos rfl]
        by_cases hk : k' = k <;> simp [getEntries, hk]
      · -- the head has another key than `k`, so only a lookup of its own key finds it
        unfold alterEntries
        rw [if_neg hlt, if_neg heq, getEntries, ih hrest.2]
        by_cases hk : k' = k
        · subst hk
          simp [getEntries, heq]
        · simp [getEntries, hk]

theorem getEntries_eq_some_iff {k : κ} {v : ν} {l : List (κ × ν)}
    (h : l.Pairwise (fun p q => p.1 < q.1)) : getEntries k l = some v ↔ (k, v) ∈ l := by
  induction l with
  | nil => simp [getEntries]
  | cons q rest ih =>
    obtain ⟨k₀, w⟩ := q
    have hrest := List.pairwise_cons.mp h
    unfold getEntries
    rw [List.mem_cons]
    by_cases hk : k = k₀
    · subst hk
      have hnot : (k, v) ∉ rest := fun hmem => lt_irrefl k (hrest.1 _ hmem)
      simp [hnot, eq_comm]
    · simp [hk, ih hrest.2]

/-! ### Maps -/

/-- The map with no entry. -/
def empty : SortedAssoc κ ν := ⟨[], List.Pairwise.nil⟩

/-- The value of a key. -/
def get (m : SortedAssoc κ ν) (k : κ) : Option ν := getEntries k m.entries

/-- The keys, in increasing order. -/
def keys (m : SortedAssoc κ ν) : List κ := m.entries.map Prod.fst

/-- Insert or update the entry of `k`. -/
def alter (m : SortedAssoc κ ν) (k : κ) (f : Option ν → ν) : SortedAssoc κ ν where
  entries := alterEntries k f m.entries
  sorted := pairwise_alterEntries m.sorted

@[simp] theorem get_empty (k : κ) : (empty : SortedAssoc κ ν).get k = none := rfl

theorem get_alter (m : SortedAssoc κ ν) (k k' : κ) (f : Option ν → ν) :
    (m.alter k f).get k' = if k' = k then some (f (m.get k)) else m.get k' :=
  getEntries_alterEntries k k' f m.sorted

theorem mem_entries {m : SortedAssoc κ ν} {p : κ × ν} :
    p ∈ m.entries ↔ m.get p.1 = some p.2 :=
  (getEntries_eq_some_iff m.sorted).symm

theorem mem_keys {m : SortedAssoc κ ν} {k : κ} : k ∈ m.keys ↔ (m.get k).isSome := by
  unfold keys
  rw [List.mem_map, Option.isSome_iff_exists]
  constructor
  · rintro ⟨p, hp, rfl⟩
    exact ⟨p.2, mem_entries.mp hp⟩
  · rintro ⟨v, hv⟩
    exact ⟨(k, v), mem_entries.mpr hv, rfl⟩

theorem pairwise_keys (m : SortedAssoc κ ν) : m.keys.Pairwise (· < ·) :=
  List.pairwise_map.mpr m.sorted

theorem nodup_keys (m : SortedAssoc κ ν) : m.keys.Nodup := m.pairwise_keys.nodup

/-- A map with fewer keys leaves some out and keeps the order of the rest. -/
theorem keys_sublist {m m' : SortedAssoc κ ν} (h : m.keys ⊆ m'.keys) :
    m.keys.Sublist m'.keys :=
  List.sublist_of_subperm_of_pairwise (List.subperm_of_subset m.nodup_keys h) m.pairwise_keys
    m'.pairwise_keys

/-- **Lookups determine the map.** -/
theorem ext_get {m m' : SortedAssoc κ ν} (h : ∀ k, m.get k = m'.get k) : m = m' := by
  have hmem : ∀ p, p ∈ m.entries ↔ p ∈ m'.entries := by
    intro p
    rw [mem_entries, mem_entries, h]
  have hperm : m.entries.Perm m'.entries := by
    rw [List.perm_ext_iff_of_nodup]
    · exact hmem
    · exact List.Nodup.of_map _ m.nodup_keys
    · exact List.Nodup.of_map _ m'.nodup_keys
  -- two sorted lists with the same elements are equal
  have heq : m.entries = m'.entries :=
    hperm.eq_of_pairwise (fun _ _ _ _ hpq hqp => absurd hpq (lt_asymm hqp)) m.sorted m'.sorted
  cases m
  cases m'
  simpa using heq

/-- The entries of one key: at most one. -/
theorem entries_filter (m : SortedAssoc κ ν) (k : κ) :
    m.entries.filter (fun p => p.1 = k) = ((m.get k).map fun v => (k, v)).toList := by
  cases h : m.get k with
  | none =>
    refine List.filter_eq_nil_iff.mpr ?_
    rintro ⟨k', v⟩ hp hk
    have hk' : k' = k := by simpa using hk
    rw [mem_entries, hk', h] at hp
    cases hp
  | some v =>
    obtain ⟨as, bs, hsplit⟩ := List.append_of_mem (mem_entries (p := (k, v)).mpr h)
    have hnodup := m.nodup_keys
    unfold keys at hnodup
    rw [hsplit, List.map_append, List.map_cons, List.nodup_append, List.nodup_cons] at hnodup
    -- neither side of the entry has another one with its key
    have has : as.filter (fun p => p.1 = k) = [] := by
      refine List.filter_eq_nil_iff.mpr fun p hp hk => ?_
      exact hnodup.2.2 p.1 (List.mem_map_of_mem hp) k List.mem_cons_self (by simpa using hk)
    have hbs : bs.filter (fun p => p.1 = k) = [] := by
      refine List.filter_eq_nil_iff.mpr fun p hp hk => ?_
      have hk' : p.1 = k := by simpa using hk
      exact hnodup.2.1.1 (List.mem_map.mpr ⟨p, hp, hk'⟩)
    rw [hsplit, List.filter_append, has, List.filter_cons_of_pos (by simp), hbs]
    rfl

/-! ### Folds and traversals -/

/-- **The law of a fold over `alter`**: each key sees the updates of its own elements, in order. -/
theorem get_foldl_alter {α : Type*} (key : α → κ) (update : α → Option ν → ν) (xs : List α)
    (m : SortedAssoc κ ν) (k : κ) :
    (xs.foldl (fun m x => m.alter (key x) (update x)) m).get k =
      (xs.filter fun x => key x = k).foldl (fun v x => some (update x v)) (m.get k) := by
  induction xs generalizing m with
  | nil => rfl
  | cons x xs ih =>
    rw [List.foldl_cons, ih, get_alter]
    by_cases hk : key x = k
    · subst hk
      simp
    · simp [hk, Ne.symm hk]

/-- A fold over `alter` has the keys of its elements, and those that were there. -/
theorem isSome_get_foldl_alter {α : Type*} (key : α → κ) (update : α → Option ν → ν) (xs : List α)
    (m : SortedAssoc κ ν) (k : κ) :
    ((xs.foldl (fun m x => m.alter (key x) (update x)) m).get k).isSome ↔
      (∃ x ∈ xs, key x = k) ∨ (m.get k).isSome := by
  induction xs generalizing m with
  | nil => simp
  | cons x xs ih =>
    rw [List.foldl_cons, ih, get_alter, List.exists_mem_cons_iff, or_comm (a := key x = k),
      or_assoc]
    refine or_congr_right ?_
    by_cases hk : key x = k
    · simp [hk]
    · simp [hk, Ne.symm hk]

/-- A fold that overwrites keeps the last value of each key. -/
theorem get_foldl_alter_const {α : Type*} (key : α → κ) (val : α → ν) (xs : List α)
    (m : SortedAssoc κ ν) (k : κ) :
    (xs.foldl (fun m x => m.alter (key x) fun _ => val x) m).get k =
      (((xs.filter fun x => key x = k).getLast?).map val).or (m.get k) := by
  rw [get_foldl_alter]
  induction xs.filter (fun x => key x = k) using List.reverseRecOn with
  | nil => rfl
  | append_singleton xs x _ => simp

/-- Map the values, dropping the entries without one. -/
def filterMap (m : SortedAssoc κ ν) (f : κ → ν → Option β) : SortedAssoc κ β where
  entries := m.entries.filterMap fun p => (f p.1 p.2).map fun v => (p.1, v)
  sorted := m.sorted.filterMap _ fun p q hpq p' hp' q' hq' => by
    obtain ⟨_, -, rfl⟩ := Option.map_eq_some_iff.mp hp'
    obtain ⟨_, -, rfl⟩ := Option.map_eq_some_iff.mp hq'
    exact hpq

theorem get_filterMap (m : SortedAssoc κ ν) (f : κ → ν → Option β) (k : κ) :
    (m.filterMap f).get k = (m.get k).bind (f k) := by
  refine Option.ext fun v => ?_
  have hmem : (m.filterMap f).get k = some v ↔ (k, v) ∈ (m.filterMap f).entries :=
    (mem_entries (p := (k, v))).symm
  rw [hmem, filterMap, List.mem_filterMap, Option.bind_eq_some_iff]
  constructor
  · rintro ⟨⟨k', w⟩, hp, hf⟩
    obtain ⟨v', hv', heq⟩ := Option.map_eq_some_iff.mp hf
    obtain ⟨rfl, rfl⟩ := Prod.mk.inj heq
    exact ⟨w, mem_entries.mp hp, hv'⟩
  · rintro ⟨w, hw, hf⟩
    exact ⟨(k, w), mem_entries.mpr hw, by rw [hf]; rfl⟩

/-- A traversal that reads the same values gives the same list. -/
theorem entries_filterMap_congr {m m' : SortedAssoc κ ν} {f : κ → ν → Option β}
    (h : ∀ k, (m.get k).bind (f k) = (m'.get k).bind (f k)) :
    m.entries.filterMap (fun p => f p.1 p.2) = m'.entries.filterMap (fun p => f p.1 p.2) := by
  have heq : m.filterMap f = m'.filterMap f := ext_get fun k => by
    rw [get_filterMap, get_filterMap, h]
  have hvalues : ∀ m : SortedAssoc κ ν, m.entries.filterMap (fun p => f p.1 p.2) =
      (m.filterMap f).entries.map Prod.snd := by
    intro m
    unfold filterMap
    rw [List.map_filterMap]
    refine List.filterMap_congr fun p _ => ?_
    rw [Option.map_map]
    exact (Option.map_id' (x := f p.1 p.2)).symm
  rw [hvalues, hvalues, heq]

end SortedAssoc

end Mirrorlane
