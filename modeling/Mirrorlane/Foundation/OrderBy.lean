import Mirrorlane.Foundation.FirstSeen
import Mathlib.Algebra.Order.Group.Unbundled.Int
import Mathlib.Data.List.Dedup
import Mathlib.Data.List.Sort

/-!
# Ordered reads and row numbers

A query engine that is asked for rows ordered by an integer key returns a sorted permutation of
them, and promises nothing about rows whose keys are equal.  `OrderBy` is such an engine.  When no
two rows share a key the answer is determined (`orderBy_eq_of_perm`), and it does not depend on the
order the rows are stored in.

`number` assigns the numbers `1, 2, …` in list order, as `ROW_NUMBER()` does; `positions` pairs each
value with its number.  `groupMin` is the
`MIN(key)` of a group, and over numbered rows reading the groups ordered by it is reading them in
first-seen order (`orderBy_groupMin_eq`).
-/

namespace Mirrorlane

/-- An engine that reads rows ordered by an integer key. -/
structure OrderBy where
  orderBy : {α : Type} → (α → ℤ) → List α → List α
  /-- No row is lost, added or repeated. -/
  perm : ∀ {α : Type} (key : α → ℤ) (xs : List α), (orderBy key xs).Perm xs
  /-- The keys do not decrease. -/
  sorted : ∀ {α : Type} (key : α → ℤ) (xs : List α),
    (orderBy key xs).Pairwise (fun x y => key x ≤ key y)

namespace OrderBy

variable {α : Type}

/-- The engine that sorts by insertion. -/
def insertionSort : OrderBy where
  orderBy key xs := xs.insertionSort (fun x y => key x ≤ key y)
  perm _ xs := List.perm_insertionSort _ xs
  sorted key xs := by
    have : Std.Total fun x y : _ => key x ≤ key y := ⟨fun x y => le_total (key x) (key y)⟩
    have : IsTrans _ fun x y => key x ≤ key y := ⟨fun _ _ _ => le_trans⟩
    exact List.pairwise_insertionSort _ xs

@[simp] theorem mem_orderBy (sql : OrderBy) {key : α → ℤ} {xs : List α} {x : α} :
    x ∈ sql.orderBy key xs ↔ x ∈ xs :=
  (sql.perm key xs).mem_iff

/-- Rows with pairwise different keys have one ordered read, however they are stored. -/
theorem orderBy_eq_of_perm (sql : OrderBy) {key : α → ℤ} {xs ys : List α} (h : xs.Perm ys)
    (hys : ys.Pairwise (fun x y => key x < key y)) : sql.orderBy key xs = ys := by
  have hnodup : (ys.map key).Nodup :=
    List.pairwise_map.mpr (hys.imp fun hlt => hlt.ne)
  have hys' : ys.Pairwise fun x y => key x ≤ key y := hys.imp fun hlt => hlt.le
  refine List.Perm.eq_of_pairwise ?_ (sql.sorted key xs) hys' ((sql.perm key xs).trans h)
  intro x y hx hy hxy hyx
  have hx' : x ∈ ys := h.mem_iff.mp (sql.mem_orderBy.mp hx)
  exact List.inj_on_of_nodup_map hnodup hx' hy (le_antisymm hxy hyx)

end OrderBy

/-! ### Row numbers -/

section Number

variable {α β γ : Type*} (mk : ℤ → α → β)

/-- Number the elements of a list from `1`. -/
def number (xs : List α) : List β :=
  (xs.zipIdx 1).map fun p => mk p.2 p.1

@[simp] theorem number_nil : number mk [] = [] := rfl

@[simp] theorem length_number (xs : List α) :
    (number mk xs).length = xs.length := by
  simp [number]

/-- A value put last gets the next number. -/
theorem number_concat (xs : List α) (x : α) :
    number mk (xs ++ [x]) = number mk xs ++ [mk (xs.length + 1) x] := by
  have hlast : ((1 + xs.length : ℕ) : ℤ) = xs.length + 1 := by omega
  simp [number, List.zipIdx_append, hlast]

/-- Reading the values back. -/
theorem map_number {val : β → γ} {f : α → γ} (h : ∀ k x, val (mk k x) = f x) (xs : List α) :
    (number mk xs).map val = xs.map f := by
  induction xs using List.reverseRecOn with
  | nil => rfl
  | append_singleton xs x ih => simp [number_concat, ih, h]

/-- Changing the values where they stand keeps the numbers. -/
theorem number_map {δ : Type*} (mk' : ℤ → γ → δ) (g : α → γ) (f : β → δ)
    (h : ∀ k x, mk' k (g x) = f (mk k x)) (xs : List α) :
    number mk' (xs.map g) = (number mk xs).map f := by
  induction xs using List.reverseRecOn with
  | nil => rfl
  | append_singleton xs x ih =>
    rw [List.map_append, List.map_singleton, number_concat, ih, number_concat, List.map_append,
      List.map_singleton, h, List.length_map]

variable {key : β → ℤ}

/-- The numbers are `1, …, n`. -/
theorem map_number_key (h : ∀ k x, key (mk k x) = k) (xs : List α) :
    (number mk xs).map key = (List.range xs.length).map (fun i : ℕ => (i : ℤ) + 1) := by
  induction xs using List.reverseRecOn with
  | nil => rfl
  | append_singleton xs x ih => simp [number_concat, ih, h, List.range_succ]

variable {mk}

/-- The numbers increase along the list. -/
theorem pairwise_number (h : ∀ k x, key (mk k x) = k) (xs : List α) :
    (number mk xs).Pairwise (fun r s => key r < key s) := by
  have hrange : ((List.range xs.length).map (fun i : ℕ => (i : ℤ) + 1)).Pairwise (· < ·) := by
    rw [List.pairwise_map]
    exact List.pairwise_lt_range.imp fun hij => by omega
  rw [← map_number_key mk h xs, List.pairwise_map] at hrange
  exact hrange

/-- No number exceeds the length. -/
theorem key_le_of_mem_number (h : ∀ k x, key (mk k x) = k) {xs : List α} {r : β}
    (hr : r ∈ number mk xs) : 1 ≤ key r ∧ key r ≤ xs.length := by
  have hmem : key r ∈ (number mk xs).map key := List.mem_map_of_mem hr
  rw [map_number_key mk h, List.mem_map] at hmem
  obtain ⟨i, hi, hik⟩ := hmem
  rw [List.mem_range] at hi
  omega

/-- The values of a list with their positions. -/
def positions (xs : List α) : List (α × ℤ) :=
  number (fun k x => (x, k)) xs

theorem map_fst_positions (xs : List α) : (positions xs).map Prod.fst = xs := by
  have hmap : (positions xs).map Prod.fst = xs.map id :=
    map_number (fun k x => (x, k)) (fun _ _ => rfl) xs
  rw [hmap, List.map_id]

theorem positions_map (f : α → β) (xs : List α) :
    positions (xs.map f) = (positions xs).map fun p => (f p.1, p.2) :=
  number_map (fun k x => (x, k)) (fun k x => (x, k)) f (fun p => (f p.1, p.2)) (fun _ _ => rfl) xs

theorem le_length_of_mem_positions {xs : List α} {p : α × ℤ} (h : p ∈ positions xs) :
    p.2 ≤ xs.length :=
  (key_le_of_mem_number (fun _ _ => rfl) h).2

/-- A longer list has its first part at the same positions, and the rest after them. -/
theorem exists_positions_append (xs ys : List α) :
    ∃ rs, positions (xs ++ ys) = positions xs ++ rs ∧
      ∀ p ∈ rs, p.1 ∈ ys ∧ (xs.length : ℤ) < p.2 := by
  induction ys using List.reverseRecOn with
  | nil => exact ⟨[], by simp⟩
  | append_singleton ys y ih =>
    obtain ⟨rs, hrs, hmem⟩ := ih
    refine ⟨rs ++ [(y, ((xs ++ ys).length : ℤ) + 1)], ?_, ?_⟩
    · rw [positions, ← List.append_assoc, number_concat, ← positions, hrs, List.append_assoc]
    · intro p hp
      rcases List.mem_append.mp hp with hp | hp
      · exact ⟨List.mem_append_left _ (hmem p hp).1, (hmem p hp).2⟩
      · rw [List.mem_singleton] at hp
        subst hp
        refine ⟨by simp, ?_⟩
        rw [List.length_append]
        omega

/-- Along a sorted list, a smaller value has a smaller position. -/
theorem lt_of_mem_positions {val : α → ℤ} {xs : List α}
    (h : xs.Pairwise fun x y => val x ≤ val y) {p q : α × ℤ} (hp : p ∈ positions xs)
    (hq : q ∈ positions xs) (hlt : val p.1 < val q.1) : p.2 < q.2 := by
  have hval : (positions xs).Pairwise fun p q => val p.1 ≤ val q.1 := by
    rwa [← map_fst_positions xs, List.pairwise_map] at h
  have hnum : (positions xs).Pairwise fun p q => p.2 < q.2 := pairwise_number (fun _ _ => rfl) xs
  have hself : ∀ p ∈ positions xs, val p.1 < val p.1 → p.2 < p.2 :=
    fun _ _ h => absurd h (lt_irrefl _)
  have hbefore : (positions xs).Pairwise fun p q => val p.1 < val q.1 → p.2 < q.2 :=
    hnum.imp fun {p q} hpq (_ : val p.1 < val q.1) => hpq
  have hafter : (positions xs).Pairwise fun p q => val q.1 < val p.1 → q.2 < p.2 :=
    hval.imp fun {p q} hpq (h : val q.1 < val p.1) => absurd h hpq.not_gt
  exact List.Pairwise.forall_of_forall_of_flip hself hbefore hafter hp hq hlt

end Number

/-! ### Groups -/

section GroupMin

variable {α β κ : Type} [DecidableEq κ] {mk : ℤ → α → β} {key : β → ℤ} {group : β → κ} {f : α → κ}

/-- `MIN(key)` over the rows of the group `g`. -/
def groupMin (key : β → ℤ) (group : β → κ) (rows : List β) (g : κ) : ℤ :=
  (((rows.filter fun r => group r = g).map key).min?).getD 0

/-- The minimum of a group is the key of a row no other row of the group is below. -/
theorem groupMin_eq_of_le {rows : List β} {r : β} (hr : r ∈ rows)
    (hle : ∀ r' ∈ rows, group r' = group r → key r ≤ key r') :
    groupMin key group rows (group r) = key r := by
  have hmin : ((rows.filter fun r' => group r' = group r).map key).min? = some (key r) := by
    rw [List.min?_eq_some_iff]
    constructor
    · exact List.mem_map_of_mem (List.mem_filter.mpr ⟨hr, by simp⟩)
    · intro k hk
      obtain ⟨r', hr', rfl⟩ := List.mem_map.mp hk
      rw [List.mem_filter] at hr'
      exact hle r' hr'.1 (by simpa using hr'.2)
  unfold groupMin
  rw [hmin, Option.getD_some]

theorem exists_groupMin_eq (key : β → ℤ) {rows : List β} {g : κ} (h : g ∈ rows.map group) :
    ∃ r ∈ rows, group r = g ∧ groupMin key group rows g = key r ∧
      ∀ r' ∈ rows, group r' = g → key r ≤ key r' := by
  obtain ⟨r₀, hr₀, hg⟩ := List.mem_map.mp h
  have hne : ((rows.filter fun r' => group r' = g).map key) ≠ [] := by
    rw [Ne, List.map_eq_nil_iff, List.filter_eq_nil_iff]
    exact fun hall => hall r₀ hr₀ (by simpa using hg)
  obtain ⟨k, hk⟩ := Option.isSome_iff_exists.mp (List.isSome_min?_of_ne_nil hne)
  have hk' := hk
  rw [List.min?_eq_some_iff] at hk'
  obtain ⟨hmem, hle⟩ := hk'
  obtain ⟨r, hr, rfl⟩ := List.mem_map.mp hmem
  rw [List.mem_filter, decide_eq_true_eq] at hr
  refine ⟨r, hr.1, hr.2, ?_, ?_⟩
  · unfold groupMin
    rw [hk, Option.getD_some]
  · intro r' hr' hg'
    exact hle _ (List.mem_map_of_mem (List.mem_filter.mpr ⟨hr', by simpa using hg'⟩))

/-- The minimum does not depend on the order of the rows. -/
theorem groupMin_perm {rows rows' : List β} (hp : rows.Perm rows') {g : κ}
    (h : g ∈ rows.map group) : groupMin key group rows g = groupMin key group rows' g := by
  obtain ⟨r, hr, rfl, hmin, hle⟩ := exists_groupMin_eq key h
  rw [hmin]
  exact (groupMin_eq_of_le (hp.mem_iff.mp hr) fun r' hr' => hle r' (hp.mem_iff.mpr hr')).symm

/-- A row numbered past all others lowers no minimum. -/
theorem groupMin_concat {rows : List β} {r : β} (hr : ∀ r' ∈ rows, key r' ≤ key r) {g : κ}
    (h : g ∈ rows.map group) : groupMin key group (rows ++ [r]) g = groupMin key group rows g := by
  obtain ⟨r₀, hr₀, rfl, hmin, hle⟩ := exists_groupMin_eq key h
  rw [hmin]
  refine groupMin_eq_of_le (List.mem_append_left _ hr₀) fun r' hr' hg => ?_
  rcases List.mem_append.mp hr' with hr' | hr'
  · exact hle r' hr' hg
  · rw [List.mem_singleton] at hr'
    exact hr' ▸ hr r₀ hr₀

/-- Over numbered rows the minima increase along the first-seen order of the groups. -/
theorem pairwise_groupMin_number (hkey : ∀ k x, key (mk k x) = k)
    (hgroup : ∀ k x, group (mk k x) = f x) (xs : List α) :
    (firstSeen (xs.map f)).Pairwise fun g g' =>
      groupMin key group (number mk xs) g < groupMin key group (number mk xs) g' := by
  induction xs using List.reverseRecOn with
  | nil => exact List.Pairwise.nil
  | append_singleton xs x ih =>
    rw [number_concat, List.map_append, List.map_singleton, firstSeen_concat]
    set last : β := mk (xs.length + 1) x with hlast_def
    have hgroups : (number mk xs).map group = xs.map f := map_number mk hgroup xs
    have hle : ∀ r' ∈ number mk xs, key r' ≤ key last := fun r' hr' => by
      have hlen := (key_le_of_mem_number hkey hr').2
      rw [hlast_def, hkey]
      omega
    have hold : ∀ g ∈ firstSeen (xs.map f),
        groupMin key group (number mk xs ++ [last]) g = groupMin key group (number mk xs) g :=
      fun g hg => groupMin_concat hle (by rwa [hgroups, ← mem_firstSeen])
    have ih' : (firstSeen (xs.map f)).Pairwise fun g g' =>
        groupMin key group (number mk xs ++ [last]) g <
          groupMin key group (number mk xs ++ [last]) g' :=
      ih.imp_of_mem fun hg hg' hlt => by rwa [hold _ hg, hold _ hg']
    split_ifs with hx
    · exact ih'
    · -- the new group starts at the last row
      have hnew : groupMin key group (number mk xs ++ [last]) (f x) = key last := by
        rw [← hgroup (xs.length + 1) x]
        refine groupMin_eq_of_le (by simp [hlast_def]) fun r' hr' hg => ?_
        rcases List.mem_append.mp hr' with hr' | hr'
        · have hmem : group r' ∈ (number mk xs).map group := List.mem_map_of_mem hr'
          rw [hg, hgroups, hgroup] at hmem
          exact absurd hmem hx
        · rw [List.mem_singleton.mp hr']
      refine List.pairwise_append.mpr ⟨ih', List.pairwise_singleton _ _, ?_⟩
      intro g hg g' hlast
      rw [List.mem_singleton] at hlast
      have hg' : g ∈ (number mk xs).map group := by rwa [hgroups, ← mem_firstSeen]
      obtain ⟨r, hr, -, hmin, -⟩ := exists_groupMin_eq key hg'
      have hlen := (key_le_of_mem_number hkey hr).2
      rw [hlast, hnew, hold g hg, hmin, hlast_def, hkey]
      omega

/-- **`GROUP BY … ORDER BY MIN(key)` is first-seen order.** -/
theorem orderBy_groupMin_eq (sql : OrderBy) (hkey : ∀ k x, key (mk k x) = k)
    (hgroup : ∀ k x, group (mk k x) = f x) {rows : List β} {xs : List α}
    (h : rows.Perm (number mk xs)) :
    sql.orderBy (groupMin key group rows) (rows.map group).dedup = firstSeen (xs.map f) := by
  have hgroups : ∀ g, g ∈ rows.map group ↔ g ∈ xs.map f := fun g => by
    rw [(h.map group).mem_iff, map_number mk hgroup]
  refine sql.orderBy_eq_of_perm ?_ ?_
  · rw [List.perm_ext_iff_of_nodup (List.nodup_dedup _) (nodup_firstSeen _)]
    intro g
    rw [List.mem_dedup, mem_firstSeen, hgroups]
  · refine (pairwise_groupMin_number hkey hgroup xs).imp_of_mem fun hg hg' hlt => ?_
    rw [mem_firstSeen, ← hgroups] at hg hg'
    rwa [groupMin_perm h hg, groupMin_perm h hg']

end GroupMin

end Mirrorlane
