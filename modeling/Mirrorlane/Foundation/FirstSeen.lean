import Mathlib.Data.List.Induction
import Mathlib.Data.List.Nodup

/-!
# First-seen de-duplication and grouping

Two loops over a list that remember keys in the order they are first met.

* `firstSeen` keeps each key once, at its first occurrence.
* `groupFirstSeen` collects the values of each key in list order, next to the first-seen order of
  the keys: one traversal with an order list and a map, which is the grouping a program writes
  with a `Vec` and a `HashMap`.

The characterizations are `mem_firstSeen`, `nodup_firstSeen` and `firstSeen_concat` for the first,
and `groupFirstSeen_eq` (the traversal is per-key filtering) for the second.  Both loops extend
their accumulator on the right, so every proof is by induction from the right.
-/

namespace Mirrorlane

variable {α κ β : Type*} [DecidableEq κ]

/-! ### First-seen keys -/

/-- One step of the loop: push a key that was not seen yet. -/
def firstSeenStep (seen : List κ) (k : κ) : List κ :=
  if k ∈ seen then seen else seen ++ [k]

/-- The distinct keys of a list, in the order they are first met. -/
def firstSeen (ks : List κ) : List κ :=
  ks.foldl firstSeenStep []

@[simp] theorem firstSeen_nil : firstSeen ([] : List κ) = [] := rfl

theorem firstSeen_concat_eq_step (ks : List κ) (k : κ) :
    firstSeen (ks ++ [k]) = firstSeenStep (firstSeen ks) k := by
  simp [firstSeen]

@[simp] theorem mem_firstSeen {ks : List κ} {k : κ} : k ∈ firstSeen ks ↔ k ∈ ks := by
  induction ks using List.reverseRecOn with
  | nil => simp
  | append_singleton ks k' ih =>
    rw [firstSeen_concat_eq_step, firstSeenStep]
    split_ifs with h
    · rw [ih, List.mem_append, List.mem_singleton]
      constructor
      · exact Or.inl
      · rintro (hk | rfl)
        · exact hk
        · exact ih.mp h
    · rw [List.mem_append, List.mem_append, ih]

/-- **The snoc recurrence.** A key is added exactly when it is new. -/
theorem firstSeen_concat (ks : List κ) (k : κ) :
    firstSeen (ks ++ [k]) = if k ∈ ks then firstSeen ks else firstSeen ks ++ [k] := by
  rw [firstSeen_concat_eq_step, firstSeenStep]
  simp only [mem_firstSeen]

theorem nodup_firstSeen (ks : List κ) : (firstSeen ks).Nodup := by
  induction ks using List.reverseRecOn with
  | nil => simp
  | append_singleton ks k ih =>
    rw [firstSeen_concat]
    split_ifs with h
    · exact ih
    · rw [List.nodup_append]
      refine ⟨ih, List.nodup_singleton k, ?_⟩
      intro a ha b hb hab
      rw [List.mem_singleton] at hb
      exact h (mem_firstSeen.mp (hb ▸ hab ▸ ha))

/-- First-seen keys under an injective renaming. -/
theorem firstSeen_map [DecidableEq β] {f : κ → β} (hf : Function.Injective f) (ks : List κ) :
    firstSeen (ks.map f) = (firstSeen ks).map f := by
  induction ks using List.reverseRecOn with
  | nil => rfl
  | append_singleton ks k ih =>
    rw [List.map_append, List.map_singleton, firstSeen_concat, firstSeen_concat, ih]
    simp only [List.mem_map_of_injective hf]
    split_ifs
    · rfl
    · rw [List.map_append, List.map_singleton]

/-- The first-seen keys of a part of a list. -/
theorem firstSeen_filter (p : κ → Bool) (ks : List κ) :
    firstSeen (ks.filter p) = (firstSeen ks).filter p := by
  induction ks using List.reverseRecOn with
  | nil => rfl
  | append_singleton ks k ih =>
    cases hp : p k with
    | true =>
      have hone : [k].filter p = [k] := List.filter_cons_of_pos hp
      rw [List.filter_append, hone, firstSeen_concat, firstSeen_concat, ih]
      by_cases hk : k ∈ ks
      · rw [if_pos (List.mem_filter.mpr ⟨hk, hp⟩), if_pos hk]
      · rw [if_neg fun h => hk (List.mem_filter.mp h).1, if_neg hk, List.filter_append, hone]
    | false =>
      have hnone : [k].filter p = [] := List.filter_cons_of_neg (by simp [hp])
      rw [List.filter_append, hnone, List.append_nil, ih, firstSeen_concat]
      split_ifs
      · rfl
      · rw [List.filter_append, hnone, List.append_nil]

/-! ### Grouping -/

/-- One step of the grouping loop: a new key is pushed on the order, and the value is pushed on the
key's group. -/
def groupStep (key : α → κ) (val : α → β) (acc : List κ × (κ → Option (List β))) (x : α) :
    List κ × (κ → Option (List β)) :=
  let k := key x
  let order := if (acc.2 k).isSome then acc.1 else acc.1 ++ [k]
  (order, Function.update acc.2 k (some ((acc.2 k).getD [] ++ [val x])))

/-- Group the values of a list by key: the keys in first-seen order, and each key's values in list
order. -/
def groupLoop (key : α → κ) (val : α → β) (xs : List α) : List κ × (κ → Option (List β)) :=
  xs.foldl (groupStep key val) ([], fun _ => none)

/-- The groups as a list of pairs, in first-seen order of the keys. -/
def groupFirstSeen (key : α → κ) (val : α → β) (xs : List α) : List (κ × List β) :=
  let acc := groupLoop key val xs
  acc.1.map fun k => (k, (acc.2 k).getD [])

/-- **What the grouping loop accumulates**: the first-seen keys, and for each key that occurs the
values filtered by it. -/
theorem groupLoop_eq (key : α → κ) (val : α → β) (xs : List α) :
    groupLoop key val xs = (firstSeen (xs.map key), fun k =>
      if k ∈ xs.map key then some ((xs.filter (fun x => key x = k)).map val) else none) := by
  induction xs using List.reverseRecOn with
  | nil => simp [groupLoop]
  | append_singleton xs x ih =>
    have hstep : groupLoop key val (xs ++ [x]) = groupStep key val (groupLoop key val xs) x := by
      simp [groupLoop]
    rw [hstep, ih, groupStep]
    refine Prod.ext ?_ ?_
    -- the order extends as `firstSeen` does, and only the group of `key x` changes
    · simp only [List.map_append, List.map_cons, List.map_nil]
      rw [firstSeen_concat]
      by_cases h : key x ∈ xs.map key <;> simp [h]
    · funext k
      by_cases hk : k = key x
      · subst hk
        by_cases h : key x ∈ xs.map key
        · simp [h, List.filter_append]
        · have hnil : xs.filter (fun y => key y = key x) = [] := by
            rw [List.filter_eq_nil_iff]
            intro y hy hyx
            exact h (List.mem_map.mpr ⟨y, hy, by simpa using hyx⟩)
          simp [h, List.filter_append, hnil]
      · have hne : key x ≠ k := fun h => hk h.symm
        simp [List.filter_append, hne, hk]

theorem groupFirstSeen_eq (key : α → κ) (val : α → β) (xs : List α) :
    groupFirstSeen key val xs = (firstSeen (xs.map key)).map fun k =>
      (k, (xs.filter (fun x => key x = k)).map val) := by
  unfold groupFirstSeen
  rw [groupLoop_eq]
  refine List.map_congr_left fun k hk => ?_
  rw [mem_firstSeen] at hk
  simp [hk]

end Mirrorlane
