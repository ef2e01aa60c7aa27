import Mathlib.Data.List.Induction
import Mathlib.Data.List.Nodup
import Mathlib.Tactic.SplitIfs
import Mirrorlane.Foundation.FirstSeen

/-!
# Append-only lists with replacement in place

`upsertBy key x xs` replaces the element of `xs` that has the key of `x`, where it stands, or
appends `x` when there is none: an ordered log in which a known key keeps its position.  The keys of
the list never repeat (`nodup_map_upsertBy`), the position of a key never changes and a new key goes
last (`map_upsertBy`), and lookups see the latest value (`find?_upsertBy`).  Upserting a whole list
into the empty one leaves the latest value of each key, in first-seen order (`upsertAll_empty`).
-/

namespace Mirrorlane

variable {α κ : Type*} [DecidableEq κ]

/-- Replace the element with the key of `x` in place, or append `x`. -/
def upsertBy (key : α → κ) (x : α) (xs : List α) : List α :=
  if key x ∈ xs.map key then xs.map (fun y => if key y = key x then x else y) else xs ++ [x]

theorem upsertBy_of_mem {key : α → κ} {x : α} {xs : List α} (h : key x ∈ xs.map key) :
    upsertBy key x xs = xs.map (fun y => if key y = key x then x else y) :=
  if_pos h

theorem upsertBy_of_notMem {key : α → κ} {x : α} {xs : List α} (h : key x ∉ xs.map key) :
    upsertBy key x xs = xs ++ [x] :=
  if_neg h

/-- The keys stay where they are; a new key goes last. -/
theorem map_upsertBy (key : α → κ) (x : α) (xs : List α) :
    (upsertBy key x xs).map key =
      if key x ∈ xs.map key then xs.map key else xs.map key ++ [key x] := by
  unfold upsertBy
  split_ifs with h
  · rw [List.map_map]
    refine List.map_congr_left fun y _ => ?_
    by_cases hy : key y = key x <;> simp [hy]
  · simp

theorem nodup_map_upsertBy {key : α → κ} {xs : List α} (h : (xs.map key).Nodup) (x : α) :
    ((upsertBy key x xs).map key).Nodup := by
  rw [map_upsertBy]
  split_ifs with hx
  · exact h
  · rw [List.nodup_append]
    refine ⟨h, List.nodup_singleton _, ?_⟩
    intro a ha b hb hab
    rw [List.mem_singleton] at hb
    exact hx (hb ▸ hab ▸ ha)

theorem mem_of_mem_upsertBy {key : α → κ} {x y : α} {xs : List α} (h : y ∈ upsertBy key x xs) :
    y = x ∨ y ∈ xs := by
  unfold upsertBy at h
  split_ifs at h
  · obtain ⟨z, hz, hy⟩ := List.mem_map.mp h
    split_ifs at hy
    · exact Or.inl hy.symm
    · exact Or.inr (hy ▸ hz)
  · rw [List.mem_append, List.mem_singleton] at h
    exact h.symm

/-- Upserting an image is the image of upserting, when the key of the image tells the value from the
others as its own key does. -/
theorem upsertBy_map_of_iff {β κ' : Type*} [DecidableEq κ'] {key : α → κ} {key' : β → κ'}
    {f : α → β} {x : α} {xs : List α} (h : ∀ y ∈ xs, key' (f y) = key' (f x) ↔ key y = key x) :
    upsertBy key' (f x) (xs.map f) = (upsertBy key x xs).map f := by
  have hmem : key' (f x) ∈ (xs.map f).map key' ↔ key x ∈ xs.map key := by
    simp only [List.mem_map, exists_exists_and_eq_and]
    exact exists_congr fun y => and_congr_right fun hy => h y hy
  unfold upsertBy
  by_cases hx : key x ∈ xs.map key
  · rw [if_pos hx, if_pos (hmem.mpr hx), List.map_map, List.map_map]
    refine List.map_congr_left fun y hy => ?_
    by_cases hyx : key y = key x <;> simp [h y hy, hyx]
  · rw [if_neg hx, if_neg (mt hmem.mp hx), List.map_append, List.map_singleton]

/-- Upserting the images is the image of upserting. -/
theorem upsertBy_map {β : Type*} (key : α → κ) (key' : β → κ) {f : α → β}
    (h : ∀ x, key' (f x) = key x) (x : α) (xs : List α) :
    upsertBy key' (f x) (xs.map f) = (upsertBy key x xs).map f :=
  upsertBy_map_of_iff fun y _ => by rw [h, h]

/-- Where neither the new element nor the one it replaces satisfies `p`, nothing changes for `p`. -/
theorem filter_upsertBy_of_not {key : α → κ} {p : α → Bool} {x : α} {xs : List α}
    (hx : p x = false) (hxs : ∀ y ∈ xs, key y = key x → p y = false) :
    (upsertBy key x xs).filter p = xs.filter p := by
  unfold upsertBy
  split_ifs with hmem
  · clear hmem
    induction xs with
    | nil => rfl
    | cons y xs ih =>
      rw [List.forall_mem_cons] at hxs
      rw [List.map_cons]
      by_cases hy : key y = key x
      · rw [if_pos hy, List.filter_cons_of_neg (by simp [hx]),
          List.filter_cons_of_neg (by simp [hxs.1 hy]), ih hxs.2]
      · rw [if_neg hy, List.filter_cons, List.filter_cons, ih hxs.2]
  · simp [List.filter_append, hx]

/-- Lookups see the upserted value under its key and are unchanged elsewhere. -/
theorem find?_upsertBy (key : α → κ) (x : α) (xs : List α) (k : κ) :
    (upsertBy key x xs).find? (fun y => key y = k) =
      if key x = k then some x else xs.find? (fun y => key y = k) := by
  have hp : ((fun y => decide (key y = k)) ∘ fun y => if key y = key x then x else y)
      = fun y => decide (key y = k) := by
    funext z
    by_cases hz : key z = key x <;> simp [hz]
  unfold upsertBy
  split_ifs with hmem hk hk
  · -- the replaced element is found under its own key
    obtain ⟨y, hy, hyx⟩ := List.mem_map.mp hmem
    rw [List.find?_map, hp]
    cases hf : xs.find? (fun y => decide (key y = k)) with
    | none =>
      rw [List.find?_eq_none] at hf
      exact absurd (by simpa using hyx.trans hk) (hf y hy)
    | some z =>
      have hz : key z = k := by simpa using List.find?_some hf
      simp [hz, hk]
  · -- the replacement is not under `k`, so neither is the element it replaces
    rw [List.find?_map, hp]
    cases hf : xs.find? (fun y => decide (key y = k)) with
    | none => rfl
    | some z =>
      have hz : key z = k := by simpa using List.find?_some hf
      have hzx : key z ≠ key x := fun h => hk (h.symm.trans hz)
      simp [hzx]
  · -- the appended element is found, since nothing before it has its key
    have hnone : xs.find? (fun y => decide (key y = k)) = none := by
      rw [List.find?_eq_none]
      intro y hy hyk
      exact hmem (List.mem_map.mpr ⟨y, hy, by rw [hk]; simpa using hyk⟩)
    simp [List.find?_append, hnone, hk]
  · simp [List.find?_append, hk]

/-- With pairwise different keys a lookup does not depend on the order. -/
theorem find?_eq_of_perm {key : α → κ} {xs ys : List α} (hp : xs.Perm ys)
    (h : (xs.map key).Nodup) (k : κ) :
    xs.find? (fun y => key y = k) = ys.find? (fun y => key y = k) := by
  cases hx : xs.find? (fun y => decide (key y = k)) with
  | none =>
    rw [List.find?_eq_none] at hx
    exact (List.find?_eq_none.mpr fun y hy => hx y (hp.mem_iff.mpr hy)).symm
  | some x =>
    have hmem : x ∈ ys := hp.mem_iff.mp (List.mem_of_find?_eq_some hx)
    have hk : key x = k := by simpa using List.find?_some hx
    cases hy : ys.find? (fun y => decide (key y = k)) with
    | none =>
      rw [List.find?_eq_none] at hy
      exact absurd (by simpa using hk) (hy x hmem)
    | some y =>
      have hyk : key y = k := by simpa using List.find?_some hy
      have hys : (ys.map key).Nodup := (hp.map key).nodup_iff.mp h
      rw [List.inj_on_of_nodup_map hys hmem (List.mem_of_find?_eq_some hy) (hk.trans hyk.symm)]

/-- The elements with the key of one of them, in a list without repeated keys. -/
theorem filter_key_eq_singleton {key : α → κ} {xs : List α}
    (h : (xs.map key).Nodup) {x : α} (hx : x ∈ xs) : xs.filter (fun y => key y = key x) = [x] := by
  obtain ⟨before, after, rfl⟩ := List.append_of_mem hx
  rw [List.map_append, List.map_cons, List.nodup_append, List.nodup_cons] at h
  have hbefore : before.filter (fun y => key y = key x) = [] := by
    refine List.filter_eq_nil_iff.mpr fun y hy hkey => ?_
    exact h.2.2 _ (List.mem_map_of_mem hy) _ List.mem_cons_self (of_decide_eq_true hkey)
  have hafter : after.filter (fun y => key y = key x) = [] := by
    refine List.filter_eq_nil_iff.mpr fun y hy hkey => h.2.1.1 ?_
    rw [← of_decide_eq_true hkey]
    exact List.mem_map_of_mem hy
  rw [List.filter_append, hbefore, List.filter_cons_of_pos (by simp), hafter, List.nil_append]

/-! ### Many upserts -/

/-- Upsert some values, in order. -/
def upsertAll (key : α → κ) (xs : List α) (l : List α) : List α :=
  xs.foldl (fun l x => upsertBy key x l) l

@[simp] theorem upsertAll_nil (key : α → κ) (l : List α) : upsertAll key [] l = l := rfl

theorem upsertAll_append (key : α → κ) (xs ys l : List α) :
    upsertAll key (xs ++ ys) l = upsertAll key ys (upsertAll key xs l) :=
  List.foldl_append

/-- The keys that are there stay where they are, and new keys follow them. -/
theorem exists_map_upsertAll (key : α → κ) (xs l : List α) :
    ∃ new, (upsertAll key xs l).map key = l.map key ++ new := by
  induction xs using List.reverseRecOn with
  | nil => exact ⟨[], by simp⟩
  | append_singleton xs x ih =>
    obtain ⟨new, hnew⟩ := ih
    rw [upsertAll_append]
    show ∃ new, (upsertBy key x (upsertAll key xs l)).map key = l.map key ++ new
    rw [map_upsertBy, hnew]
    split_ifs
    · exact ⟨new, rfl⟩
    · exact ⟨new ++ [key x], List.append_assoc _ _ _⟩

/-- Replace one value in the middle of a list. -/
theorem upsertBy_middle {key : α → κ} {x y : α} {before rest : List α} (hxy : key x = key y)
    (h : ((before ++ y :: rest).map key).Nodup) :
    upsertBy key x (before ++ y :: rest) = before ++ x :: rest := by
  have hmem : key x ∈ (before ++ y :: rest).map key := by simp [hxy]
  rw [List.map_append, List.map_cons, List.nodup_append, List.nodup_cons] at h
  have hkeep : ∀ zs : List α, key y ∉ zs.map key →
      zs.map (fun z => if key z = key x then x else z) = zs := fun zs hzs => by
    conv_rhs => rw [← List.map_id zs]
    refine List.map_congr_left fun z hz => if_neg fun hzx => hzs ?_
    rw [← hxy, ← hzx]
    exact List.mem_map_of_mem hz
  rw [upsertBy_of_mem hmem, List.map_append, List.map_cons, hkeep before, hkeep rest h.2.1.1,
    if_pos hxy.symm]
  exact fun hy => h.2.2 _ hy _ List.mem_cons_self rfl

/-- Upserting an image of every value, in order, maps the list. -/
theorem upsertAll_map_self {key : α → κ} {f : α → α} (hf : ∀ x, key (f x) = key x) {l : List α}
    (h : (l.map key).Nodup) : upsertAll key (l.map f) l = l.map f := by
  -- the values before the current one are replaced, the others are as they were
  have hloop : ∀ rest before : List α, ((before ++ rest).map key).Nodup →
      upsertAll key (rest.map f) (before.map f ++ rest) = (before ++ rest).map f := by
    intro rest
    induction rest with
    | nil => simp
    | cons x rest ih =>
      intro before hnodup
      have hkeys : ((before.map f ++ x :: rest).map key).Nodup := by
        have hmap : (before.map f).map key = before.map key := by
          rw [List.map_map]
          exact List.map_congr_left fun y _ => hf y
        rw [List.map_append, hmap, ← List.map_append]
        exact hnodup
      have hstep := ih (before ++ [x]) (by simpa using hnodup)
      rw [List.map_cons]
      show upsertAll key (rest.map f) (upsertBy key (f x) (before.map f ++ x :: rest)) = _
      rw [upsertBy_middle (hf x) hkeys]
      simpa using hstep
  exact hloop l [] h

/-- **Latest value wins.** -/
theorem find?_upsertAll (key : α → κ) (xs l : List α) (k : κ) :
    (upsertAll key xs l).find? (fun y => key y = k) =
      ((xs.filter fun x => key x = k).getLast?).or (l.find? fun y => key y = k) := by
  induction xs using List.reverseRecOn with
  | nil => simp
  | append_singleton xs x ih =>
    rw [upsertAll_append]
    show (upsertBy key x (upsertAll key xs l)).find? _ = _
    -- the last upsert decides its own key, and the earlier ones every other
    rw [find?_upsertBy, ih]
    by_cases hx : key x = k <;> simp [List.filter_append, hx]

/-! ### From the empty list -/

theorem mem_of_mem_upsertAll {key : α → κ} {xs l : List α} {y : α} (h : y ∈ upsertAll key xs l) :
    y ∈ xs ∨ y ∈ l := by
  induction xs using List.reverseRecOn with
  | nil => exact Or.inr h
  | append_singleton xs x ih =>
    rw [upsertAll_append] at h
    rw [List.mem_append, List.mem_singleton]
    rcases mem_of_mem_upsertBy h with rfl | hy
    · exact Or.inl (Or.inr rfl)
    · exact (ih hy).imp_left Or.inl

/-- Upserting images whose keys coincide exactly when those of the values do. -/
theorem upsertAll_map_of_iff {β κ' : Type*} [DecidableEq κ'] {key : α → κ} {key' : β → κ'}
    {f : α → β} {xs : List α}
    (h : ∀ x ∈ xs, ∀ y ∈ xs, key' (f x) = key' (f y) ↔ key x = key y) :
    upsertAll key' (xs.map f) [] = (upsertAll key xs []).map f := by
  induction xs using List.reverseRecOn with
  | nil => rfl
  | append_singleton xs x ih =>
    have hxs := ih fun y hy z hz => h y (by simp [hy]) z (by simp [hz])
    rw [List.map_append, List.map_singleton, upsertAll_append, upsertAll_append, hxs]
    refine upsertBy_map_of_iff fun y hy => h y ?_ x (by simp)
    rcases mem_of_mem_upsertAll hy with hy | hy
    · exact List.mem_append_left _ hy
    · exact absurd hy List.not_mem_nil

theorem map_upsertAll_empty (key : α → κ) (xs : List α) :
    (upsertAll key xs []).map key = firstSeen (xs.map key) := by
  induction xs using List.reverseRecOn with
  | nil => rfl
  | append_singleton xs x ih =>
    rw [upsertAll_append]
    show (upsertBy key x (upsertAll key xs [])).map key = _
    rw [map_upsertBy, ih, List.map_append, List.map_singleton, firstSeen_concat]
    simp only [mem_firstSeen]

/-- With pairwise different keys a list is its lookups, in the order of its keys. -/
theorem filterMap_find?_map {key : α → κ} {l : List α} (h : (l.map key).Nodup) :
    ((l.map key).filterMap fun k => l.find? fun y => key y = k) = l := by
  have hself : ∀ x ∈ l, l.find? (fun y => key y = key x) = some x := fun x hx => by
    rw [← List.head?_filter, filter_key_eq_singleton h hx, List.head?_cons]
  rw [List.filterMap_map]
  conv_rhs => rw [← List.filterMap_some (l := l)]
  exact List.filterMap_congr fun x hx => hself x hx

/-- **What upserting builds**: the latest value of each key, in first-seen order. -/
theorem upsertAll_empty (key : α → κ) (xs : List α) :
    upsertAll key xs [] = (firstSeen (xs.map key)).filterMap fun k =>
      (xs.filter fun x => key x = k).getLast? := by
  have hnodup : ((upsertAll key xs []).map key).Nodup := by
    rw [map_upsertAll_empty]
    exact nodup_firstSeen _
  have hlookup := filterMap_find?_map hnodup
  rw [map_upsertAll_empty] at hlookup
  rw [← hlookup]
  refine List.filterMap_congr fun k _ => ?_
  rw [find?_upsertAll]
  simp

end Mirrorlane
