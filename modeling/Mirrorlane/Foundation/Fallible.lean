import Mathlib.Data.List.Basic

/-!
# Traversals that may fail

A traversal in `Option` succeeds when each of its steps does.  `mapM_eq_some_map` gives its value
for a map, and `exists_foldlM_eq_some` is the loop rule for a fold: an invariant of the elements
read so far that every step can keep is kept by the whole loop, which does not fail.  A traversal
that skips what fails keeps the keys of the rest in order (`map_filterMap_sublist`).
-/

namespace Mirrorlane

variable {α β κ σ : Type*}

/-- When every result has the key of its element, the keys of the results are some of the keys of
the elements. -/
theorem map_filterMap_sublist {f : α → Option β} {key : β → κ} {key' : α → κ}
    (h : ∀ {a b}, f a = some b → key b = key' a) (xs : List α) :
    ((xs.filterMap f).map key).Sublist (xs.map key') := by
  induction xs with
  | nil => exact List.Sublist.slnil
  | cons x xs ih =>
    rw [List.filterMap_cons]
    cases hx : f x with
    | none => exact ih.cons _
    | some y =>
      rw [List.map_cons, List.map_cons, h hx]
      exact ih.cons_cons _

theorem mapM_eq_some_map {f : α → Option β} {g : α → β} {xs : List α}
    (h : ∀ x ∈ xs, f x = some (g x)) : xs.mapM f = some (xs.map g) := by
  induction xs with
  | nil => rfl
  | cons x xs ih =>
    rw [List.mapM_cons, h x List.mem_cons_self, ih fun y hy => h y (List.mem_cons_of_mem _ hy)]
    rfl

/-- **The loop rule.** -/
theorem exists_foldlM_eq_some {step : σ → α → Option σ} {I : List α → σ → Prop}
    (hstep : ∀ hist s x, I hist s → ∃ s', step s x = some s' ∧ I (hist ++ [x]) s')
    (xs : List α) {hist : List α} {s : σ} (hs : I hist s) :
    ∃ s', xs.foldlM step s = some s' ∧ I (hist ++ xs) s' := by
  induction xs generalizing hist s with
  | nil => exact ⟨s, rfl, by simpa using hs⟩
  | cons x xs ih =>
    obtain ⟨s₁, h₁, hI₁⟩ := hstep hist s x hs
    obtain ⟨s₂, h₂, hI₂⟩ := ih hI₁
    refine ⟨s₂, ?_, by simpa using hI₂⟩
    rw [List.foldlM_cons, h₁]
    exact h₂

end Mirrorlane
