import Mathlib.Data.List.Basic

/-!
# One changed element

`List.modify i f` changes the element at position `i`.  What `f` keeps of an element, the list keeps
(`map_modify`), and a change that makes no element satisfy `p` that did not before makes no more
elements satisfy it (`countP_modify_le`).
-/

namespace Mirrorlane

variable {α β : Type*}

/-- What `f` keeps of an element, the list keeps. -/
theorem map_modify {f : α → α} {g : α → β} (h : ∀ a, g (f a) = g a) (l : List α) (i : ℕ) :
    (l.modify i f).map g = l.map g := by
  induction l generalizing i with
  | nil => rw [List.modify_nil]
  | cons a l ih =>
    cases i with
    | zero => rw [List.modify_zero_cons, List.map_cons, List.map_cons, h]
    | succ i => rw [List.modify_succ_cons, List.map_cons, List.map_cons, ih]

/-- A change that does not make the element satisfy `p` does not add to the elements that do. -/
theorem countP_modify_le {f : α → α} {p : α → Bool} {l : List α} {i : ℕ} {a : α}
    (ha : l[i]? = some a) (h : p (f a) = true → p a = true) :
    (l.modify i f).countP p ≤ l.countP p := by
  induction l generalizing i with
  | nil => simp at ha
  | cons b l ih =>
    cases i with
    | zero =>
      have hb : b = a := by simpa using ha
      subst hb
      rw [List.modify_zero_cons]
      by_cases hp : p (f b) = true
      · have heq : (f b :: l).countP p = (b :: l).countP p := by
          rw [List.countP_cons_of_pos hp, List.countP_cons_of_pos (h hp)]
        exact Nat.le_of_eq heq
      · rw [List.countP_cons_of_neg hp, List.countP_cons]
        omega
    | succ i =>
      have hle : (l.modify i f).countP p ≤ l.countP p := ih (by simpa using ha)
      rw [List.modify_succ_cons, List.countP_cons, List.countP_cons]
      omega

end Mirrorlane
