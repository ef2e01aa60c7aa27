import Mathlib.Data.List.Nodup
import Mathlib.Data.List.Sort

/-!
# Rankings

A ranking lists the keys that meet a condition, best score first and ties by ascending key.  Score
and condition determine it (`IsRanking.unique`), and only the order of the scores matters: scores
that are normalized, or scaled, rank as before.  `Precedes` says that one key stands in a list and
another does not stand before it; in a ranking the scores decide it (`IsRanking.precedes_iff`).
-/

namespace Mirrorlane

/-- Lists in one strict order that have the same elements are equal. -/
theorem eq_of_pairwise_of_mem {α : Type*} {r : α → α → Prop} (hasymm : ∀ {a b}, r a b → ¬r b a)
    {xs ys : List α} (hxs : xs.Pairwise r) (hys : ys.Pairwise r) (hmem : ∀ x, x ∈ xs ↔ x ∈ ys) :
    xs = ys := by
  have hnodup : ∀ {zs : List α}, zs.Pairwise r → zs.Nodup := fun h =>
    h.imp fun {a b} hab heq => by
      subst heq
      exact hasymm hab hab
  have hperm : xs.Perm ys := (List.perm_ext_iff_of_nodup (hnodup hxs) (hnodup hys)).mpr hmem
  exact hperm.eq_of_pairwise (fun _ _ _ _ hab hba => absurd hba (hasymm hab)) hxs hys

variable {κ F : Type*} [LinearOrder κ] [LinearOrder F]

/-- Best score first with ties by smaller key is a strict order. -/
theorem bestFirst_asymm {s s' : F} {k k' : κ} (h : s' < s ∨ s' = s ∧ k < k') :
    ¬(s < s' ∨ s = s' ∧ k' < k) := by
  rcases h with hlt | ⟨heq, hkey⟩
  · rintro (hlt' | ⟨heq', -⟩)
    · exact lt_asymm hlt hlt'
    · exact hlt.ne' heq'
  · rintro (hlt' | ⟨-, hkey'⟩)
    · exact hlt'.ne' heq
    · exact lt_asymm hkey hkey'

theorem bestFirst_total (s s' : F) (k k' : κ) :
    (s' < s ∨ s' = s ∧ k ≤ k') ∨ (s < s' ∨ s = s' ∧ k' ≤ k) := by
  rcases lt_trichotomy s s' with hlt | heq | hgt
  · exact Or.inr (Or.inl hlt)
  · rcases le_total k k' with hle | hle
    · exact Or.inl (Or.inr ⟨heq.symm, hle⟩)
    · exact Or.inr (Or.inr ⟨heq, hle⟩)
  · exact Or.inl (Or.inl hgt)

theorem bestFirst_trans {s s' s'' : F} {k k' k'' : κ} (h : s' < s ∨ s' = s ∧ k ≤ k')
    (h' : s'' < s' ∨ s'' = s' ∧ k' ≤ k'') : s'' < s ∨ s'' = s ∧ k ≤ k'' := by
  rcases h with hlt | ⟨heq, hle⟩
  · rcases h' with hlt' | ⟨heq', -⟩
    · exact Or.inl (hlt'.trans hlt)
    · exact Or.inl (heq' ▸ hlt)
  · rcases h' with hlt' | ⟨heq', hle'⟩
    · exact Or.inl (heq ▸ hlt')
    · exact Or.inr ⟨heq'.trans heq, hle.trans hle'⟩

/-- A better score, or the same score and a smaller key. -/
def RankedAbove (score : κ → F) (a b : κ) : Prop :=
  score b < score a ∨ score b = score a ∧ a < b

theorem RankedAbove.asymm {score : κ → F} {a b : κ} (h : RankedAbove score a b) :
    ¬RankedAbove score b a :=
  bestFirst_asymm h

/-- Scores in the same order rank alike. -/
theorem RankedAbove.congr {F' : Type*} [LinearOrder F'] {score : κ → F} {score' : κ → F'} {a b : κ}
    (hab : score a < score b ↔ score' a < score' b) (hba : score b < score a ↔ score' b < score' a)
    (h : RankedAbove score a b) : RankedAbove score' a b := by
  rcases h with hlt | ⟨heq, hkey⟩
  · exact Or.inl (hba.mp hlt)
  · refine Or.inr ⟨le_antisymm ?_ ?_, hkey⟩
    · exact not_lt.mp fun hlt => (hab.mpr hlt).ne heq.symm
    · exact not_lt.mp fun hlt => (hba.mpr hlt).ne heq

/-- The keys that meet `member`, best first. -/
structure IsRanking (score : κ → F) (member : κ → Prop) (ranked : List κ) : Prop where
  mem : ∀ k, k ∈ ranked ↔ member k
  sorted : ranked.Pairwise (RankedAbove score)

/-- `a` is in the list and `b` is not before it. -/
def Precedes {α : Type*} (xs : List α) (a b : α) : Prop :=
  ∃ before after, xs = before ++ a :: after ∧ b ∉ before

/-- Nobody precedes the first one. -/
theorem not_precedes_head {α : Type*} {xs : List α} {a b : α} (hne : a ≠ b) :
    ¬Precedes (b :: xs) a b := by
  rintro ⟨before, after, heq, hb⟩
  cases before with
  | nil => exact hne (List.cons.inj heq).1.symm
  | cons first before =>
    refine hb ?_
    rw [(List.cons.inj heq).1]
    exact List.mem_cons_self

namespace IsRanking

variable {score : κ → F} {member : κ → Prop} {ranked : List κ}

theorem nodup (h : IsRanking score member ranked) : ranked.Nodup :=
  h.sorted.imp fun {a b} hab heq => by
    subst heq
    exact hab.asymm hab

/-- Scores in the same order have the same ranking. -/
theorem congr {F' : Type*} [LinearOrder F'] {score' : κ → F'} (h : IsRanking score member ranked)
    (hord : ∀ a b, member a → member b → (score a < score b ↔ score' a < score' b)) :
    IsRanking score' member ranked where
  mem := h.mem
  sorted := h.sorted.imp_of_mem fun {a b} ha hb hab =>
    hab.congr (hord a b ((h.mem a).mp ha) ((h.mem b).mp hb))
      (hord b a ((h.mem b).mp hb) ((h.mem a).mp ha))

/-- **The ranking is determined by its members and the order of their scores.** -/
theorem unique {F' : Type*} [LinearOrder F'] {score' : κ → F'} {member' : κ → Prop}
    {ranked' : List κ} (h : IsRanking score member ranked) (h' : IsRanking score' member' ranked')
    (hmem : ∀ k, member k ↔ member' k)
    (hord : ∀ a b, member a → member b → (score a < score b ↔ score' a < score' b)) :
    ranked = ranked' := by
  have hsorted := (h.congr hord).sorted
  refine eq_of_pairwise_of_mem RankedAbove.asymm hsorted h'.sorted fun k => ?_
  rw [h.mem, h'.mem, hmem]

/-- The first key has the best score. -/
theorem le_of_head? (h : IsRanking score member ranked) {best : κ}
    (hbest : ranked.head? = some best) {k : κ} (hk : member k) : score k ≤ score best := by
  cases ranked with
  | nil => cases hbest
  | cons first rest =>
    have hfirst : first = best := Option.some.inj hbest
    subst hfirst
    rcases List.mem_cons.mp ((h.mem k).mpr hk) with rfl | hrest
    · exact le_refl _
    · rcases (List.pairwise_cons.mp h.sorted).1 k hrest with hlt | ⟨heq, -⟩
      · exact hlt.le
      · exact heq.le

/-- **Who precedes whom.** -/
theorem precedes_iff (h : IsRanking score member ranked) {a b : κ} (ha : member a) (hne : a ≠ b) :
    Precedes ranked a b ↔ (member b → RankedAbove score a b) := by
  constructor
  · rintro ⟨before, after, rfl, hb⟩ hmem
    have hsorted := h.sorted
    rw [List.pairwise_append, List.pairwise_cons] at hsorted
    -- `b` is there, and it stands after `a`
    rcases List.mem_append.mp ((h.mem b).mpr hmem) with hbefore | hafter
    · exact absurd hbefore hb
    · rcases List.mem_cons.mp hafter with heq | hafter
      · exact absurd heq.symm hne
      · exact hsorted.2.1.1 b hafter
  · intro habove
    obtain ⟨before, after, hsplit⟩ := List.append_of_mem ((h.mem a).mpr ha)
    refine ⟨before, after, hsplit, fun hb => ?_⟩
    have hsorted := h.sorted
    rw [hsplit, List.pairwise_append] at hsorted
    have hmem : member b := (h.mem b).mp (hsplit ▸ List.mem_append_left _ hb)
    exact (habove hmem).asymm (hsorted.2.2 b hb a List.mem_cons_self)

end IsRanking

end Mirrorlane
