import Mathlib.Algebra.Order.Field.Basic
import Mathlib.Order.Bounds.Basic
import Mathlib.Tactic.FieldSimp

/-!
# Shares of the largest score

`share max s a` is the part `s a` has of the largest score, or `0` when no score is positive.
Shares forget the scale of the scores and nothing else: two families of scores have the same shares
exactly when they are proportional (`proportional_iff_share_eq`).
-/

namespace Mirrorlane

variable {ι F : Type*} [Field F] [LinearOrder F]

/-- The part of the largest score. -/
def share (max : F) (s : ι → F) (a : ι) : F := if max = 0 then 0 else s a / max

/-- Equal up to one positive factor. -/
def Proportional (s s' : ι → F) : Prop := ∃ k, 0 < k ∧ ∀ a, s' a = k * s a

variable {s s' : ι → F} {max max' : F}

/-- The largest score has share `1`, unless no score is positive. -/
theorem share_eq_one {a : ι} (h : s a = max) (hne : max ≠ 0) : share max s a = 1 := by
  unfold share
  rw [if_neg hne, h, div_self hne]

theorem share_eq_zero (max : F) {a : ι} (h : s a = 0) : share max s a = 0 := by
  unfold share
  rw [h, zero_div, ite_self]

/-- When the largest is `0`, all are. -/
theorem eq_zero_of_isGreatest_zero (hs : ∀ a, 0 ≤ s a) (h : IsGreatest (Set.range s) 0) (a : ι) :
    s a = 0 :=
  le_antisymm (h.2 ⟨a, rfl⟩) (hs a)

variable [IsStrictOrderedRing F]

/-- A factor scales the largest score. -/
theorem isGreatest_mul {k : F} (hk : 0 < k) (h : IsGreatest (Set.range s) max)
    (hs : ∀ a, s' a = k * s a) : IsGreatest (Set.range s') (k * max) := by
  obtain ⟨⟨a, ha⟩, hle⟩ := h
  refine ⟨⟨a, by rw [hs, ha]⟩, ?_⟩
  rintro _ ⟨b, rfl⟩
  rw [hs]
  exact mul_le_mul_of_nonneg_left (hle ⟨b, rfl⟩) hk.le

/-- **Scores are proportional when their shares are equal.** -/
theorem proportional_iff_share_eq (hs : ∀ a, 0 ≤ s a) (hs' : ∀ a, 0 ≤ s' a)
    (hmax : IsGreatest (Set.range s) max) (hmax' : IsGreatest (Set.range s') max') :
    Proportional s s' ↔ ∀ a, share max s a = share max' s' a := by
  constructor
  · rintro ⟨k, hk, hfactor⟩ a
    have hscaled : max' = k * max := hmax'.unique (isGreatest_mul hk hmax hfactor)
    unfold share
    by_cases hzero : max = 0
    · rw [hscaled, hzero, mul_zero, if_pos rfl, if_pos rfl]
    · rw [if_neg hzero, hscaled, if_neg (mul_ne_zero hk.ne' hzero), hfactor,
        mul_div_mul_left _ _ hk.ne']
  · intro h
    obtain ⟨⟨top, htop⟩, -⟩ := id hmax
    obtain ⟨⟨top', htop'⟩, -⟩ := id hmax'
    by_cases hzero : max = 0
    · -- no score is positive, on either side
      have hzero' : max' = 0 := by
        by_contra hne
        have hone := share_eq_one htop' hne
        rw [← h top', share, if_pos hzero] at hone
        exact zero_ne_one hone
      rw [hzero] at hmax
      rw [hzero'] at hmax'
      refine ⟨1, zero_lt_one, fun a => ?_⟩
      rw [eq_zero_of_isGreatest_zero hs hmax a, eq_zero_of_isGreatest_zero hs' hmax' a, mul_zero]
    · have hne' : max' ≠ 0 := by
        intro hzero'
        have hone := share_eq_one htop hzero
        rw [h top, share, if_pos hzero'] at hone
        exact zero_ne_one hone
      have hpos : 0 < max := lt_of_le_of_ne (htop ▸ hs top) (Ne.symm hzero)
      have hpos' : 0 < max' := lt_of_le_of_ne (htop' ▸ hs' top') (Ne.symm hne')
      refine ⟨max' / max, div_pos hpos' hpos, fun a => ?_⟩
      have hshare := h a
      unfold share at hshare
      rw [if_neg hzero, if_neg hne'] at hshare
      field_simp at hshare ⊢
      exact hshare.symm

end Mirrorlane
