import Mathlib.Algebra.Order.Field.Rat
import Mathlib.Data.Int.Log
import Mathlib.Data.List.Induction
import Mathlib.Data.Rat.Floor
import Mathlib.Tactic.Linarith
import Mathlib.Tactic.NormNum
import Mathlib.Tactic.Ring

/-!
# Rounded arithmetic on non-negative numbers

Floating-point addition and division are the exact operations followed by a rounding.  A `Rounding`
is what such code relies on: it keeps the order and the numbers `0` and `1`.  `exact` rounds nothing
and `binary64` is the rounding of IEEE doubles, to the nearest and on ties to even.

A sum of `n` numbers of the unit interval is not rounded past `n` where counting stops at a limit
(`CountsTo.roundedSum_le`): the doubles count to `2 ^ 53` and then stay there
(`countsTo_binary64`).  Where one rounding is off by at most `u`, such a sum is off by at most
`u * n * (n + 1) / 2` and their mean by at most `u * (n + 3) / 2`
(`Within.abs_roundedMean_sub_le`).
-/

namespace Mirrorlane

/-- A rounding of non-negative numbers. -/
structure Rounding where
  round : ℚ → ℚ
  mono : ∀ {x y : ℚ}, 0 ≤ x → x ≤ y → round x ≤ round y
  zero : round 0 = 0
  one : round 1 = 1

namespace Rounding

/-- Exact arithmetic. -/
def exact : Rounding where
  round x := x
  mono _ h := h
  zero := rfl
  one := rfl

@[simp] theorem exact_round (x : ℚ) : exact.round x = x := rfl

section Sums

variable (r : Rounding)

theorem round_nonneg {x : ℚ} (h : 0 ≤ x) : 0 ≤ r.round x :=
  r.zero.ge.trans (r.mono le_rfl h)

theorem round_le_one {x : ℚ} (h : 0 ≤ x) (hle : x ≤ 1) : r.round x ≤ 1 :=
  (r.mono h hle).trans r.one.le

/-- The sum of some numbers from the left, rounded after every addition. -/
def roundedSum (xs : List ℚ) : ℚ := xs.foldl (fun sum x => r.round (sum + x)) 0

theorem roundedSum_nil : r.roundedSum [] = 0 := rfl

theorem roundedSum_concat (xs : List ℚ) (x : ℚ) :
    r.roundedSum (xs ++ [x]) = r.round (r.roundedSum xs + x) := by
  unfold roundedSum
  rw [List.foldl_append]
  rfl

theorem roundedSum_nonneg {xs : List ℚ} (h : ∀ x ∈ xs, 0 ≤ x) : 0 ≤ r.roundedSum xs := by
  induction xs using List.reverseRecOn with
  | nil => exact le_rfl
  | append_singleton xs x ih =>
    rw [roundedSum_concat]
    refine r.round_nonneg (add_nonneg (ih fun y hy => h y (List.mem_append_left _ hy)) ?_)
    exact h x (List.mem_append_right _ (List.mem_singleton_self x))

/-- In exact arithmetic it is the sum. -/
theorem roundedSum_exact (xs : List ℚ) : exact.roundedSum xs = xs.sum := by
  rw [List.sum_eq_foldl]
  rfl

/-- Whole numbers are kept up to a limit, and adding one to the limit gives it back. -/
structure CountsTo (limit : ℕ) : Prop where
  round_natCast : ∀ n ≤ limit, r.round n = n
  round_succ : r.round (limit + 1) = limit

variable {r}

/-- **A sum of numbers of the unit interval is at most their count**, as it is rounded. -/
theorem CountsTo.roundedSum_le {limit : ℕ} (h : r.CountsTo limit) {xs : List ℚ}
    (hxs : ∀ x ∈ xs, 0 ≤ x ∧ x ≤ 1) : r.roundedSum xs ≤ r.round xs.length := by
  -- the sum stays below the limit too, where one more is rounded away
  have hmin : r.roundedSum xs ≤ (min xs.length limit : ℕ) := by
    induction xs using List.reverseRecOn with
    | nil => simp [roundedSum_nil]
    | append_singleton xs x ih =>
      have hx := hxs x (List.mem_append_right _ (List.mem_singleton_self x))
      have hsum := ih fun y hy => hxs y (List.mem_append_left _ hy)
      have hnonneg : 0 ≤ r.roundedSum xs :=
        r.roundedSum_nonneg fun y hy => (hxs y (List.mem_append_left _ hy)).1
      rw [roundedSum_concat, List.length_append, List.length_singleton]
      rcases Nat.lt_or_ge xs.length limit with hlt | hge
      · rw [min_eq_left hlt.le] at hsum
        rw [min_eq_left hlt, ← h.round_natCast (xs.length + 1) hlt, Nat.cast_succ]
        exact r.mono (add_nonneg hnonneg hx.1) (add_le_add hsum hx.2)
      · rw [min_eq_right hge] at hsum
        rw [min_eq_right (hge.trans (Nat.le_succ _)), ← h.round_succ]
        exact r.mono (add_nonneg hnonneg hx.1) (add_le_add hsum hx.2)
  rw [← h.round_natCast _ (min_le_right _ _)] at hmin
  exact hmin.trans (r.mono (Nat.cast_nonneg _) (Nat.cast_le.mpr (min_le_left _ _)))

/-! ### Errors -/

variable (r) in
/-- The mean of some numbers: their sum is divided by their count. -/
def roundedMean (xs : List ℚ) : ℚ := r.round (r.roundedSum xs / r.round xs.length)

/-- A rounding is off by at most `u`; above one, in proportion. -/
def Within (r : Rounding) (u : ℚ) : Prop := ∀ x, 0 ≤ x → |r.round x - x| ≤ u * max x 1

theorem Within.nonneg {u : ℚ} (h : r.Within u) : 0 ≤ u := by
  have hone := h 1 zero_le_one
  rw [r.one, sub_self, abs_zero, max_self, mul_one] at hone
  exact hone

variable {u : ℚ} {limit : ℕ}

/-- The mean of numbers of the unit interval is in it. -/
theorem CountsTo.roundedMean_le_one (h : r.CountsTo limit) {xs : List ℚ}
    (hxs : ∀ x ∈ xs, 0 ≤ x ∧ x ≤ 1) : r.roundedMean xs ≤ 1 := by
  have hcount : 0 ≤ r.round xs.length := r.round_nonneg (Nat.cast_nonneg _)
  refine r.round_le_one (div_nonneg (r.roundedSum_nonneg fun x hx => (hxs x hx).1) hcount) ?_
  exact div_le_one_of_le₀ (h.roundedSum_le hxs) hcount

theorem roundedMean_nonneg {xs : List ℚ} (hxs : ∀ x ∈ xs, 0 ≤ x) : 0 ≤ r.roundedMean xs :=
  r.round_nonneg (div_nonneg (r.roundedSum_nonneg hxs) (r.round_nonneg (Nat.cast_nonneg _)))

/-- **The error of a sum**, addition by addition. -/
theorem Within.abs_roundedSum_sub_le (hr : r.Within u) (h : r.CountsTo limit) {xs : List ℚ}
    (hlimit : xs.length ≤ limit) (hxs : ∀ x ∈ xs, 0 ≤ x ∧ x ≤ 1) :
    |r.roundedSum xs - xs.sum| ≤ u * (xs.length * (xs.length + 1) / 2) := by
  induction xs using List.reverseRecOn with
  | nil => simp [roundedSum_nil]
  | append_singleton xs x ih =>
    rw [List.length_append, List.length_singleton] at hlimit ⊢
    have hx := hxs x (List.mem_append_right _ (List.mem_singleton_self x))
    have hbefore : ∀ y ∈ xs, 0 ≤ y ∧ y ≤ 1 := fun y hy => hxs y (List.mem_append_left _ hy)
    have hsum := ih (by omega) hbefore
    have hnonneg : 0 ≤ r.roundedSum xs := r.roundedSum_nonneg fun y hy => (hbefore y hy).1
    have hle : r.roundedSum xs ≤ xs.length :=
      (h.roundedSum_le hbefore).trans (h.round_natCast _ (by omega)).le
    -- what is added to is at most the count, and so is what is rounded
    have hstep : |r.round (r.roundedSum xs + x) - (r.roundedSum xs + x)| ≤
        u * (xs.length + 1) := by
      refine (hr _ (add_nonneg hnonneg hx.1)).trans (mul_le_mul_of_nonneg_left ?_ hr.nonneg)
      exact max_le (add_le_add hle hx.2) (le_add_of_nonneg_left (Nat.cast_nonneg _))
    rw [roundedSum_concat, List.sum_append, List.sum_singleton]
    calc |r.round (r.roundedSum xs + x) - (xs.sum + x)|
        = |(r.round (r.roundedSum xs + x) - (r.roundedSum xs + x)) +
            (r.roundedSum xs - xs.sum)| := by ring_nf
      _ ≤ u * (xs.length + 1) + u * (xs.length * (xs.length + 1) / 2) :=
          (abs_add_le _ _).trans (add_le_add hstep hsum)
      _ = u * (((xs.length + 1 : ℕ) : ℚ) * (((xs.length + 1 : ℕ) : ℚ) + 1) / 2) := by
          push_cast
          ring

/-- **The error of a mean.** -/
theorem Within.abs_roundedMean_sub_le (hr : r.Within u) (h : r.CountsTo limit) {xs : List ℚ}
    (hne : xs ≠ []) (hlimit : xs.length ≤ limit) (hxs : ∀ x ∈ xs, 0 ≤ x ∧ x ≤ 1) :
    |r.roundedMean xs - xs.sum / xs.length| ≤ u * (xs.length + 3) / 2 := by
  have hlength : (0 : ℚ) < xs.length := Nat.cast_pos.mpr (List.length_pos_iff.mpr hne)
  have hcount : r.round xs.length = xs.length := h.round_natCast _ hlimit
  have hsum : |r.roundedSum xs / xs.length - xs.sum / xs.length| ≤ u * (xs.length + 1) / 2 := by
    rw [← sub_div, abs_div, abs_of_pos hlength, div_le_iff₀ hlength]
    refine (hr.abs_roundedSum_sub_le h hlimit hxs).trans (le_of_eq ?_)
    ring
  -- the quotient is at most one
  have hquotient : |r.round (r.roundedSum xs / xs.length) - r.roundedSum xs / xs.length| ≤ u := by
    have hnonneg : 0 ≤ r.roundedSum xs / xs.length :=
      div_nonneg (r.roundedSum_nonneg fun x hx => (hxs x hx).1) hlength.le
    have hle : r.roundedSum xs / xs.length ≤ 1 := by
      rw [div_le_one₀ hlength]
      exact (h.roundedSum_le hxs).trans hcount.le
    have hoff := hr _ hnonneg
    rwa [max_eq_right hle, mul_one] at hoff
  rw [roundedMean, hcount]
  calc |r.round (r.roundedSum xs / xs.length) - xs.sum / xs.length|
      ≤ u + u * (xs.length + 1) / 2 :=
        (abs_sub_le _ (r.roundedSum xs / xs.length) _).trans (add_le_add hquotient hsum)
    _ = u * (xs.length + 3) / 2 := by ring

end Sums

/-! ### To the nearest, ties to even -/

/-- The nearest integer; the even one of two. -/
def nearest (x : ℚ) : ℤ :=
  if x - ⌊x⌋ < 1 / 2 ∨ x - ⌊x⌋ = 1 / 2 ∧ ⌊x⌋ % 2 = 0 then ⌊x⌋ else ⌊x⌋ + 1

theorem floor_le_nearest (x : ℚ) : ⌊x⌋ ≤ nearest x := by
  unfold nearest
  split_ifs <;> omega

theorem nearest_le_floor_add_one (x : ℚ) : nearest x ≤ ⌊x⌋ + 1 := by
  unfold nearest
  split_ifs <;> omega

theorem nearest_intCast (n : ℤ) : nearest n = n := by
  unfold nearest
  rw [Int.floor_intCast, sub_self, if_pos (Or.inl one_half_pos)]

theorem nearest_mono {x y : ℚ} (h : x ≤ y) : nearest x ≤ nearest y := by
  rcases (Int.floor_le_floor h).lt_or_eq with hlt | heq
  · exact (nearest_le_floor_add_one x).trans (hlt.trans_le (floor_le_nearest y))
  · -- on one floor the larger rest goes up first
    unfold nearest
    rw [heq]
    split_ifs with hx hy hy
    · exact le_rfl
    · omega
    · exfalso
      rw [not_or, not_and, not_lt] at hx
      rcases hy with hy | ⟨hy, heven⟩
      · linarith [hx.1]
      · exact hx.2 (le_antisymm (by linarith) hx.1) heven
    · exact le_rfl

/-- The nearest integer is at most a half away. -/
theorem abs_nearest_sub_le (x : ℚ) : |(nearest x : ℚ) - x| ≤ 1 / 2 := by
  have hfloor := Int.floor_le x
  have hceil := Int.lt_floor_add_one x
  unfold nearest
  rw [abs_le]
  split_ifs with h
  · have hrest : x - ⌊x⌋ ≤ 1 / 2 := by
      rcases h with hlt | ⟨heq, -⟩
      · exact hlt.le
      · exact heq.le
    constructor <;> linarith
  · have hrest : 1 / 2 ≤ x - ⌊x⌋ := not_lt.mp fun hlt => h (Or.inl hlt)
    push_cast
    constructor <;> linarith

/-! ### Doubles -/

/-- The distance of the doubles around a number: `53` significant bits, and from `2 ^ -1022` down a
fixed one. -/
def ulp (x : ℚ) : ℚ := 2 ^ (max (Int.log 2 |x|) (-1022) - 52)

theorem ulp_pos (x : ℚ) : 0 < ulp x := zpow_pos two_pos _

/-- The nearest double, as long as it is finite. -/
def nearestDouble (x : ℚ) : ℚ := nearest (x / ulp x) * ulp x

theorem nearestDouble_of_intCast {x : ℚ} {n : ℤ} (h : x = n * ulp x) : nearestDouble x = x := by
  have hdiv : x / ulp x = n := by
    rw [div_eq_iff (ulp_pos x).ne']
    exact h
  rw [nearestDouble, hdiv, nearest_intCast]
  exact h.symm

theorem nearestDouble_zero : nearestDouble 0 = 0 :=
  nearestDouble_of_intCast (n := 0) (by simp)

theorem nearestDouble_nonneg {x : ℚ} (h : 0 ≤ x) : 0 ≤ nearestDouble x := by
  have hnearest : nearest ((0 : ℤ) : ℚ) ≤ nearest (x / ulp x) :=
    nearest_mono (by rw [Int.cast_zero]; exact div_nonneg h (ulp_pos x).le)
  rw [nearest_intCast] at hnearest
  exact mul_nonneg (by exact_mod_cast hnearest) (ulp_pos x).le

/-- A number below a power of two is not rounded past it. -/
theorem nearestDouble_le {x : ℚ} {e : ℤ} (he : max (Int.log 2 |x|) (-1022) = e)
    (h : x ≤ 2 ^ (e + 1)) : nearestDouble x ≤ 2 ^ (e + 1) := by
  have hulp : ulp x = 2 ^ (e - 52) := by rw [ulp, he]
  have hpow : (2 : ℚ) ^ (e + 1) = ((2 ^ 53 : ℤ) : ℚ) * 2 ^ (e - 52) := by
    rw [show e + 1 = 53 + (e - 52) by ring, zpow_add₀ two_ne_zero]
    norm_num
  have hnearest : nearest (x / ulp x) ≤ nearest ((2 ^ 53 : ℤ) : ℚ) := by
    refine nearest_mono ?_
    rw [div_le_iff₀ (ulp_pos x), hulp, ← hpow]
    exact h
  rw [nearest_intCast] at hnearest
  rw [nearestDouble, hpow, hulp]
  rw [hulp] at hnearest
  exact mul_le_mul_of_nonneg_right (by exact_mod_cast hnearest) (zpow_pos two_pos _).le

/-- A number above a power of two is not rounded past it. -/
theorem le_nearestDouble {x : ℚ} {e : ℤ} (he : max (Int.log 2 |x|) (-1022) = e)
    (h : 2 ^ e ≤ x) : 2 ^ e ≤ nearestDouble x := by
  have hulp : ulp x = 2 ^ (e - 52) := by rw [ulp, he]
  have hpow : (2 : ℚ) ^ e = ((2 ^ 52 : ℤ) : ℚ) * 2 ^ (e - 52) := by
    nth_rewrite 1 [show e = 52 + (e - 52) by ring]
    rw [zpow_add₀ two_ne_zero]
    norm_num
  have hnearest : nearest ((2 ^ 52 : ℤ) : ℚ) ≤ nearest (x / ulp x) := by
    refine nearest_mono ?_
    rw [le_div_iff₀ (ulp_pos x), hulp, ← hpow]
    exact h
  rw [nearest_intCast] at hnearest
  rw [nearestDouble, hpow, hulp]
  rw [hulp] at hnearest
  exact mul_le_mul_of_nonneg_right (by exact_mod_cast hnearest) (zpow_pos two_pos _).le

theorem nearestDouble_mono {x y : ℚ} (hx : 0 ≤ x) (hxy : x ≤ y) :
    nearestDouble x ≤ nearestDouble y := by
  rcases hx.eq_or_lt with rfl | hpos
  · rw [nearestDouble_zero]
    exact nearestDouble_nonneg hxy
  have hypos : 0 < y := hpos.trans_le hxy
  set a := max (Int.log 2 |x|) (-1022) with ha
  set b := max (Int.log 2 |y|) (-1022) with hb
  have hlog : Int.log 2 |x| ≤ Int.log 2 |y| := by
    rw [abs_of_pos hpos, abs_of_pos hypos]
    exact Int.log_mono_right hpos hxy
  rcases (max_le_max_right (-1022) hlog).eq_or_lt with hab | hab
  · -- the doubles around both are equally far apart
    have hulp : ulp x = ulp y := by rw [ulp, ulp, hab]
    rw [nearestDouble, nearestDouble, hulp]
    refine mul_le_mul_of_nonneg_right ?_ (ulp_pos y).le
    exact_mod_cast nearest_mono (div_le_div_of_nonneg_right hxy (ulp_pos y).le)
  · -- a power of two stands between them
    have hxlt : x ≤ 2 ^ (a + 1) := by
      have hself := Int.lt_zpow_succ_log_self (b := 2) one_lt_two |x|
      rw [abs_of_pos hpos] at hself
      refine hself.le.trans ?_
      have hle : Int.log 2 |x| ≤ a := le_max_left _ _
      rw [abs_of_pos hpos] at hle
      rw [Nat.cast_ofNat]
      exact zpow_le_zpow_right₀ one_le_two (by omega)
    have hyge : (2 : ℚ) ^ b ≤ y := by
      have hself := Int.zpow_log_le_self (b := 2) one_lt_two hypos
      have hlogy : Int.log 2 |y| = b := by
        rw [hb, max_eq_left]
        omega
      rw [abs_of_pos hypos] at hlogy
      rw [hlogy] at hself
      exact_mod_cast hself
    calc nearestDouble x ≤ 2 ^ (a + 1) := nearestDouble_le ha.symm hxlt
      _ ≤ 2 ^ b := zpow_le_zpow_right₀ one_le_two hab
      _ ≤ nearestDouble y := le_nearestDouble hb.symm hyge

/-- Whole numbers up to `2 ^ 53` are doubles. -/
theorem nearestDouble_natCast {n : ℕ} (h : n ≤ 2 ^ 53) : nearestDouble n = n := by
  rcases Nat.eq_zero_or_pos n with rfl | hpos
  · exact nearestDouble_zero
  have hlog : max (Int.log 2 |(n : ℚ)|) (-1022) = Nat.log 2 n := by
    rw [abs_of_nonneg (Nat.cast_nonneg n), Int.log_natCast]
    omega
  rcases h.lt_or_eq with hlt | rfl
  · have hle : Nat.log 2 n ≤ 52 := Nat.lt_succ_iff.mp (Nat.log_lt_of_lt_pow hpos.ne' hlt)
    refine nearestDouble_of_intCast (n := n * 2 ^ (52 - Nat.log 2 n)) ?_
    rw [ulp, hlog]
    push_cast
    rw [mul_assoc, ← zpow_natCast, ← zpow_add₀ two_ne_zero, Nat.cast_sub hle]
    simp
  · refine nearestDouble_of_intCast (n := 2 ^ 52) ?_
    rw [ulp, hlog, Nat.log_pow one_lt_two]
    norm_num

/-- The nearest double is at most half the distance of the doubles away. -/
theorem abs_nearestDouble_sub_le (x : ℚ) : |nearestDouble x - x| ≤ ulp x / 2 := by
  have hx : x = x / ulp x * ulp x := (div_mul_cancel₀ x (ulp_pos x).ne').symm
  have hdist : nearestDouble x - x = (nearest (x / ulp x) - x / ulp x) * ulp x := by
    rw [sub_mul, ← hx, nearestDouble]
  rw [hdist, abs_mul, abs_of_pos (ulp_pos x)]
  have hnearest := mul_le_mul_of_nonneg_right (abs_nearest_sub_le (x / ulp x)) (ulp_pos x).le
  linarith

/-- The distance of the doubles, in proportion. -/
theorem ulp_le {x : ℚ} (h : 0 ≤ x) : ulp x ≤ 2 ^ (-52 : ℤ) * max x 1 := by
  rw [ulp, sub_eq_add_neg, add_comm, zpow_add₀ two_ne_zero]
  refine mul_le_mul_of_nonneg_left ?_ (zpow_pos two_pos _).le
  rcases le_total (Int.log 2 |x|) (-1022) with hsmall | hlarge
  · rw [max_eq_right hsmall]
    exact (zpow_le_one_of_nonpos₀ one_le_two (by norm_num)).trans (le_max_right _ _)
  · rw [max_eq_left hlarge, abs_of_nonneg h]
    rcases h.eq_or_lt with rfl | hpos
    · simp
    · exact (Int.zpow_log_le_self (b := 2) one_lt_two hpos).trans (le_max_left _ _)

/-- The rounding of IEEE doubles.  Numbers of `2 ^ 1024` and above, which overflow, are not
considered. -/
def binary64 : Rounding where
  round := nearestDouble
  mono := nearestDouble_mono
  zero := nearestDouble_zero
  one := by exact_mod_cast nearestDouble_natCast (n := 1) (by norm_num)

/-- **The doubles count to `2 ^ 53`** and stay there. -/
theorem countsTo_binary64 : binary64.CountsTo (2 ^ 53) where
  round_natCast _ h := nearestDouble_natCast h
  round_succ := by decide +kernel

/-- A rounding to the nearest double is off by at most `2 ^ -53`. -/
theorem within_binary64 : binary64.Within (2 ^ (-53 : ℤ)) := by
  intro x hx
  have hdouble : (2 : ℚ) ^ (-52 : ℤ) = 2 ^ (-53 : ℤ) * 2 := by norm_num
  calc |binary64.round x - x| ≤ ulp x / 2 := abs_nearestDouble_sub_le x
    _ ≤ 2 ^ (-52 : ℤ) * max x 1 / 2 := div_le_div_of_nonneg_right (ulp_le hx) two_pos.le
    _ = 2 ^ (-53 : ℤ) * max x 1 := by
        rw [hdouble]
        ring

example : binary64.round (7 / 10) + binary64.round (1 / 10) ≠
    binary64.round (binary64.round (7 / 10) + binary64.round (1 / 10)) := by decide +kernel

end Rounding

end Mirrorlane
