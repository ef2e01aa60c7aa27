import Mathlib.Algebra.Order.Field.Basic
import Mathlib.Algebra.Order.Field.Rat
import Mirrorlane.Foundation.Ranking
import Mirrorlane.Foundation.Shares
import Mirrorlane.Provider.Skill

/-!
# Normalized rankings

The skill builder and the hinter both end in `ranked`: weights divided by the largest one and sorted
best first.  Each score is the author's rounded share of the largest weight
(`score_of_mem_ranked`), and the result is the ranking of the authors by these
(`isRanking_rounded`).  In exact arithmetic that is the ranking by weight (`isRanking_ranked`), and
the first candidate scores `1` as soon as some weight is positive (`head?_ranked`).
-/

namespace Mirrorlane

/-! ### The largest weight -/

theorem largest_concat (weights : List ℚ) (weight : ℚ) :
    largest (weights ++ [weight]) = max (largest weights) weight := by
  unfold largest
  rw [List.foldl_append]
  rfl

theorem largest_nonneg (weights : List ℚ) : 0 ≤ largest weights := by
  induction weights using List.reverseRecOn with
  | nil => exact le_refl 0
  | append_singleton weights weight ih =>
    rw [largest_concat]
    exact ih.trans (le_max_left _ _)

theorem le_largest {weights : List ℚ} {weight : ℚ} (h : weight ∈ weights) :
    weight ≤ largest weights := by
  induction weights using List.reverseRecOn with
  | nil => cases h
  | append_singleton weights last ih =>
    rw [largest_concat]
    rcases List.mem_append.mp h with h | h
    · exact (ih h).trans (le_max_left _ _)
    · rw [List.mem_singleton.mp h]
      exact le_max_right _ _

theorem largest_eq_zero_or_mem (weights : List ℚ) :
    largest weights = 0 ∨ largest weights ∈ weights := by
  induction weights using List.reverseRecOn with
  | nil => exact Or.inl rfl
  | append_singleton weights weight ih =>
    rw [largest_concat]
    rcases max_choice (largest weights) weight with hmax | hmax
    · rw [hmax]
      exact ih.imp_right (List.mem_append_left [weight])
    · rw [hmax]
      exact Or.inr (List.mem_append_right _ (List.mem_singleton_self weight))

/-- The largest of the values of a function that is `0` off some keys. -/
theorem isGreatest_largest {α : Type} [Nonempty α] {keys : List α} {weight : α → ℚ}
    (hnonneg : ∀ k, 0 ≤ weight k) (hzero : ∀ k, k ∉ keys → weight k = 0) :
    IsGreatest (Set.range weight) (largest (keys.map weight)) := by
  constructor
  · rcases largest_eq_zero_or_mem (keys.map weight) with hmax | hmax
    · -- all weights are `0`, so any key has the largest
      obtain ⟨k⟩ := ‹Nonempty α›
      rw [hmax]
      by_cases hk : k ∈ keys
      · have hle := le_largest (List.mem_map_of_mem (f := weight) hk)
        rw [hmax] at hle
        exact ⟨k, le_antisymm hle (hnonneg k)⟩
      · exact ⟨k, hzero k hk⟩
    · obtain ⟨k, -, hk⟩ := List.mem_map.mp hmax
      exact ⟨k, hk⟩
  · rintro _ ⟨k, rfl⟩
    by_cases hk : k ∈ keys
    · exact le_largest (List.mem_map_of_mem hk)
    · rw [hzero k hk]
      exact largest_nonneg _

/-! ### Scores -/

/-- A weight that is not larger than the largest is not clamped. -/
theorem get_normalize {r : Rounding} {max weight : ℚ} (hnonneg : 0 ≤ weight) (hle : weight ≤ max) :
    (normalize r max weight).get = r.round (weight / max) := by
  unfold normalize
  split_ifs with hmax
  · have hquotient : 0 ≤ weight / max := div_nonneg hnonneg hmax.le
    exact SkillScore.get_new (r.round_nonneg hquotient)
      (r.round_le_one hquotient ((div_le_one hmax).mpr hle))
  · have hzero : max = 0 := le_antisymm (not_lt.mp hmax) (hnonneg.trans hle)
    rw [hzero, div_zero, r.zero]
    exact SkillScore.get_new (le_refl 0) zero_le_one

/-- Shares of the largest weight are in the order of the weights. -/
theorem div_lt_div_iff_of_le {a b max : ℚ} (ha : 0 ≤ a) (hb : 0 ≤ b) (hamax : a ≤ max)
    (hbmax : b ≤ max) : a / max < b / max ↔ a < b := by
  rcases (ha.trans hamax).lt_or_eq with hmax | hmax
  · exact div_lt_div_iff_of_pos_right hmax
  · -- both weights are `0`
    have hazero : a = 0 := le_antisymm (hmax ▸ hamax) ha
    have hbzero : b = 0 := le_antisymm (hmax ▸ hbmax) hb
    rw [hazero, hbzero]
    simp

/-! ### The order of candidates -/

instance : Std.Total rankedBefore where
  total _ _ := bestFirst_total _ _ _ _

instance : IsTrans ExpertCandidate rankedBefore where
  trans _ _ _ hab hbc := bestFirst_trans hab hbc

/-! ### Ranked contributors -/

namespace MessageSkillBuilder

variable {r : Rounding}

/-- A contributor as a candidate, scored against the largest weight. -/
def Contributor.candidate (r : Rounding) (max : ℚ) (c : Contributor) : ExpertCandidate :=
  ⟨⟨c.author⟩, c.displayName, normalize r max c.weight⟩

/-- The largest weight of some contributors. -/
def largestWeight (contributors : List Contributor) : ℚ :=
  largest (contributors.map Contributor.weight)

/-- Contributors, normalized and ranked. -/
def ranked (r : Rounding) (contributors : List Contributor) : List ExpertCandidate :=
  rank (contributors.map (Contributor.candidate r (largestWeight contributors)))

theorem candidates_ownership (topic : String) (contributors : List Contributor) :
    (ownership r topic contributors).candidates = ranked r contributors := rfl

theorem mem_ranked {contributors : List Contributor} {candidate : ExpertCandidate} :
    candidate ∈ ranked r contributors ↔
      ∃ c ∈ contributors, c.candidate r (largestWeight contributors) = candidate := by
  unfold ranked rank
  rw [List.mem_insertionSort, List.mem_map]

theorem map_author_ranked (contributors : List Contributor) :
    ((ranked r contributors).map fun candidate => candidate.author.val).Perm
      (contributors.map Contributor.author) := by
  have hperm := (List.perm_insertionSort rankedBefore
    (contributors.map (Contributor.candidate r (largestWeight contributors)))).map
      fun candidate => candidate.author.val
  rw [List.map_map] at hperm
  exact hperm

/-- Scores do not increase along the list, and among equal scores the author ids do. -/
theorem pairwise_ranked {contributors : List Contributor}
    (hnodup : (contributors.map Contributor.author).Nodup) :
    (ranked r contributors).Pairwise fun a b =>
      b.score.get < a.score.get ∨ b.score.get = a.score.get ∧ a.author.val < b.author.val := by
  have hsorted : (ranked r contributors).Pairwise rankedBefore := List.pairwise_insertionSort _ _
  have hdistinct : (ranked r contributors).Pairwise fun a b => a.author.val ≠ b.author.val :=
    List.pairwise_map.mp ((map_author_ranked contributors).nodup_iff.mpr hnodup)
  refine (hsorted.and hdistinct).imp fun {a b} h => ?_
  obtain ⟨hlt | ⟨heq, hle⟩, hne⟩ := h
  · exact Or.inl hlt
  · exact Or.inr ⟨heq, lt_of_le_of_ne hle hne⟩

/-- The largest weight of some contributors is the largest value of a function that gives their
weights and is `0` off them. -/
theorem isGreatest_largestWeight {contributors : List Contributor} {weight : AuthorId → ℚ}
    (hweight : ∀ c ∈ contributors, c.weight = weight ⟨c.author⟩)
    (hnonneg : ∀ author, 0 ≤ weight author)
    (hzero : ∀ author, author.val ∉ contributors.map Contributor.author → weight author = 0) :
    IsGreatest (Set.range weight) (largestWeight contributors) := by
  have hlargest : largestWeight contributors =
      largest ((contributors.map Contributor.author).map fun author => weight ⟨author⟩) := by
    unfold largestWeight
    rw [List.map_map]
    exact congrArg largest (List.map_congr_left hweight)
  have hsurjective : Function.Surjective AuthorId.mk := fun author => ⟨author.val, rfl⟩
  rw [hlargest, ← hsurjective.range_comp]
  exact isGreatest_largest (fun author => hnonneg ⟨author⟩) fun author => hzero ⟨author⟩

section Weights

variable {contributors : List Contributor} {weight : String → ℚ}
  (hweight : ∀ c ∈ contributors, c.weight = weight c.author)

include hweight

theorem weight_le_largestWeight {candidate : ExpertCandidate}
    (h : candidate ∈ ranked r contributors) :
    weight candidate.author.val ≤ largestWeight contributors := by
  obtain ⟨c, hc, rfl⟩ := mem_ranked.mp h
  show weight c.author ≤ _
  rw [← hweight c hc]
  exact le_largest (List.mem_map_of_mem hc)

variable (hnonneg : ∀ k, 0 ≤ weight k)

include hnonneg

/-- **Every score is the author's rounded share of the largest weight.** -/
theorem score_of_mem_ranked {candidate : ExpertCandidate} (h : candidate ∈ ranked r contributors) :
    candidate.score.get =
      r.round (weight candidate.author.val / largestWeight contributors) := by
  obtain ⟨c, hc, rfl⟩ := mem_ranked.mp h
  have hc0 : 0 ≤ c.weight := by
    rw [hweight c hc]
    exact hnonneg c.author
  have hle : c.weight ≤ largestWeight contributors := le_largest (List.mem_map_of_mem hc)
  show (normalize r (largestWeight contributors) c.weight).get = _
  rw [get_normalize hc0 hle, hweight c hc]
  rfl

/-- The exact score of an author, when no weight is positive too. -/
theorem score_eq_share {candidate : ExpertCandidate}
    (h : candidate ∈ ranked .exact contributors) :
    candidate.score.get = share (largestWeight contributors) weight candidate.author.val := by
  unfold share
  rw [score_of_mem_ranked hweight hnonneg h, Rounding.exact_round]
  split_ifs with hzero
  · rw [hzero, div_zero]
  · rfl

variable (hnodup : (contributors.map Contributor.author).Nodup)

include hnodup

/-- **The candidates are ranked by their rounded shares.** -/
theorem isRanking_rounded :
    IsRanking (fun author => r.round (weight author / largestWeight contributors))
      (· ∈ contributors.map Contributor.author)
      ((ranked r contributors).map fun candidate => candidate.author.val) where
  mem k := (map_author_ranked contributors).mem_iff
  sorted := by
    rw [List.pairwise_map]
    refine (pairwise_ranked hnodup).imp_of_mem fun {a b} ha hb hab => ?_
    rw [score_of_mem_ranked hweight hnonneg ha, score_of_mem_ranked hweight hnonneg hb] at hab
    exact hab

/-- **Exact shares rank by weight.** -/
theorem isRanking_ranked : IsRanking weight (· ∈ contributors.map Contributor.author)
    ((ranked .exact contributors).map fun candidate => candidate.author.val) := by
  have hle : ∀ {author}, author ∈ contributors.map Contributor.author →
      weight author ≤ largestWeight contributors := fun hauthor => by
    obtain ⟨c, hc, rfl⟩ := List.mem_map.mp hauthor
    rw [← hweight c hc]
    exact le_largest (List.mem_map_of_mem hc)
  refine (isRanking_rounded (r := .exact) hweight hnonneg hnodup).congr fun a b ha hb => ?_
  exact div_lt_div_iff_of_le (hnonneg a) (hnonneg b) (hle ha) (hle hb)

/-- **The first candidate scores `1` when some weight is positive.** -/
theorem head?_ranked (hpos : ∃ c ∈ contributors, 0 < c.weight) :
    ∃ best, (ranked .exact contributors).head? = some best ∧ best.score.get = 1 := by
  obtain ⟨c, hc, hc0⟩ := hpos
  have hmem : c.candidate .exact (largestWeight contributors) ∈ ranked .exact contributors :=
    mem_ranked.mpr ⟨c, hc, rfl⟩
  cases hranked : ranked .exact contributors with
  | nil =>
    rw [hranked] at hmem
    cases hmem
  | cons best rest =>
    refine ⟨best, rfl, ?_⟩
    have hbest : best ∈ ranked .exact contributors := hranked ▸ List.mem_cons_self
    have hmax : 0 < largestWeight contributors :=
      hc0.trans_le (le_largest (List.mem_map_of_mem hc))
    -- the author of the largest weight does not outweigh the first
    have hranking := isRanking_ranked hweight hnonneg hnodup
    have hfirst : ((ranked .exact contributors).map fun candidate => candidate.author.val).head? =
        some best.author.val := by rw [hranked]; rfl
    have hge : largestWeight contributors ≤ weight best.author.val := by
      rcases largest_eq_zero_or_mem (contributors.map Contributor.weight) with hzero | hattained
      · exact absurd hzero hmax.ne'
      · obtain ⟨top, htop, heq⟩ := List.mem_map.mp hattained
        have hle := hranking.le_of_head? hfirst (List.mem_map_of_mem (f := Contributor.author) htop)
        rw [← hweight top htop, heq] at hle
        exact hle
    rw [score_of_mem_ranked hweight hnonneg hbest, Rounding.exact_round,
      le_antisymm (weight_le_largestWeight hweight hbest) hge]
    exact div_self hmax.ne'

end Weights

end MessageSkillBuilder

end Mirrorlane
