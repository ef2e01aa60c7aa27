import Mathlib.Algebra.Order.BigOperators.Group.List
import Mirrorlane.Provider.Equiv.Hint
import Mirrorlane.Provider.Equiv.Ranking

/-!
# The reviewers are the normalized ranking of the summed scores

`scoreSum projection ownerships author` adds the author's scores over the ownerships of the
projection's topics.  `RanksReviewers` says that a hint is the normalized ranking of these sums.
In exact arithmetic the hinter computes it, and what it is given about other topics has no influence
(`hint_computes`).
-/

namespace Mirrorlane

namespace SkillRoutingHinter

open MessageSkillBuilder

/-- The scores of an author on the topics of a projection. -/
def scoreSum (projection : Projection) (ownerships : List TopicOwnership) (author : AuthorId) :
    ℚ :=
  (((candidatesFor projection ownerships).filter fun c => c.author = author).map fun c =>
    c.score.get).sum

/-- The last-seen display name of an author among the candidates on the topics. -/
def lastCandidateName (projection : Projection) (ownerships : List TopicOwnership)
    (author : AuthorId) : Option String :=
  (((candidatesFor projection ownerships).filter fun c => c.author = author).getLast?).map
    ExpertCandidate.displayName

theorem scoreSum_nonneg (projection : Projection) (ownerships : List TopicOwnership)
    (author : AuthorId) : 0 ≤ scoreSum projection ownerships author := by
  unfold scoreSum
  refine List.sum_nonneg fun x hx => ?_
  obtain ⟨c, -, rfl⟩ := List.mem_map.mp hx
  exact c.score.get_nonneg

/-! ### The totals -/

/-- The totals of a projection. -/
def totalsOf (r : Rounding) (projection : Projection) (ownerships : List TopicOwnership) :
    Totals :=
  ownerships.foldl (addOwnership r projection) .empty

theorem get_totalsOf (projection : Projection) (ownerships : List TopicOwnership)
    (author : AuthorId) :
    (totalsOf .exact projection ownerships).get author.val =
      (lastCandidateName projection ownerships author).map fun name =>
        (name, scoreSum projection ownerships author) := by
  unfold totalsOf lastCandidateName scoreSum
  rw [foldl_addOwnership]
  have hfold : ((candidatesFor projection ownerships).foldl (addCandidate .exact) .empty).get
      author.val =
      ((candidatesFor projection ownerships).filter fun c => c.author.val = author.val).foldl
        (fun entry c => some (c.displayName, (entry.map Prod.snd).getD 0 + c.score.get)) none :=
    SortedAssoc.get_foldl_alter _ _ _ _ _
  simp only [AuthorId.val_inj] at hfold
  rw [hfold]
  -- the fold keeps the last display name and the sum so far
  induction (candidatesFor projection ownerships).filter (fun c => c.author = author)
    using List.reverseRecOn with
  | nil => rfl
  | append_singleton cs c ih =>
    rw [List.foldl_append, ih, List.getLast?_concat, List.map_append, List.sum_append]
    cases hlast : cs.getLast? with
    | none =>
      rw [List.getLast?_eq_none_iff.mp hlast]
      simp
    | some last => simp

/-- The totals as contributors. -/
def contributorsOf (totals : Totals) : List Contributor :=
  totals.entries.map fun entry => ⟨entry.1, entry.2.1, entry.2.2⟩

/-- **The hinter ranks as the skill builder does.** -/
theorem reviewers_hint (r : Rounding) (projection : Projection) (ownerships : List TopicOwnership) :
    (hint r projection ownerships).reviewers =
      ranked r (contributorsOf (totalsOf r projection ownerships)) := by
  have hlargest : largestWeight (contributorsOf (totalsOf r projection ownerships)) =
      largest ((totalsOf r projection ownerships).entries.map fun entry => entry.2.2) := by
    unfold largestWeight contributorsOf
    rw [List.map_map]
    rfl
  unfold ranked
  rw [hlargest, contributorsOf, List.map_map]
  rfl

theorem nodup_contributorsOf (totals : Totals) :
    ((contributorsOf totals).map Contributor.author).Nodup := by
  have hkeys : (contributorsOf totals).map Contributor.author = totals.keys := by
    unfold contributorsOf SortedAssoc.keys
    rw [List.map_map]
    rfl
  rw [hkeys]
  exact totals.nodup_keys

theorem mem_contributorsOf {projection : Projection} {ownerships : List TopicOwnership}
    {c : Contributor} :
    c ∈ contributorsOf (totalsOf .exact projection ownerships) ↔
      lastCandidateName projection ownerships ⟨c.author⟩ = some c.displayName ∧
        c.weight = scoreSum projection ownerships ⟨c.author⟩ := by
  have hentry : c ∈ contributorsOf (totalsOf .exact projection ownerships) ↔
      (totalsOf .exact projection ownerships).get c.author = some (c.displayName, c.weight) := by
    have hmem := SortedAssoc.mem_entries (m := totalsOf .exact projection ownerships)
      (p := (c.author, c.displayName, c.weight))
    rw [← hmem]
    unfold contributorsOf
    rw [List.mem_map]
    constructor
    · rintro ⟨entry, hentry, rfl⟩
      exact hentry
    · exact fun hentry => ⟨_, hentry, rfl⟩
  have hget := get_totalsOf projection ownerships ⟨c.author⟩
  rw [hentry, hget, Option.map_eq_some_iff]
  constructor
  · rintro ⟨name, hname, heq⟩
    obtain ⟨rfl, hweight⟩ := Prod.mk.inj heq
    exact ⟨hname, hweight.symm⟩
  · rintro ⟨hname, hweight⟩
    exact ⟨_, hname, by rw [hweight]⟩

/-- Who has no name among the candidates has no score either. -/
theorem scoreSum_of_name_none {projection : Projection} {ownerships : List TopicOwnership}
    {author : AuthorId} (h : lastCandidateName projection ownerships author = none) :
    scoreSum projection ownerships author = 0 := by
  have hnil : (candidatesFor projection ownerships).filter (fun c => c.author = author) = [] := by
    unfold lastCandidateName at h
    rwa [Option.map_eq_none_iff, List.getLast?_eq_none_iff] at h
  unfold scoreSum
  rw [hnil]
  rfl

/-- Who is no candidate on the topics has no score on them. -/
theorem scoreSum_of_not_mem {projection : Projection} {ownerships : List TopicOwnership}
    {author : AuthorId} (h : author.val ∉
      (contributorsOf (totalsOf .exact projection ownerships)).map Contributor.author) :
    scoreSum projection ownerships author = 0 := by
  refine scoreSum_of_name_none ?_
  by_contra hsome
  obtain ⟨name, hname⟩ := Option.ne_none_iff_exists'.mp hsome
  refine h (List.mem_map.mpr ⟨⟨author.val, name, scoreSum projection ownerships author⟩, ?_, rfl⟩)
  exact mem_contributorsOf.mpr ⟨hname, rfl⟩

/-! ### The hint -/

/-- A hint is the normalized ranking of the summed scores. -/
structure RanksReviewers (projection : Projection) (ownerships : List TopicOwnership)
    (hint : RoutingHint) : Prop where
  message : hint.messageId = projection.messageId
  /-- The reviewers are the candidates on the topics of the projection. -/
  authors : ∀ author, author ∈ hint.reviewers.map ExpertCandidate.author ↔
    ∃ o ∈ ownerships, o.topic ∈ projection.topics ∧
      author ∈ o.candidates.map ExpertCandidate.author
  /-- Each is there once. -/
  once : (hint.reviewers.map ExpertCandidate.author).Nodup
  /-- They have their last-seen display names. -/
  names : ∀ reviewer ∈ hint.reviewers,
    lastCandidateName projection ownerships reviewer.author = some reviewer.displayName
  /-- Their scores are their shares of the largest sum. -/
  scores : ∃ max, IsGreatest (Set.range (scoreSum projection ownerships)) max ∧
    ∀ reviewer ∈ hint.reviewers, reviewer.score.get =
      if max = 0 then 0 else scoreSum projection ownerships reviewer.author / max
  unit : ∀ reviewer ∈ hint.reviewers, 0 ≤ reviewer.score.get ∧ reviewer.score.get ≤ 1
  /-- Largest sum first, ties by author id. -/
  sorted : hint.reviewers.Pairwise fun a b =>
    scoreSum projection ownerships b.author < scoreSum projection ownerships a.author ∨
      scoreSum projection ownerships b.author = scoreSum projection ownerships a.author ∧
        a.author.val < b.author.val
  none_iff : hint.humanHint = none ↔ hint.reviewers = []
  /-- The hint is the first reviewer, whom nobody outscores. -/
  first : ∀ best, hint.humanHint = some best → hint.reviewers.head? = some best ∧
    ∀ author, scoreSum projection ownerships author ≤ scoreSum projection ownerships best.author

theorem hint_ranksReviewers (projection : Projection) (ownerships : List TopicOwnership) :
    RanksReviewers projection ownerships (hint .exact projection ownerships) := by
  have hreviewers := reviewers_hint .exact projection ownerships
  have hweight : ∀ c ∈ contributorsOf (totalsOf .exact projection ownerships),
      c.weight = scoreSum projection ownerships ⟨c.author⟩ := fun c hc =>
    (mem_contributorsOf.mp hc).2
  have hnonneg := scoreSum_nonneg projection ownerships
  have hnodup := nodup_contributorsOf (totalsOf .exact projection ownerships)
  have hranking := isRanking_ranked hweight (fun author => hnonneg ⟨author⟩) hnodup
  rw [← hreviewers] at hranking
  have hhuman : (hint .exact projection ownerships).humanHint =
      (hint .exact projection ownerships).reviewers.head? := rfl
  refine ⟨rfl, fun author => mem_author_reviewers, ?_, ?_, ⟨_, isGreatest_largestWeight hweight
    hnonneg fun author => scoreSum_of_not_mem, ?_⟩, fun reviewer _ =>
      ⟨reviewer.score.get_nonneg, reviewer.score.get_le_one⟩, List.pairwise_map.mp hranking.sorted,
    ?_, ?_⟩
  · have hauthors :
        ((hint .exact projection ownerships).reviewers.map fun c => c.author.val).Nodup :=
      hranking.nodup
    rw [List.Nodup, List.pairwise_map] at hauthors ⊢
    exact hauthors.imp fun hne heq => hne (congrArg AuthorId.val heq)
  · intro reviewer hreviewer
    rw [hreviewers] at hreviewer
    obtain ⟨c, hc, rfl⟩ := mem_ranked.mp hreviewer
    exact (mem_contributorsOf.mp hc).1
  · intro reviewer hreviewer
    rw [hreviewers] at hreviewer
    exact score_eq_share hweight (fun author => hnonneg ⟨author⟩) hreviewer
  · rw [hhuman, List.head?_eq_none_iff]
  · intro best hbest
    rw [hhuman] at hbest
    refine ⟨hbest, fun author => ?_⟩
    have hhead : ((hint .exact projection ownerships).reviewers.map fun c => c.author.val).head? =
        some best.author.val := by
      rw [List.head?_map, hbest]
      rfl
    by_cases hmem : author.val ∈
        (contributorsOf (totalsOf .exact projection ownerships)).map Contributor.author
    · exact hranking.le_of_head? hhead hmem
    · rw [scoreSum_of_not_mem hmem]
      exact hnonneg best.author

/-- The hint reads the ownerships of the projection's topics only. -/
theorem hint_congr {r : Rounding} {projection : Projection}
    {ownerships ownerships' : List TopicOwnership}
    (h : ownerships.filter (fun o => o.topic ∈ projection.topics) =
      ownerships'.filter fun o => o.topic ∈ projection.topics) :
    hint r projection ownerships = hint r projection ownerships' := by
  unfold hint
  rw [foldl_addOwnership, foldl_addOwnership, candidatesFor, candidatesFor, h]

/-- **The hinter ranks exactly the owners of the projection's topics, and ownerships of other topics
have no influence.** -/
theorem hint_computes (projection : Projection) (ownerships : List TopicOwnership) :
    RanksReviewers projection ownerships (hint .exact projection ownerships) ∧
      ∀ ownerships' : List TopicOwnership,
        ownerships.filter (fun o => o.topic ∈ projection.topics) =
          ownerships'.filter (fun o => o.topic ∈ projection.topics) →
        hint .exact projection ownerships = hint .exact projection ownerships' :=
  ⟨hint_ranksReviewers projection ownerships, fun _ => hint_congr⟩

end SkillRoutingHinter

end Mirrorlane
