import Mirrorlane.Provider.Equiv.HintRanking
import Mirrorlane.Provider.Equiv.SkillIndex

/-!
# The hinter agrees with the skill builder

For a projection with one topic the hinter sums one score for each candidate.  The scores of an
ownership are normalized already: the largest is `1`, or all are `0` (`normalized_of_mem`).  So
normalizing and ranking them again changes nothing (`reviewers_eq_candidates`).
-/

namespace Mirrorlane

open MessageSkillBuilder SkillRoutingHinter

/-- **The scores of an ownership are normalized.** -/
theorem normalized_of_mem {contributions : List SkillContribution} {o : TopicOwnership}
    (h : o ∈ (build .exact contributions).ownerships) :
    (∃ c ∈ o.candidates, c.score.get = 1) ∨ ∀ c ∈ o.candidates, c.score.get = 0 := by
  have hranks := ranksTopic_of_mem h
  by_cases hpos : ∃ author, 0 < weight contributions author o.topic
  · obtain ⟨first, hfirst, hone⟩ := hranks.best hpos
    exact Or.inl ⟨first, List.mem_of_mem_head? hfirst, hone⟩
  · right
    intro c hc
    obtain ⟨max, -, hscores⟩ := hranks.scores
    have hzero : weight contributions c.author o.topic = 0 :=
      le_antisymm (not_lt.mp fun hlt => hpos ⟨_, hlt⟩) (weight_nonneg _ _ _)
    rw [hscores c hc, hzero, zero_div, ite_self]

section OneTopic

variable {contributions : List SkillContribution} {o : TopicOwnership}
  (ho : o ∈ (build .exact contributions).ownerships) {projection : Projection}
  (htopics : projection.topics = [o.topic]) {given : List TopicOwnership}
  (hgiven : ∀ o' ∈ given, o' ∈ (build .exact contributions).ownerships) (honce : given.count o = 1)

include ho htopics hgiven honce

/-- The candidates that count are those of the topic's ownership. -/
theorem candidatesFor_eq_candidates : candidatesFor projection given = o.candidates := by
  have hfilter : given.filter (fun o' => o'.topic ∈ projection.topics) =
      given.filter fun o' => o' = o := by
    refine List.filter_congr fun o' ho' => ?_
    rw [htopics, decide_eq_decide, List.mem_singleton]
    constructor
    · exact fun hsame => List.inj_on_of_nodup_map (nodup_topic_ownerships contributions)
        (hgiven o' ho') ho hsame
    · exact congrArg TopicOwnership.topic
  have hone : given.filter (fun o' => o' = o) = [o] := by
    rw [List.filter_eq, honce, List.replicate_one]
  unfold candidatesFor
  rw [hfilter, hone, List.flatMap_singleton]

/-- Each candidate counts with their own score and name. -/
theorem scoreSum_eq_score {c : ExpertCandidate} (hc : c ∈ o.candidates) :
    scoreSum projection given c.author = c.score.get ∧
      lastCandidateName projection given c.author = some c.displayName := by
  have hone : o.candidates.filter (fun c' => c'.author = c.author) = [c] :=
    filter_key_eq_singleton (ranksTopic_of_mem ho).once hc
  unfold scoreSum lastCandidateName
  rw [candidatesFor_eq_candidates ho htopics hgiven honce, hone]
  exact ⟨by simp, rfl⟩

/-- A normalized score is normalized to itself. -/
theorem score_div_max {max : ℚ} (hmax : IsGreatest (Set.range (scoreSum projection given)) max)
    {c : ExpertCandidate} (hc : c ∈ o.candidates) :
    (if max = 0 then 0 else c.score.get / max) = c.score.get := by
  have hsum := fun {c} hc => (scoreSum_eq_score ho htopics hgiven honce (c := c) hc).1
  -- the largest sum is the score of a candidate, or there is no positive one
  rcases normalized_of_mem ho with ⟨top, htop, hone⟩ | hzero
  · have hle : max ≤ 1 := by
      obtain ⟨author, rfl⟩ := hmax.1
      by_cases hcandidate : ∃ c ∈ o.candidates, c.author = author
      · obtain ⟨c, hc, rfl⟩ := hcandidate
        rw [hsum hc]
        exact c.score.get_le_one
      · -- who is no candidate has no score
        have hnone : o.candidates.filter (fun c => c.author = author) = [] :=
          List.filter_eq_nil_iff.mpr fun c hc hauthor =>
            hcandidate ⟨c, hc, of_decide_eq_true hauthor⟩
        unfold scoreSum
        rw [candidatesFor_eq_candidates ho htopics hgiven honce, hnone]
        exact zero_le_one
    have hge : 1 ≤ max := by
      rw [← hone, ← hsum htop]
      exact hmax.2 ⟨top.author, rfl⟩
    have hmaxOne : max = 1 := le_antisymm hle hge
    rw [hmaxOne, if_neg one_ne_zero, div_one]
  · rw [hzero c hc, zero_div, ite_self]

/-- **The hinter and the skill builder agree.** -/
theorem reviewers_eq_candidates :
    (SkillRoutingHinter.hint .exact projection given).reviewers = o.candidates := by
  have hranks := ranksTopic_of_mem ho
  have hhint := hint_ranksReviewers projection given
  have hscores := fun {c} hc => scoreSum_eq_score ho htopics hgiven honce (c := c) hc
  obtain ⟨max, hmax, hshares⟩ := hhint.scores
  have hmem : o ∈ given := List.count_pos_iff.mp (by omega)
  -- a reviewer is the candidate with their id
  have hsame : ∀ r ∈ (SkillRoutingHinter.hint .exact projection given).reviewers,
      ∀ c ∈ o.candidates, r.author = c.author → r = c := by
    intro r hr c hc hauthor
    have hscore : r.score.get = c.score.get := by
      rw [hshares r hr, hauthor, (hscores hc).1]
      exact score_div_max ho htopics hgiven honce hmax hc
    have hname : some r.displayName = some c.displayName := by
      rw [← hhint.names r hr, hauthor, (hscores hc).2]
    cases r
    cases c
    rw [ExpertCandidate.mk.injEq]
    exact ⟨hauthor, Option.some.inj hname, SkillScore.get_inj hscore⟩
  have hauthors : ∀ author,
      author ∈ (SkillRoutingHinter.hint .exact projection given).reviewers.map
          ExpertCandidate.author ↔
        author ∈ o.candidates.map ExpertCandidate.author := by
    intro author
    rw [hhint.authors]
    constructor
    · rintro ⟨o', ho', htopic, hauthor⟩
      rw [htopics, List.mem_singleton] at htopic
      have heq : o' = o := List.inj_on_of_nodup_map (nodup_topic_ownerships contributions)
        (hgiven o' ho') ho htopic
      rwa [heq] at hauthor
    · exact fun hauthor => ⟨o, hmem, by rw [htopics]; exact List.mem_singleton_self _, hauthor⟩
  have hsorted : (SkillRoutingHinter.hint .exact projection given).reviewers.Pairwise fun a b =>
      b.score.get < a.score.get ∨ b.score.get = a.score.get ∧ a.author.val < b.author.val := by
    rw [reviewers_hint]
    exact pairwise_ranked (nodup_contributorsOf _)
  refine eq_of_pairwise_of_mem bestFirst_asymm hsorted hranks.sorted fun x => ⟨fun hx => ?_,
    fun hx => ?_⟩
  · obtain ⟨c, hc, hauthor⟩ := List.mem_map.mp ((hauthors x.author).mp (List.mem_map_of_mem hx))
    rw [hsame x hx c hc hauthor.symm]
    exact hc
  · obtain ⟨r, hr, hauthor⟩ := List.mem_map.mp ((hauthors x.author).mpr (List.mem_map_of_mem hx))
    rw [← hsame r hr x hx hauthor]
    exact hr

end OneTopic

/-- Alice and Bob contribute to two topics. -/
def aliceAndBobContributions : List SkillContribution :=
  [⟨⟨"alice"⟩, "Alice", [⟨"auth"⟩, ⟨"rust"⟩], .new (1 / 2)⟩, ⟨⟨"bob"⟩, "Bob", [⟨"auth"⟩], .new 1⟩]

/-- A message on one of them, with the whole index given. -/
theorem reviewers_eq_candidates_auth :
    ∃ o ∈ (build .exact aliceAndBobContributions).ownerships, o.topic = ⟨"auth"⟩ ∧
      (SkillRoutingHinter.hint .exact ⟨⟨"m-1"⟩, .issue, [⟨"auth"⟩], [], .new 1⟩
        (build .exact aliceAndBobContributions).ownerships).reviewers = o.candidates := by
  have htopic : (⟨"auth"⟩ : Topic) ∈
      (build .exact aliceAndBobContributions).ownerships.map TopicOwnership.topic :=
    mem_topic_ownerships.mpr ⟨_, List.mem_cons_self, List.mem_cons_self⟩
  obtain ⟨o, ho, hauth⟩ := List.mem_map.mp htopic
  have honce : (build .exact aliceAndBobContributions).ownerships.count o = 1 :=
    List.count_eq_one_of_mem ((nodup_topic_ownerships _).of_map _) ho
  refine ⟨o, ho, hauth, ?_⟩
  exact reviewers_eq_candidates ho (by rw [hauth]) (fun _ h => h) honce

end Mirrorlane
