import Mirrorlane.Foundation.Fallible
import Mirrorlane.Foundation.Ranking
import Mirrorlane.Provider.Developer

/-!
# The developers of a session

The developers are the participants in their order when that is by author id (`developers_build`).
Each one's topics are the ownerships they are a candidate on (`mem_topics_snapshot`), in the order
of the weights, and no topic is there twice when no two ownerships are for one topic.
-/

namespace Mirrorlane

namespace SkillDeveloperSnapshotter

/-! ### The order of the topics -/

instance : Std.Total weightedBefore where
  total _ _ := bestFirst_total _ _ _ _

instance : IsTrans TopicWeight weightedBefore where
  trans _ _ _ hab hbc := bestFirst_trans hab hbc

/-! ### One developer -/

/-- The participant is a candidate on the topic with the weight as their score. -/
theorem topicWeight_eq_some_iff {participant : Participant} {ownership : TopicOwnership}
    (h : (ownership.candidates.map ExpertCandidate.author).Nodup) {w : TopicWeight} :
    topicWeight participant ownership = some w ↔ w.topic = ownership.topic ∧
      ∃ candidate ∈ ownership.candidates, candidate.author = participant.author ∧
        candidate.score.get = w.weight := by
  unfold topicWeight
  rw [Option.map_eq_some_iff]
  constructor
  · rintro ⟨candidate, hfind, rfl⟩
    exact ⟨rfl, candidate, List.mem_of_find?_eq_some hfind, by simpa using List.find?_some hfind,
      rfl⟩
  · rintro ⟨htopic, candidate, hmem, hauthor, hscore⟩
    -- the participant is one candidate at most, so the search finds this one
    have hsome : (ownership.candidates.find? fun candidate =>
        candidate.author = participant.author).isSome := by
      rw [List.find?_isSome]
      exact ⟨candidate, hmem, by simpa using hauthor⟩
    obtain ⟨found, hfound⟩ := Option.isSome_iff_exists.mp hsome
    have hauthor' : found.author = participant.author := by simpa using List.find?_some hfound
    have heq : found = candidate :=
      List.inj_on_of_nodup_map h (List.mem_of_find?_eq_some hfound) hmem
        (hauthor'.trans hauthor.symm)
    refine ⟨found, hfound, ?_⟩
    cases w
    simp_all

theorem mem_topics_snapshot {ownerships : List TopicOwnership} {participant : Participant}
    {w : TopicWeight} :
    w ∈ (snapshot ownerships participant).topics ↔
      ∃ ownership ∈ ownerships, topicWeight participant ownership = some w := by
  show w ∈ (ownerships.filterMap (topicWeight participant)).insertionSort weightedBefore ↔ _
  rw [List.mem_insertionSort, List.mem_filterMap]

/-- Largest weight first, ties by topic name. -/
theorem pairwise_topics_snapshot (ownerships : List TopicOwnership) (participant : Participant) :
    (snapshot ownerships participant).topics.Pairwise weightedBefore :=
  List.pairwise_insertionSort _ _

theorem nodup_topics_snapshot {ownerships : List TopicOwnership}
    (h : (ownerships.map TopicOwnership.topic).Nodup) (participant : Participant) :
    ((snapshot ownerships participant).topics.map TopicWeight.topic).Nodup := by
  have hperm := (ownerships.filterMap (topicWeight participant)).perm_insertionSort weightedBefore
  -- a weight is for the topic of its ownership
  have htopic : ∀ {ownership w}, topicWeight participant ownership = some w →
      w.topic = ownership.topic := fun hw => by
    obtain ⟨candidate, -, rfl⟩ := Option.map_eq_some_iff.mp hw
    rfl
  show (((ownerships.filterMap (topicWeight participant)).insertionSort weightedBefore).map
    TopicWeight.topic).Nodup
  rw [(hperm.map TopicWeight.topic).nodup_iff]
  exact h.sublist (map_filterMap_sublist htopic ownerships)

/-! ### All developers -/

/-- Participants in the order of their ids stay in it. -/
theorem developers_build {c : ConversationId} {participants : List Participant}
    (h : participants.Pairwise fun a b => a.author.val < b.author.val)
    (ownerships : List TopicOwnership) :
    (build c participants ownerships).developers = participants.map (snapshot ownerships) := by
  refine List.Pairwise.insertionSort_eq ?_
  rw [List.pairwise_map]
  exact h.imp fun hlt => hlt.le

end SkillDeveloperSnapshotter

end Mirrorlane
