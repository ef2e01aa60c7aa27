import Mirrorlane.Provider.Skill

/-!
# The skill-derived developer snapshotter

Collects, per participant, the session topics they are a candidate on, best-first; developers are
ordered by ascending author id.  A participant who owns none of the topics stays, with no topics.
-/

namespace Mirrorlane

namespace SkillDeveloperSnapshotter

/-- Largest weight first, ties by ascending topic name. -/
def weightedBefore (a b : TopicWeight) : Prop :=
  b.weight < a.weight ∨ b.weight = a.weight ∧ a.topic.val ≤ b.topic.val

instance : DecidableRel weightedBefore := fun _ _ => inferInstanceAs (Decidable (_ ∨ _))

/-- The weight of a participant's topic, if they are a candidate on it. -/
def topicWeight (participant : Participant) (ownership : TopicOwnership) : Option TopicWeight :=
  (ownership.candidates.find? fun candidate => candidate.author = participant.author).map
    fun candidate => ⟨ownership.topic, candidate.score.get⟩

/-- One participant's view of the session. -/
def snapshot (ownerships : List TopicOwnership) (participant : Participant) :
    DeveloperSnapshot where
  author := participant.author
  displayName := participant.displayName
  topics := (ownerships.filterMap (topicWeight participant)).insertionSort weightedBefore

/-- The developers of a session. -/
def build (conversation : ConversationId) (participants : List Participant)
    (ownerships : List TopicOwnership) : SessionDevelopers where
  conversation
  developers := (participants.map (snapshot ownerships)).insertionSort
    fun a b => a.author.val ≤ b.author.val

/-- The snapshotter as a port. -/
def snapshotter : DeveloperSnapshotBuilder where
  build := build
  build_conversation _ _ _ := rfl

/-- Nobody who was present is dropped, and nobody else appears. -/
theorem mem_developers_build {c : ConversationId} {participants : List Participant}
    {ownerships : List TopicOwnership} {author : AuthorId} :
    author ∈ (build c participants ownerships).developers.map DeveloperSnapshot.author ↔
      author ∈ participants.map Participant.author := by
  have hperm := (participants.map (snapshot ownerships)).perm_insertionSort
    fun a b => a.author.val ≤ b.author.val
  unfold build
  rw [(hperm.map DeveloperSnapshot.author).mem_iff, List.map_map]
  exact Iff.rfl

end SkillDeveloperSnapshotter

end Mirrorlane
