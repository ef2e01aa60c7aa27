import Mirrorlane.Provider.Context
import Mirrorlane.Provider.Equiv.Skill
import Mirrorlane.Worker.Equiv.Derived

/-!
# What a derivation depends on

The derivation of a conversation is computed from the whole log, but it reads only three things of
it (`SameInputs`): the projections of the conversation's messages, its participants, and the
ownership of its topics in the skill index.  Two logs that have these in common have the same
derivation of the conversation (`derivationOf_congr`).

The content hash covers the ids and bodies of the conversation's messages only.  With the provider's
skill builder the third input is the evidence for the topics in both logs
(`sameInputs_of_evidence`).
-/

namespace Mirrorlane

variable {ports : StrategyContext} {read log : MessageLog} {c : ConversationId}

/-- Two logs have in common what the derivation of `c` reads. -/
structure SameInputs (ports : StrategyContext) (read log : MessageLog) (c : ConversationId) :
    Prop where
  projections : projectionsOf ports (read.messagesFor c) = projectionsOf ports (log.messagesFor c)
  participants : participantsOf (read.messagesFor c) = participantsOf (log.messagesFor c)
  skills : ∀ topic ∈ topicsOf ports log c, skillsOf ports read topic = skillsOf ports log topic

theorem SameInputs.refl (ports : StrategyContext) (log : MessageLog) (c : ConversationId) :
    SameInputs ports log log c :=
  ⟨rfl, rfl, fun _ _ => rfl⟩

instance : Decidable (SameInputs ports read log c) :=
  decidable_of_iff
    (projectionsOf ports (read.messagesFor c) = projectionsOf ports (log.messagesFor c) ∧
      participantsOf (read.messagesFor c) = participantsOf (log.messagesFor c) ∧
      ∀ topic ∈ topicsOf ports log c, skillsOf ports read topic = skillsOf ports log topic)
    ⟨fun h => ⟨h.1, h.2.1, h.2.2⟩, fun h => ⟨h.1, h.2, h.3⟩⟩

theorem mem_topicsOf {topic : Topic} :
    topic ∈ topicsOf ports log c ↔
      ∃ projection ∈ projectionsOf ports (log.messagesFor c), topic ∈ projection.topics := by
  unfold topicsOf
  rw [mem_firstSeen, List.mem_flatMap]

/-- The hint of a projection reads the ownerships of its own topics. -/
theorem hintOf_congr {projection : Projection}
    (h : ∀ topic ∈ projection.topics, skillsOf ports read topic = skillsOf ports log topic) :
    hintOf ports read projection = hintOf ports log projection := by
  unfold hintOf BuildRoutingHintJob.hintFor
  rw [List.filterMap_congr h]

/-- **Locality of derivations.** -/
theorem derivationOf_congr (h : SameInputs ports read log c) :
    derivationOf ports read c = derivationOf ports log c := by
  have htopics : topicsOf ports read c = topicsOf ports log c := by
    unfold topicsOf
    rw [h.projections]
  have hscope : scopeOf ports read c = scopeOf ports log c := by
    unfold scopeOf
    rw [h.projections]
  have hwarmup : warmupOf ports read c = warmupOf ports log c := by
    unfold warmupOf
    rw [hscope, h.projections]
  have hdevelopers : developersOf ports read c = developersOf ports log c := by
    unfold developersOf
    rw [h.participants, htopics, List.filterMap_congr h.skills]
  have hhints : (projectionsOf ports (log.messagesFor c)).map (hintOf ports read) =
      (projectionsOf ports (log.messagesFor c)).map (hintOf ports log) := by
    refine List.map_congr_left fun projection hp => hintOf_congr fun topic ht => ?_
    exact h.skills topic (mem_topicsOf.mpr ⟨projection, hp, ht⟩)
  simp only [derivationOf]
  rw [h.projections, hscope, hwarmup, hdevelopers, hhints]

/-! ### The evidence of the provider's skill builder -/

section Provider

open MessageSkillBuilder

variable {r : Rounding} {toLowercase : String → String} {projector : Projector}

/-- The contributions of a log, with the provider's ports. -/
def contributionsOf (ports : StrategyContext) (log : MessageLog) : List SkillContribution :=
  log.all.filterMap (contributionOf ports)

/-- With the provider's ports, two logs have the inputs of `c` in common when they agree on its
projections and participants and have the same evidence for its topics: the confidences each author
touched the topic with, and the last-seen display name of every author who did. -/
theorem sameInputs_of_evidence
    (hprojections : projectionsOf (providerPorts r toLowercase projector) (read.messagesFor c) =
      projectionsOf (providerPorts r toLowercase projector) (log.messagesFor c))
    (hparticipants : participantsOf (read.messagesFor c) = participantsOf (log.messagesFor c))
    (htouches : ∀ topic ∈ topicsOf (providerPorts r toLowercase projector) log c, ∀ author,
      touches (contributionsOf (providerPorts r toLowercase projector) read) author topic.val =
        touches (contributionsOf (providerPorts r toLowercase projector) log) author topic.val)
    (hnames : ∀ topic ∈ topicsOf (providerPorts r toLowercase projector) log c, ∀ author,
      touches (contributionsOf (providerPorts r toLowercase projector) read) author topic.val ≠ [] →
      lastName (contributionsOf (providerPorts r toLowercase projector) read) author =
        lastName (contributionsOf (providerPorts r toLowercase projector) log) author) :
    SameInputs (providerPorts r toLowercase projector) read log c where
  projections := hprojections
  participants := hparticipants
  skills topic ht := ownershipOf_eq_of_evidence (htouches topic ht) (hnames topic ht)

end Provider

end Mirrorlane
