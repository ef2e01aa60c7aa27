import Mirrorlane.Core.Ports
import Mirrorlane.Foundation.Rounding
import Mirrorlane.Foundation.SortedAssoc
import Mathlib.Data.String.Basic

/-!
# The message-based skill builder

Tallies each author's per-topic involvement, weighted by projection confidence; then, per topic,
normalizes so that the strongest contributor scores `1` and ranks the candidates best-first,
breaking ties by ascending author id.  The ordered maps keep the iteration order stable.

Every addition and every division is followed by the rounding `r`: the program's is `binary64`, and
with `exact` the tally is the sum of the confidences.
-/

namespace Mirrorlane

/-! ### Ranking -/

/-- Best score first, ties by ascending author id. -/
def rankedBefore (a b : ExpertCandidate) : Prop :=
  b.score.get < a.score.get ∨ b.score.get = a.score.get ∧ a.author.val ≤ b.author.val

instance : DecidableRel rankedBefore := fun _ _ => inferInstanceAs (Decidable (_ ∨ _))

/-- A stable sort by rank. -/
def rank (candidates : List ExpertCandidate) : List ExpertCandidate :=
  candidates.insertionSort rankedBefore

/-- A weight relative to the largest one. -/
def normalize (r : Rounding) (max weight : ℚ) : SkillScore :=
  .new (if 0 < max then r.round (weight / max) else 0)

/-- The largest of some weights, at least `0`. -/
def largest (weights : List ℚ) : ℚ := weights.foldl max 0

namespace MessageSkillBuilder

variable (r : Rounding)

/-! ### Tallying -/

/-- Author id to display name and topic weights. -/
abbrev PerAuthor := SortedAssoc String (String × SortedAssoc String ℚ)

/-- One topic of a contribution, added to its author's weights. -/
def addTopic (confidence : Confidence) (topics : SortedAssoc String ℚ) (topic : Topic) :
    SortedAssoc String ℚ :=
  topics.alter topic.val fun weight => r.round (weight.getD 0 + confidence.get)

/-- One contribution: the last-seen display name wins, the weights add up. -/
def addContribution (perAuthor : PerAuthor) (contribution : SkillContribution) : PerAuthor :=
  perAuthor.alter contribution.author.val fun entry =>
    -- the name is set even where the contribution has no topics
    (contribution.displayName,
      contribution.topics.foldl (addTopic r contribution.confidence)
        ((entry.map Prod.snd).getD .empty))

/-- The tally of all contributions. -/
def perAuthor (contributions : List SkillContribution) : PerAuthor :=
  contributions.foldl (addContribution r) .empty

/-! ### Inverting -/

/-- An author's share in a topic: author id, display name, weight. -/
structure Contributor where
  author : String
  displayName : String
  weight : ℚ
  deriving DecidableEq

/-- Topic to contributors. -/
abbrev PerTopic := SortedAssoc String (List Contributor)

/-- One author's entry, pushed on each of their topics. -/
def invertAuthor (perTopic : PerTopic) (entry : String × String × SortedAssoc String ℚ) :
    PerTopic :=
  entry.2.2.entries.foldl (fun perTopic share =>
    perTopic.alter share.1 fun contributors =>
      contributors.getD [] ++ [⟨entry.1, entry.2.1, share.2⟩]) perTopic

/-- The inverted tally. -/
def perTopic (tally : PerAuthor) : PerTopic :=
  tally.entries.foldl invertAuthor .empty

/-- The ownership of a topic: its contributors normalized and ranked. -/
def ownership (topic : String) (contributors : List Contributor) : TopicOwnership where
  topic := ⟨topic⟩
  candidates :=
    let max := largest (contributors.map Contributor.weight)
    rank (contributors.map fun c => ⟨⟨c.author⟩, c.displayName, normalize r max c.weight⟩)

/-- An author's profile. -/
def profile (entry : String × String × SortedAssoc String ℚ) : DeveloperProfile where
  author := ⟨entry.1⟩
  displayName := entry.2.1
  topics := entry.2.2.entries.map fun share => ⟨⟨share.1⟩, share.2⟩

/-- The skill index of some contributions. -/
def build (contributions : List SkillContribution) : SkillIndex :=
  let tally := perAuthor r contributions
  { profiles := tally.entries.map profile
    ownerships := (perTopic tally).entries.map fun entry => ownership r entry.1 entry.2 }

/-- The builder as a port. -/
def skillBuilder : SkillBuilder where
  build := build r

end MessageSkillBuilder

end Mirrorlane
