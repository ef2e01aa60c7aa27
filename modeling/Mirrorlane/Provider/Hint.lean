import Mirrorlane.Provider.Skill

/-!
# The skill-derived routing hinter

Sums each candidate's score over the projection's own topics, ranks the reviewers by the rules of
the skill builder and names the first as the human hint.  The sums and shares are rounded as there.
-/

namespace Mirrorlane

namespace SkillRoutingHinter

variable (r : Rounding)

/-- Author id to display name and summed score. -/
abbrev Totals := SortedAssoc String (String × ℚ)

/-- One candidate: the last-seen display name wins, the scores add up. -/
def addCandidate (totals : Totals) (candidate : ExpertCandidate) : Totals :=
  totals.alter candidate.author.val fun entry =>
    (candidate.displayName, r.round ((entry.map Prod.snd).getD 0 + candidate.score.get))

/-- One ownership, if it is for a topic of the projection. -/
def addOwnership (projection : Projection) (totals : Totals) (ownership : TopicOwnership) :
    Totals :=
  if ownership.topic ∈ projection.topics then ownership.candidates.foldl (addCandidate r) totals
  else totals

/-- The routing hint of a projection. -/
def hint (projection : Projection) (ownerships : List TopicOwnership) : RoutingHint :=
  let totals := ownerships.foldl (addOwnership r projection) .empty
  let max := largest (totals.entries.map fun entry => entry.2.2)
  let reviewers := rank (totals.entries.map fun entry =>
    ⟨⟨entry.1⟩, entry.2.1, normalize r max entry.2.2⟩)
  { messageId := projection.messageId
    reviewers
    humanHint := reviewers.head? }

/-- The hinter as a port. -/
def hinter : RoutingHinter where
  hint := hint r
  hint_messageId _ _ := rfl

end SkillRoutingHinter

end Mirrorlane
