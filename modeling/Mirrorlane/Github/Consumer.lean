import Mirrorlane.Provider.Routing

/-!
# GitHub drafts

The draft a projection routed to GitHub becomes.
-/

namespace Mirrorlane

/-- What a draft would open. -/
inductive DraftKind where
  | issue
  | pullRequest
  deriving DecidableEq

/-- A draft GitHub item. -/
structure GitHubDraft where
  kind : DraftKind
  messageId : MessageId
  title : String
  body : String
  deriving DecidableEq

/-- A joined list, or a dash when nothing is in it. -/
def joinedOrDash (names : List String) : String :=
  let joined := String.intercalate ", " names
  if joined = "" then "—" else joined

/-- The draft of a projection. -/
def draftFor (projection : Projection) : GitHubDraft :=
  let kind : DraftKind := match projection.intent with
    | .proposal => .pullRequest
    -- an intent that custom rules route to GitHub
    | _ => .issue
  let primary := (projection.topics.head?.map Topic.val).getD "general"
  { kind
    messageId := projection.messageId
    title := match kind with
      | .issue => "[" ++ primary ++ "] " ++ intentLabel projection.intent
      | .pullRequest => "Proposal: " ++ primary
    body := "Auto-drafted from message " ++ projection.messageId.val ++ " (confidence " ++
      formatTwoDecimals projection.confidence.get ++ ").\n\nTopics: " ++
      joinedOrDash (projection.topics.map Topic.val) ++ "\nEntities: " ++
      joinedOrDash (projection.entities.map Entity.val) }

end Mirrorlane
