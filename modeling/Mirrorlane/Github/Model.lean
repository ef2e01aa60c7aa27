import Mirrorlane.Core.Message

/-!
# GitHub items

A GitHub item is an issue, a pull request or a comment; `toMessage` is the message it becomes.  The
ids of a message are strings joined from the parts of an item: which items share one is settled in
`Github/Equiv/Ids.lean`.
-/

namespace Mirrorlane

/-- A GitHub repository, by owner and name. -/
structure Repo where
  owner : String
  name : String
  deriving DecidableEq

/-- Neither part of the repo has a slash. -/
structure Repo.SlashFree (repo : Repo) : Prop where
  owner : '/' ∉ repo.owner.toList
  name : '/' ∉ repo.name.toList

/-- What kind of GitHub item an item is. -/
inductive GitHubItemKind where
  | issue
  | pullRequest
  | comment
  deriving DecidableEq

/-- A stable tag used in derived ids. -/
def GitHubItemKind.tag : GitHubItemKind → String
  | .issue => "issue"
  | .pullRequest => "pull-request"
  | .comment => "comment"

/-- A normalized GitHub item: an issue, pull request, or comment. -/
structure GitHubItem where
  kind : GitHubItemKind
  repo : Repo
  /-- The issue or pull request the item belongs to: a comment's parent. -/
  number : UInt64
  id : String
  authorLogin : String
  title : Option String
  body : String
  deriving DecidableEq

/-- Map an item to a message. -/
def toMessage (item : GitHubItem) : MessageEnvelope where
  id := ⟨"github:" ++ item.repo.owner ++ "/" ++ item.repo.name ++ ":" ++ item.kind.tag ++ ":" ++
    item.id⟩
  source := .gitHub
  author := { id := ⟨item.authorLogin⟩, displayName := item.authorLogin }
  conversation :=
    { id := ⟨"github:" ++ item.repo.owner ++ "/" ++ item.repo.name ++ "#" ++ toString item.number⟩
      thread := none }
  body := match item.kind, item.title with
    | .comment, _ => item.body
    | _, none => item.body
    | _, some title => title ++ "\n\n" ++ item.body

end Mirrorlane
