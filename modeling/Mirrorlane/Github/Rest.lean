import Mirrorlane.Foundation.Decimal
import Mirrorlane.Foundation.Delimited
import Mirrorlane.Github.Model

/-!
# The GitHub REST source

`tryFetch` asks for the issues of a repository (which GitHub lists together with its pull requests)
and for the comments on them, and normalizes what comes back.  The HTTP client and the JSON decoder
are parameters, `GitHubClient`.
-/

namespace Mirrorlane

/-- Default GitHub REST API base URL. -/
def defaultBaseUrl : String := "https://api.github.com"

/-- A failure fetching from the GitHub REST API. -/
inductive GitHubFetchError where
  /-- The request never produced an HTTP response. -/
  | transport (message : String)
  /-- The server returned a non-success status. -/
  | status (code : UInt16) (message : String)
  /-- The response body could not be read. -/
  | read (message : String)
  /-- The response body was not the expected JSON shape. -/
  | parse (message : String)
  deriving DecidableEq

/-- The text of a failure. -/
def GitHubFetchError.display : GitHubFetchError → String
  | .transport e => "github request failed: " ++ e
  | .status code message => "github returned HTTP " ++ toString code ++ " " ++ message
  | .read e => "github response was not readable: " ++ e
  | .parse e => "github response was malformed: " ++ e

/-! ### Requests and responses -/

/-- A GET request: the URL, and the headers that are set. -/
structure HttpRequest where
  url : String
  headers : List (String × String)
  deriving DecidableEq

/-- Why a call did not give a success response. -/
inductive HttpError where
  | status (code : UInt16) (statusText : String)
  | transport (message : String)
  deriving DecidableEq

/-- The author of an issue or a comment. -/
structure UserDto where
  login : String
  deriving DecidableEq

/-- An entry of the issue list. -/
structure IssueDto where
  number : UInt64
  title : Option String
  body : Option String
  user : UserDto
  /-- Present on entries that are actually pull requests: a JSON value, as its text. -/
  pullRequest : Option String
  deriving DecidableEq

/-- An entry of the comment list. -/
structure CommentDto where
  id : UInt64
  body : Option String
  user : UserDto
  issueUrl : String
  deriving DecidableEq

/-- The HTTP client during one fetch, and the JSON decoder.  A response has a body that may turn out
not to be readable. -/
structure GitHubClient where
  call : HttpRequest → Except HttpError (Except String String)
  decodeIssues : String → Except String (List IssueDto)
  decodeComments : String → Except String (List CommentDto)

/-! ### Numbers in URLs -/

/-- A numeral without its plus sign. -/
def dropPlus : List Char → List Char
  | '+' :: digits => digits
  | digits => digits

/-- `str::parse::<u64>`: decimal digits, perhaps after a plus sign. -/
def parseU64 (s : String) : Option UInt64 :=
  let digits := dropPlus s.toList
  if digits = [] then none else (parseDecimal UInt64.size digits).map UInt64.ofNat

/-- The number of the issue a comment's `issue_url` points at, best effort. -/
def numberFromIssueUrl (issueUrl : String) : UInt64 :=
  (parseU64 (String.ofList (lastSegment '/' issueUrl.toList))).getD 0

/-! ### Items -/

/-- The item of an entry of the issue list. -/
def IssueDto.toItem (repo : Repo) (issue : IssueDto) : GitHubItem where
  kind := if issue.pullRequest.isSome then .pullRequest else .issue
  repo := repo
  number := issue.number
  id := toString issue.number
  authorLogin := issue.user.login
  title := issue.title
  body := issue.body.getD ""

/-- The item of an entry of the comment list. -/
def CommentDto.toItem (repo : Repo) (comment : CommentDto) : GitHubItem where
  kind := .comment
  repo := repo
  number := numberFromIssueUrl comment.issueUrl
  id := "c-" ++ toString comment.id
  authorLogin := comment.user.login
  title := none
  body := comment.body.getD ""

/-- A source backed by the GitHub REST API. -/
structure RestGitHubSource where
  baseUrl : String
  token : Option String
  deriving DecidableEq

namespace RestGitHubSource

/-- The token is sent only to the default host. -/
def sendsToken (source : RestGitHubSource) : Bool :=
  source.token.isSome && source.baseUrl = defaultBaseUrl

/-- The request for a URL. -/
def request (source : RestGitHubSource) (url : String) : HttpRequest where
  url := url
  headers := [("User-Agent", "mirrorlane"), ("Accept", "application/vnd.github+json")] ++
    if source.sendsToken then [("Authorization", "token " ++ source.token.getD "")] else []

/-- The list of issues and pull requests. -/
def issuesUrl (source : RestGitHubSource) (repo : Repo) : String :=
  source.baseUrl ++ "/repos/" ++ repo.owner ++ "/" ++ repo.name ++ "/issues?state=all&per_page=100"

/-- The list of comments. -/
def commentsUrl (source : RestGitHubSource) (repo : Repo) : String :=
  source.baseUrl ++ "/repos/" ++ repo.owner ++ "/" ++ repo.name ++ "/issues/comments?per_page=100"

variable (client : GitHubClient)

/-- Call a URL, read the body and decode it. -/
def get {α : Type} (source : RestGitHubSource) (decode : String → Except String α) (url : String) :
    Except GitHubFetchError α := do
  let response ← (client.call (source.request url)).mapError fun
    | .status code message => GitHubFetchError.status code message
    | .transport e => .transport e
  let body ← response.mapError .read
  (decode body).mapError .parse

/-- Fetch a repo's items. -/
def tryFetch (source : RestGitHubSource) (repo : Repo) :
    Except GitHubFetchError (List GitHubItem) := do
  let issues ← source.get client client.decodeIssues (source.issuesUrl repo)
  let comments ← source.get client client.decodeComments (source.commentsUrl repo)
  return issues.map (IssueDto.toItem repo) ++ comments.map (CommentDto.toItem repo)

/-- The infallible port: `none` where it panics. -/
def fetch (source : RestGitHubSource) (repo : Repo) : Option (List GitHubItem) :=
  (source.tryFetch client repo).toOption

/-! ### What a fetch returns -/

variable {client} {source : RestGitHubSource} {repo : Repo}

theorem tryFetch_eq_ok_iff {items : List GitHubItem} :
    source.tryFetch client repo = .ok items ↔ ∃ issues comments,
      source.get client client.decodeIssues (source.issuesUrl repo) = .ok issues ∧
        source.get client client.decodeComments (source.commentsUrl repo) = .ok comments ∧
          items = issues.map (IssueDto.toItem repo) ++ comments.map (CommentDto.toItem repo) := by
  unfold tryFetch
  cases hissues : source.get client client.decodeIssues (source.issuesUrl repo) with
  | error e => simp [bind, Except.bind]
  | ok issues =>
    cases hcomments : source.get client client.decodeComments (source.commentsUrl repo) with
    | error e => simp [bind, Except.bind]
    | ok comments => simp [bind, Except.bind, pure, Except.pure, eq_comm]

end RestGitHubSource

end Mirrorlane
