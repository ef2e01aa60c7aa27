import Mirrorlane.Cli.Equiv.GithubIngestion
import Mirrorlane.Foundation.Paging

/-!
# What a paged server loses

GitHub serves its lists in pages, and `try_fetch` asks each list once, for 100 entries and no page.
So it reads the first page of each list, and a repository is ingested completely exactly when no
later page has an entry (`ingestion_complete_iff`).
-/

namespace Mirrorlane

/-- What a repository holds: its issues and pull requests, and the comments on them. -/
structure RepoContent where
  issues : PagedList IssueDto
  comments : PagedList CommentDto
  nodup_issues : (issues.entries.map IssueDto.number).Nodup
  nodup_comments : (comments.entries.map CommentDto.id).Nodup

/-- The items of a repository. -/
def RepoContent.items (content : RepoContent) (repo : Repo) : List GitHubItem :=
  content.issues.entries.map (IssueDto.toItem repo) ++
    content.comments.entries.map (CommentDto.toItem repo)

/-- The answer to a query of a list: the page it requests, in pages of the size it requests. -/
def AnswersQuery {α : Type} (get : String → Except GitHubFetchError (List α))
    (endpoint query : String) (list : PagedList α) : Prop :=
  ∀ perPage page, queryNumber "per_page" query = some perPage → queryNumber "page" query = page →
    get (endpoint ++ "?" ++ query) = .ok (list.serve perPage page)

/-- The server holds the content, and answers the two queries that are made. -/
structure Serves (client : GitHubClient) (source : RestGitHubSource) (repo : Repo)
    (content : RepoContent) : Prop where
  issues : AnswersQuery (source.get client client.decodeIssues)
    (source.baseUrl ++ "/repos/" ++ repo.owner ++ "/" ++ repo.name ++ "/issues")
    "state=all&per_page=100" content.issues
  comments : AnswersQuery (source.get client client.decodeComments)
    (source.baseUrl ++ "/repos/" ++ repo.owner ++ "/" ++ repo.name ++ "/issues/comments")
    "per_page=100" content.comments

/-- Nothing of the content is lost: a fetch returns one item for each entry, and the command appends
the message of each. -/
structure IngestsAll (debug : String → String) (client : GitHubClient) (source : RestGitHubSource)
    (spec : String) (repo : Repo) (content : RepoContent) : Prop where
  fetched : ∃ items, source.tryFetch client repo = .ok items ∧ items.Perm (content.items repo)
  appended : ∀ store, ∃ ids,
    (githubIngestRest debug store client source spec).2 = .ok ids ∧
      ids.Perm ((content.items repo).map fun item => (toMessage item).id) ∧
      ∀ item ∈ content.items repo,
        (githubIngestRest debug store client source spec).1.get (toMessage item).id =
          some (toMessage item)

/-- No page after the first of either list has an entry. -/
def RepoContent.FirstPagesOnly (content : RepoContent) : Prop :=
  content.issues.FirstPageOnly 100 ∧ content.comments.FirstPageOnly 100

/-! ### What is fetched -/

section Fetch

variable {client : GitHubClient} {source : RestGitHubSource} {repo : Repo} {content : RepoContent}

/-- The issue list is asked for 100 entries and no page. -/
theorem issuesUrl_eq (source : RestGitHubSource) (repo : Repo) : source.issuesUrl repo =
    source.baseUrl ++ "/repos/" ++ repo.owner ++ "/" ++ repo.name ++ "/issues" ++ "?" ++
      "state=all&per_page=100" := by
  unfold RestGitHubSource.issuesUrl
  simp [← String.toList_inj]

/-- The comment list is asked for 100 entries and no page. -/
theorem commentsUrl_eq (source : RestGitHubSource) (repo : Repo) : source.commentsUrl repo =
    source.baseUrl ++ "/repos/" ++ repo.owner ++ "/" ++ repo.name ++ "/issues/comments" ++ "?" ++
      "per_page=100" := by
  unfold RestGitHubSource.commentsUrl
  simp [← String.toList_inj]

/-- **The first page of each list** is what a fetch returns. -/
theorem tryFetch_of_serves (h : Serves client source repo content) :
    source.tryFetch client repo =
      .ok ((content.issues.serve 100 none).map (IssueDto.toItem repo) ++
        (content.comments.serve 100 none).map (CommentDto.toItem repo)) := by
  have hissues := h.issues 100 none (by decide +kernel) (by decide +kernel)
  have hcomments := h.comments 100 none (by decide +kernel) (by decide +kernel)
  rw [← issuesUrl_eq] at hissues
  rw [← commentsUrl_eq] at hcomments
  exact RestGitHubSource.tryFetch_eq_ok_iff.mpr ⟨_, _, hissues, hcomments, rfl⟩

/-- A fetch that returns as many items as there are entries has read both lists to the end. -/
theorem firstPagesOnly_of_fetched (h : Serves client source repo content) {items : List GitHubItem}
    (hitems : source.tryFetch client repo = .ok items)
    (hlen : items.length = (content.items repo).length) : content.FirstPagesOnly := by
  rw [tryFetch_of_serves h] at hitems
  obtain rfl := Except.ok.inj hitems
  have hissues := content.issues.length_serve_none_le (by omega : 0 < 100)
  have hcomments := content.comments.length_serve_none_le (by omega : 0 < 100)
  unfold RepoContent.items at hlen
  simp only [List.length_append, List.length_map] at hlen
  exact ⟨content.issues.firstPageOnly_of_length_le (by omega) (by omega),
    content.comments.firstPageOnly_of_length_le (by omega) (by omega)⟩

/-- First pages that are the whole lists give every item. -/
theorem tryFetch_of_firstPagesOnly (h : Serves client source repo content)
    (hfirst : content.FirstPagesOnly) :
    source.tryFetch client repo = .ok (content.items repo) := by
  rw [tryFetch_of_serves h, (content.issues.serve_none_eq_entries_iff (by omega)).mpr hfirst.1,
    (content.comments.serve_none_eq_entries_iff (by omega)).mpr hfirst.2]
  rfl

end Fetch

/-! ### What is appended -/

/-- The entries of a repository are different items. -/
theorem nodup_itemKey (content : RepoContent) (repo : Repo) :
    ((content.items repo).map itemKey).Nodup := by
  have hnumber : Function.Injective fun n : UInt64 => toString n := fun _ _ =>
    toString_uInt64_inj.mp
  have hid : Function.Injective fun n : UInt64 => "c-" ++ toString n := fun n n' h => by
    refine hnumber (String.toList_inj.mp ?_)
    simpa using congrArg String.toList h
  have hissues : (content.issues.entries.map (itemKey ∘ IssueDto.toItem repo)).Nodup := by
    refine List.Nodup.of_map (fun key => key.2.2) ?_
    have hids := content.nodup_issues.map hnumber
    rw [List.map_map] at hids ⊢
    exact hids
  have hcomments : (content.comments.entries.map (itemKey ∘ CommentDto.toItem repo)).Nodup := by
    refine List.Nodup.of_map (fun key => key.2.2) ?_
    have hids := content.nodup_comments.map hid
    rw [List.map_map] at hids ⊢
    exact hids
  unfold RepoContent.items
  rw [List.map_append, List.map_map, List.map_map, List.nodup_append]
  refine ⟨hissues, hcomments, ?_⟩
  -- the kind of an entry of the issue list is not a comment's
  rintro _ hissue _ hcomment heq
  obtain ⟨issue, -, rfl⟩ := List.mem_map.mp hissue
  obtain ⟨comment, -, rfl⟩ := List.mem_map.mp hcomment
  have hkind : (issue.toItem repo).kind = .comment := congrArg (fun key => key.2.1) heq
  unfold IssueDto.toItem at hkind
  cases hpull : issue.pullRequest <;> simp [hpull] at hkind

theorem nodup_messageId {repo : Repo} (hrepo : repo.SlashFree) (content : RepoContent) :
    (((content.items repo).map toMessage).map MessageEnvelope.id).Nodup := by
  have hkeys := nodup_itemKey content repo
  have hreadable : ∀ item ∈ content.items repo, item.Readable := fun item hitem =>
    readable_of_mem_map hrepo hitem
  rw [List.map_map]
  refine List.Nodup.map_on (fun item hitem item' hitem' hid => ?_) hkeys.of_map
  have hkey := (messageId_eq_iff (hreadable item hitem) (hreadable item' hitem')).mp hid
  exact List.inj_on_of_nodup_map hkeys hitem hitem' hkey

/-- Each of some messages with different ids can be read back once they are ingested. -/
theorem get_ingestItems {items : List GitHubItem}
    (h : ((items.map toMessage).map MessageEnvelope.id).Nodup) (store : MessageLog)
    {item : GitHubItem} (hitem : item ∈ items) :
    (ingestItems items store).1.get (toMessage item).id = some (toMessage item) := by
  unfold MessageLog.get
  rw [ingestItems_all, find?_upsertAll,
    filter_key_eq_singleton h (List.mem_map_of_mem hitem), List.getLast?_singleton, Option.some_or]

/-- **Nothing is lost exactly when no later page has an entry.** -/
theorem ingestion_complete_iff {debug : String → String} {client : GitHubClient}
    {source : RestGitHubSource} {spec : String} {repo : Repo} {content : RepoContent}
    (hrepo : parseRepo debug spec = .ok repo) (hserves : Serves client source repo content) :
    IngestsAll debug client source spec repo content ↔ content.FirstPagesOnly := by
  constructor
  · intro h
    obtain ⟨items, hitems, hperm⟩ := h.fetched
    exact firstPagesOnly_of_fetched hserves hitems hperm.length_eq
  · intro h
    have hitems := tryFetch_of_firstPagesOnly hserves h
    refine ⟨⟨_, hitems, List.Perm.refl _⟩, fun store => ?_⟩
    rw [githubIngestRest_of_ok hrepo hitems]
    refine ⟨_, rfl, ?_, fun item hitem => ?_⟩
    · rw [ingestItems_ids]
    · exact get_ingestItems (nodup_messageId (slashFree_of_parseRepo hrepo) content) store hitem

/-! ### A small and a large repository -/

/-- A client that was sent the first pages of a repository. -/
theorem serves_oneRepoClient (source : RestGitHubSource) (repo : Repo)
    (issuesText commentsText : String) (content : RepoContent) :
    Serves (oneRepoClient source repo issuesText commentsText (content.issues.serve 100 none)
      (content.comments.serve 100 none)) source repo content := by
  have hissues : queryNumber "per_page" "state=all&per_page=100" = some 100 := by decide +kernel
  have hcomments : queryNumber "per_page" "per_page=100" = some 100 := by decide +kernel
  refine ⟨?_, ?_⟩
  · intro perPage page hperPage hpage
    obtain rfl := Option.some.inj (hissues.symm.trans hperPage)
    obtain rfl : none = page := hpage
    rw [← issuesUrl_eq]
    exact get_oneRepoClient_issues _ _ _ _ _ _
  · intro perPage page hperPage hpage
    obtain rfl := Option.some.inj (hcomments.symm.trans hperPage)
    obtain rfl : none = page := hpage
    rw [← commentsUrl_eq]
    exact get_oneRepoClient_comments _ _ _ _ _ _

/-- The repository with one issue and a comment. -/
def acmeContent : RepoContent where
  issues := .full [acmeIssue]
  comments := .full [acmeComment]
  nodup_issues := List.nodup_singleton _
  nodup_comments := List.nodup_singleton _

theorem ingestion_complete_acme :
    IngestsAll quoted acmeClient publicSource "acme/widgets" ⟨"acme", "widgets"⟩ acmeContent :=
  (ingestion_complete_iff parseRepo_acme (serves_oneRepoClient _ _ _ _ acmeContent)).mpr
    ⟨(PagedList.full_firstPageOnly_iff (by omega)).mpr (by decide),
      (PagedList.full_firstPageOnly_iff (by omega)).mpr (by decide)⟩

/-- A repository with 101 issues, in full pages. -/
def largeContent : RepoContent where
  issues := .full ((List.range 101).map fun n => ⟨.ofNat (n + 1), none, none, ⟨"alice"⟩, none⟩)
  comments := .full []
  nodup_issues := by decide +kernel
  nodup_comments := List.nodup_nil

/-- The issue of a number, as it is sent. -/
def largeIssueText (issue : IssueDto) : String :=
  "\x7b\"number\":" ++ toString issue.number ++ ",\"user\":\x7b\"login\":\"alice\"\x7d\x7d"

/-- The client of that repository. -/
def largeClient : GitHubClient :=
  oneRepoClient publicSource ⟨"acme", "widgets"⟩
    ("[" ++ String.intercalate "," ((largeContent.issues.serve 100 none).map largeIssueText) ++ "]")
    "[]" (largeContent.issues.serve 100 none) (largeContent.comments.serve 100 none)

/-- **The 101st issue is lost**: it is on the second page. -/
theorem hundred_first_issue_is_lost :
    parseRepo quoted "acme/widgets" = .ok ⟨"acme", "widgets"⟩ ∧
      Serves largeClient publicSource ⟨"acme", "widgets"⟩ largeContent ∧
      ¬IngestsAll quoted largeClient publicSource "acme/widgets" ⟨"acme", "widgets"⟩
        largeContent := by
  have hserves : Serves largeClient publicSource ⟨"acme", "widgets"⟩ largeContent :=
    serves_oneRepoClient _ _ _ _ largeContent
  refine ⟨parseRepo_acme, hserves, fun h => ?_⟩
  obtain ⟨items, hitems, hperm⟩ := h.fetched
  have hfirst := (firstPagesOnly_of_fetched hserves hitems hperm.length_eq).1
  have hlen := (PagedList.full_firstPageOnly_iff (by omega)).mp hfirst
  simp at hlen

end Mirrorlane
