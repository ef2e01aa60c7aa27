import Mirrorlane.Cli.Github
import Mirrorlane.Github.Equiv.Ids

/-!
# GitHub items in the log

Batches of items are ingested one after the other, of any repos and in any order, the same items
perhaps again and again.  The ids tell the items apart, so the log is the list of the items, each
once, where it was first ingested and with its latest content (`github_items_never_collide`).
-/

namespace Mirrorlane

/-- A batch: what some fetch of an accepted repo returned. -/
def FetchedBatch (debug : String → String) (batch : List GitHubItem) : Prop :=
  ∃ spec repo client source, parseRepo debug spec = .ok repo ∧
    RestGitHubSource.tryFetch client source repo = .ok batch

/-- Ingest batches, one after the other. -/
def ingestBatches (batches : List (List GitHubItem)) (store : MessageLog) : MessageLog :=
  batches.foldl (fun store batch => (ingestItems batch store).1) store

/-- The item as it was last ingested. -/
def latestItem (items : List GitHubItem) (key : Repo × GitHubItemKind × String) :
    Option GitHubItem :=
  (items.filter fun item => itemKey item = key).getLast?

/-! ### Ingesting batches -/

theorem readable_of_fetchedBatches {debug : String → String} {batches : List (List GitHubItem)}
    (h : ∀ batch ∈ batches, FetchedBatch debug batch) {item : GitHubItem}
    (hitem : item ∈ batches.flatten) : item.Readable := by
  obtain ⟨batch, hbatch, hmem⟩ := List.mem_flatten.mp hitem
  obtain ⟨spec, repo, client, source, hrepo, hfetch⟩ := h batch hbatch
  exact readable_of_mem_tryFetch hfetch (slashFree_of_parseRepo hrepo) hmem

theorem ingestBatches_all (batches : List (List GitHubItem)) (store : MessageLog) :
    (ingestBatches batches store).all =
      upsertAll MessageEnvelope.id (batches.flatten.map toMessage) store.all := by
  induction batches generalizing store with
  | nil => rfl
  | cons batch batches ih =>
    show (ingestBatches batches (ingestItems batch store).1).all = _
    rw [ih, ingestItems_all, List.flatten_cons, List.map_append, upsertAll_append]

/-- The log holds the items themselves, upserted by what tells them apart. -/
theorem ingestBatches_empty {debug : String → String} {batches : List (List GitHubItem)}
    (h : ∀ batch ∈ batches, FetchedBatch debug batch) :
    (ingestBatches batches .empty).all = (upsertAll itemKey batches.flatten []).map toMessage := by
  rw [ingestBatches_all]
  exact upsertAll_map_of_iff fun item hitem item' hitem' =>
    messageId_eq_iff (readable_of_fetchedBatches h hitem) (readable_of_fetchedBatches h hitem')

/-- **GitHub items never collide.** Among the items of any fetched batches, message ids are equal
exactly for the same repo, kind and id, and conversation ids exactly for the same repo and number,
which for a comment is the one its issue URL ends in; the log has one message for each item, where
it was first ingested and as it was last. -/
theorem github_items_never_collide {debug : String → String} {batches : List (List GitHubItem)}
    (h : ∀ batch ∈ batches, FetchedBatch debug batch) :
    (∀ item ∈ batches.flatten, ∀ item' ∈ batches.flatten,
      ((toMessage item).id = (toMessage item').id ↔
        item.repo = item'.repo ∧ item.kind = item'.kind ∧ item.id = item'.id) ∧
      ((toMessage item).conversation.id = (toMessage item').conversation.id ↔
        item.repo = item'.repo ∧ item.number = item'.number)) ∧
    (∀ repo (comment : CommentDto) url (n : UInt64), comment.issueUrl = url ++ "/" ++ toString n →
      (comment.toItem repo).number = n) ∧
    (ingestBatches batches .empty).all =
      (firstSeen (batches.flatten.map itemKey)).filterMap (fun key =>
        (latestItem batches.flatten key).map toMessage) ∧
    (ingestBatches batches .empty).all.length =
      (firstSeen (batches.flatten.map itemKey)).length := by
  refine ⟨fun item hitem item' hitem' => ⟨?_, ?_⟩, ?_, ?_, ?_⟩
  · rw [messageId_eq_iff (readable_of_fetchedBatches h hitem)
      (readable_of_fetchedBatches h hitem')]
    simp [itemKey]
  · exact conversationId_eq_iff (readable_of_fetchedBatches h hitem).repo
      (readable_of_fetchedBatches h hitem').repo
  · intro repo comment url n hurl
    unfold CommentDto.toItem
    rw [hurl, numberFromIssueUrl_append]
  · rw [ingestBatches_empty h, upsertAll_empty, List.map_filterMap]
    rfl
  · rw [ingestBatches_empty h, List.length_map, ← map_upsertAll_empty itemKey, List.length_map]

/-! ### A repository with an issue and a comment -/

/-- A client that knows the two lists of one repository, and a decoder of the texts they are sent
as. -/
def oneRepoClient (source : RestGitHubSource) (repo : Repo) (issuesText commentsText : String)
    (issues : List IssueDto) (comments : List CommentDto) : GitHubClient where
  call request :=
    if request.url = source.issuesUrl repo then .ok (.ok issuesText)
    else if request.url = source.commentsUrl repo then .ok (.ok commentsText)
    else .error (.status 404 "Not Found")
  decodeIssues body :=
    if body = issuesText then .ok issues else .error "expected value at line 1 column 1"
  decodeComments body :=
    if body = commentsText then .ok comments else .error "expected value at line 1 column 1"

section OneRepo

variable (source : RestGitHubSource) (repo : Repo) (issuesText commentsText : String)
  (issues : List IssueDto) (comments : List CommentDto)

theorem get_oneRepoClient_issues :
    let client := oneRepoClient source repo issuesText commentsText issues comments
    source.get client client.decodeIssues (source.issuesUrl repo) = .ok issues := by
  simp [RestGitHubSource.get, RestGitHubSource.request, oneRepoClient, Except.mapError, bind,
    Except.bind]

theorem get_oneRepoClient_comments :
    let client := oneRepoClient source repo issuesText commentsText issues comments
    source.get client client.decodeComments (source.commentsUrl repo) = .ok comments := by
  have hne : source.commentsUrl repo ≠ source.issuesUrl repo := by
    intro h
    have hlist := congrArg String.toList h
    simp [RestGitHubSource.commentsUrl, RestGitHubSource.issuesUrl] at hlist
  simp [RestGitHubSource.get, RestGitHubSource.request, oneRepoClient, hne, Except.mapError, bind,
    Except.bind]

end OneRepo

/-- The default source, without a token. -/
def publicSource : RestGitHubSource := ⟨defaultBaseUrl, none⟩

/-- An issue of `acme/widgets`. -/
def acmeIssue : IssueDto := ⟨7, some "Login", none, ⟨"alice"⟩, none⟩

/-- A comment on it. -/
def acmeComment : CommentDto :=
  ⟨100, none, ⟨"bob"⟩, "https://api.github.com/repos/acme/widgets/issues/7"⟩

/-- The client of that repository. -/
def acmeClient : GitHubClient :=
  oneRepoClient publicSource ⟨"acme", "widgets"⟩
    "[\x7b\"number\":7,\"title\":\"Login\",\"user\":\x7b\"login\":\"alice\"\x7d\x7d]"
    ("[\x7b\"id\":100,\"user\":\x7b\"login\":\"bob\"\x7d," ++
      "\"issue_url\":\"https://api.github.com/repos/acme/widgets/issues/7\"\x7d]")
    [acmeIssue] [acmeComment]

/-- Its items. -/
def acmeItems : List GitHubItem :=
  [acmeIssue.toItem ⟨"acme", "widgets"⟩, acmeComment.toItem ⟨"acme", "widgets"⟩]

/-- A string in quotes. -/
def quoted (s : String) : String := "\"" ++ s ++ "\""

theorem parseRepo_acme : parseRepo quoted "acme/widgets" = .ok ⟨"acme", "widgets"⟩ := by
  rw [parseRepo_eq_ok_iff]
  decide +kernel

theorem fetchedBatch_acmeItems : FetchedBatch quoted acmeItems := by
  refine ⟨"acme/widgets", ⟨"acme", "widgets"⟩, acmeClient, publicSource, parseRepo_acme, ?_⟩
  rw [RestGitHubSource.tryFetch_eq_ok_iff]
  exact ⟨_, _, get_oneRepoClient_issues _ _ _ _ _ _, get_oneRepoClient_comments _ _ _ _ _ _, rfl⟩

theorem github_items_never_collide_acme :
    (ingestBatches [acmeItems, acmeItems] .empty).all = acmeItems.map toMessage := by
  have hfetched : ∀ batch ∈ [acmeItems, acmeItems], FetchedBatch quoted batch := by
    simp [fetchedBatch_acmeItems]
  rw [(github_items_never_collide hfetched).2.2.1]
  decide +kernel

end Mirrorlane
