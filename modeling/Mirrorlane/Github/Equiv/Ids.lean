import Mirrorlane.Github.Rest

/-!
# The ids of GitHub messages

A message id is read from the right: the item id and the tag contain no colon, so the last two
colons end the repository, whatever it is made of; its slash is the only one.  A conversation id is
read the same way, up to the last `#`.

## Main results

* `messageId_eq_iff`: items share a message id exactly when they have the same repo, kind and id.
* `conversationId_eq_iff`: items share a conversation exactly when they have the same repo and
  number.
* `numberFromIssueUrl_append`: the number of a comment is the one its issue URL ends in.
-/

namespace Mirrorlane

/-- What tells GitHub items apart. -/
def itemKey (item : GitHubItem) : Repo × GitHubItemKind × String := (item.repo, item.kind, item.id)

/-- An item whose ids can be read back. -/
structure GitHubItem.Readable (item : GitHubItem) : Prop where
  repo : item.repo.SlashFree
  id : ':' ∉ item.id.toList

/-! ### The parts of an id -/

/-- The repository as it stands in an id. -/
def Repo.chars (repo : Repo) : List Char := repo.owner.toList ++ '/' :: repo.name.toList

theorem Repo.chars_inj {repo repo' : Repo} (h : repo.SlashFree) (h' : repo'.SlashFree) :
    repo.chars = repo'.chars ↔ repo = repo' := by
  unfold Repo.chars
  rw [append_cons_inj_of_notMem_left h.owner h'.owner, String.toList_inj, String.toList_inj]
  cases repo
  cases repo'
  simp

theorem GitHubItemKind.tag_inj {kind kind' : GitHubItemKind} :
    kind.tag = kind'.tag ↔ kind = kind' := by
  cases kind <;> cases kind' <;> decide

theorem GitHubItemKind.notMem_tag (kind : GitHubItemKind) : ':' ∉ kind.tag.toList := by
  cases kind <;> decide

theorem toList_toString_uInt64 (n : UInt64) : (toString n).toList = Nat.toDigits 10 n.toNat :=
  Nat.toList_repr

theorem notMem_toString {c : Char} (hc : c.isDigit = false) (n : UInt64) :
    c ∉ (toString n).toList := by
  rw [toList_toString_uInt64]
  exact notMem_toDigits hc _

theorem toString_uInt64_inj {n n' : UInt64} : toString n = toString n' ↔ n = n' := by
  rw [← String.toList_inj, toList_toString_uInt64, toList_toString_uInt64, toDigits_inj,
    UInt64.toNat_inj]

/-! ### Message ids -/

theorem toList_messageId (item : GitHubItem) :
    (toMessage item).id.val.toList =
      ("github:".toList ++ item.repo.chars ++ ':' :: item.kind.tag.toList) ++
        ':' :: item.id.toList := by
  simp [toMessage, Repo.chars]

/-- **Message ids do not collide.** -/
theorem messageId_eq_iff {item item' : GitHubItem} (h : item.Readable) (h' : item'.Readable) :
    (toMessage item).id = (toMessage item').id ↔ itemKey item = itemKey item' := by
  rw [← MessageId.val_inj, ← String.toList_inj, toList_messageId, toList_messageId,
    -- from the right: the item id, the tag, the repository
    append_cons_inj_of_notMem_right h.id h'.id,
    append_cons_inj_of_notMem_right item.kind.notMem_tag item'.kind.notMem_tag,
    List.append_cancel_left_eq, Repo.chars_inj h.repo h'.repo, String.toList_inj,
    GitHubItemKind.tag_inj, String.toList_inj, and_assoc]
  simp [itemKey]

/-! ### Conversations -/

theorem toList_conversationId (item : GitHubItem) :
    (toMessage item).conversation.id.val.toList =
      ("github:".toList ++ item.repo.chars) ++ '#' :: (toString item.number).toList := by
  simp [toMessage, Repo.chars]

/-- **Conversation ids do not collide.** -/
theorem conversationId_eq_iff {item item' : GitHubItem} (h : item.repo.SlashFree)
    (h' : item'.repo.SlashFree) :
    (toMessage item).conversation.id = (toMessage item').conversation.id ↔
      item.repo = item'.repo ∧ item.number = item'.number := by
  have hnumber : ∀ n : UInt64, '#' ∉ (toString n).toList := notMem_toString (by decide)
  rw [← ConversationId.val_inj, ← String.toList_inj, toList_conversationId, toList_conversationId,
    append_cons_inj_of_notMem_right (hnumber _) (hnumber _), List.append_cancel_left_eq,
    Repo.chars_inj h h', String.toList_inj, toString_uInt64_inj]

/-! ### The number of a comment -/

theorem dropPlus_eq_self {digits : List Char} (h : '+' ∉ digits) : dropPlus digits = digits := by
  unfold dropPlus
  split
  · exact absurd List.mem_cons_self h
  · rfl

theorem parseU64_toString (n : UInt64) : parseU64 (toString n) = some n := by
  have hplus : '+' ∉ Nat.toDigits 10 n.toNat := notMem_toDigits (by decide) _
  have hdigits : Nat.toDigits 10 n.toNat ≠ [] := Nat.toDigits_ne_nil
  have hread : parseDecimal UInt64.size (Nat.toDigits 10 n.toNat) = some n.toNat :=
    parseDecimal_toDigits n.toNat_lt_size
  unfold parseU64
  rw [toList_toString_uInt64, dropPlus_eq_self hplus, if_neg hdigits, hread, Option.map_some,
    UInt64.ofNat_toNat]

/-- The number in an issue URL is what follows its last slash. -/
theorem numberFromIssueUrl_append (url : String) (n : UInt64) :
    numberFromIssueUrl (url ++ "/" ++ toString n) = n := by
  have hslash : '/' ∉ (toString n).toList := notMem_toString (by decide) n
  have hlist : (url ++ "/" ++ toString n).toList = url.toList ++ '/' :: (toString n).toList := by
    simp
  unfold numberFromIssueUrl
  rw [hlist, lastSegment_append_cons _ hslash, String.ofList_toList, parseU64_toString]
  rfl

/-! ### The items of a fetch -/

/-- What the REST mapping builds for a repo without slashes can be read back. -/
theorem readable_of_mem_map {repo : Repo} (hrepo : repo.SlashFree) {issues : List IssueDto}
    {comments : List CommentDto} {item : GitHubItem}
    (h : item ∈ issues.map (IssueDto.toItem repo) ++ comments.map (CommentDto.toItem repo)) :
    item.Readable := by
  rw [List.mem_append, List.mem_map, List.mem_map] at h
  rcases h with ⟨issue, -, rfl⟩ | ⟨comment, -, rfl⟩
  · exact ⟨hrepo, notMem_toString (by decide) issue.number⟩
  · refine ⟨hrepo, ?_⟩
    show ':' ∉ ("c-" ++ toString comment.id).toList
    rw [String.toList_append, List.mem_append, not_or]
    exact ⟨by decide, notMem_toString (by decide) comment.id⟩

theorem readable_of_mem_tryFetch {client : GitHubClient} {source : RestGitHubSource} {repo : Repo}
    {items : List GitHubItem} (h : source.tryFetch client repo = .ok items) (hrepo : repo.SlashFree)
    {item : GitHubItem} (hitem : item ∈ items) : item.Readable := by
  obtain ⟨issues, comments, -, -, rfl⟩ := RestGitHubSource.tryFetch_eq_ok_iff.mp h
  exact readable_of_mem_map hrepo hitem

end Mirrorlane
