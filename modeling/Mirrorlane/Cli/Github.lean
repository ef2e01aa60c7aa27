import Mirrorlane.Github.Source

/-!
# The github command

`github --repo owner/name` fetches through the real REST source and appends what it fetched.  A spec
that is not of that form and a failed fetch are errors, and nothing is ingested then.
-/

namespace Mirrorlane

section Github

/- How `{:?}` writes a string. -/
variable (debug : String → String)

/-- Parse an `owner/name` repo spec, requiring two non-empty segments. -/
def parseRepo (spec : String) : Except String Repo :=
  let invalid := Except.error ("invalid --repo " ++ debug spec ++ "; expected owner/name")
  match splitOnce '/' spec.toList with
  | some (owner, name) =>
    if owner ≠ [] ∧ name ≠ [] ∧ '/' ∉ name then
      .ok { owner := String.ofList owner, name := String.ofList name }
    else invalid
  | none => invalid

/-- Fetch a repo's items through the REST source and append them: the log, and the appended ids or
the text of the error. -/
def githubIngestRest (store : MessageLog) (client : GitHubClient) (source : RestGitHubSource)
    (spec : String) : MessageLog × Except String (List MessageId) :=
  match parseRepo debug spec with
  | .error e => (store, .error e)
  | .ok repo =>
    match source.tryFetch client repo with
    | .error e => (store, .error e.display)
    | .ok items =>
      let ingested := ingestItems items store
      (ingested.1, .ok ingested.2)

variable {debug}

/-- **What is accepted**: two non-empty parts without a slash, joined by one. -/
theorem parseRepo_eq_ok_iff {spec : String} {repo : Repo} :
    parseRepo debug spec = .ok repo ↔ spec = repo.owner ++ "/" ++ repo.name ∧
      repo.owner ≠ "" ∧ repo.name ≠ "" ∧ '/' ∉ repo.owner.toList ∧ '/' ∉ repo.name.toList := by
  constructor
  · intro h
    unfold parseRepo at h
    cases hsplit : splitOnce '/' spec.toList with
    | none => simp [hsplit] at h
    | some parts =>
      obtain ⟨owner, name⟩ := parts
      obtain ⟨howner, hspec⟩ := splitOnce_eq_some_iff.mp hsplit
      simp only [hsplit] at h
      split_ifs at h with hparts
      obtain ⟨hne, hne', hname⟩ := hparts
      obtain rfl := Except.ok.inj h
      refine ⟨?_, ?_, ?_, by simpa using howner, by simpa using hname⟩
      · rw [← String.toList_inj, hspec]
        simp
      · simpa using hne
      · simpa using hne'
  · rintro ⟨rfl, hne, hne', howner, hname⟩
    have hlist : (repo.owner ++ "/" ++ repo.name).toList =
        repo.owner.toList ++ '/' :: repo.name.toList := by simp
    unfold parseRepo
    rw [hlist, splitOnce_append_cons howner]
    simp [hne, hne', hname]

theorem slashFree_of_parseRepo {spec : String} {repo : Repo} (h : parseRepo debug spec = .ok repo) :
    repo.SlashFree := by
  obtain ⟨-, -, -, howner, hname⟩ := parseRepo_eq_ok_iff.mp h
  exact ⟨howner, hname⟩

/-- A command whose fetch succeeds ingests the fetched items. -/
theorem githubIngestRest_of_ok {client : GitHubClient} {source : RestGitHubSource} {spec : String}
    {repo : Repo} {items : List GitHubItem} (hrepo : parseRepo debug spec = .ok repo)
    (hitems : source.tryFetch client repo = .ok items) (store : MessageLog) :
    githubIngestRest debug store client source spec =
      ((ingestItems items store).1, .ok (ingestItems items store).2) := by
  unfold githubIngestRest
  simp only [hrepo, hitems]

/-- A failed command leaves the log as it was. -/
theorem githubIngestRest_of_error {store : MessageLog} {client : GitHubClient}
    {source : RestGitHubSource} {spec e : String}
    (h : (githubIngestRest debug store client source spec).2 = .error e) :
    (githubIngestRest debug store client source spec).1 = store := by
  unfold githubIngestRest at h ⊢
  cases hrepo : parseRepo debug spec with
  | error e => rfl
  | ok repo =>
    simp only [hrepo] at h
    cases hitems : source.tryFetch client repo with
    | error e => simp only [hitems]
    | ok items => simp [hitems] at h

end Github

end Mirrorlane
