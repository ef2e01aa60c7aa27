import Mirrorlane.Core.Stores
import Mirrorlane.Provider.Skill

/-!
# What the skill index says about a topic

`ownershipOf contributions topic` is what a skill store that was filled from the index holds for
the topic.  It is there exactly when some contribution has the topic (`isSome_ownershipOf`), and it
depends on nothing but the *evidence* for the topic: for each author, the confidences of their
contributions to it, and the last-seen display name of an author who has any
(`ownershipOf_eq_of_evidence`).
-/

namespace Mirrorlane

namespace MessageSkillBuilder

variable {r : Rounding}

/-- The ownership of a topic in the index of some contributions. -/
def ownershipOf (r : Rounding) (contributions : List SkillContribution) (topic : Topic) :
    Option TopicOwnership :=
  (UpsertStore.empty.upsertAll (build r contributions).ownerships : InMemorySkillStore) topic

/-! ### Evidence -/

/-- The contributions of one author. -/
def byAuthor (contributions : List SkillContribution) (author : String) : List SkillContribution :=
  contributions.filter fun c => c.author.val = author

/-- The confidences an author touched a topic with, in order. -/
def touches (contributions : List SkillContribution) (author topic : String) : List ℚ :=
  (byAuthor contributions author).flatMap fun c =>
    (c.topics.filter fun t => t.val = topic).map fun _ => c.confidence.get

/-- The last-seen display name of an author. -/
def lastName (contributions : List SkillContribution) (author : String) : Option String :=
  (byAuthor contributions author).getLast?.map SkillContribution.displayName

/-- The sum of some confidences as it is rounded, if there are any. -/
def total (r : Rounding) (confidences : List ℚ) : Option ℚ :=
  confidences.foldl (fun weight confidence => some (r.round (weight.getD 0 + confidence))) none

theorem isSome_total {confidences : List ℚ} : (total r confidences).isSome ↔ confidences ≠ [] := by
  induction confidences using List.reverseRecOn with
  | nil => simp [total]
  | append_singleton confidences confidence _ => simp [total]

/-! ### The tally -/

/-- The topic weights of one author: the fold over their contributions. -/
def weights (r : Rounding) (contributions : List SkillContribution) (author : String) :
    SortedAssoc String ℚ :=
  (byAuthor contributions author).foldl
    (fun topics c => c.topics.foldl (addTopic r c.confidence) topics) .empty

theorem get_perAuthor (contributions : List SkillContribution) (author : String) :
    (perAuthor r contributions).get author =
      (lastName contributions author).map fun name => (name, weights r contributions author) := by
  have hfold : (perAuthor r contributions).get author =
      (byAuthor contributions author).foldl (fun entry c => some (c.displayName,
        c.topics.foldl (addTopic r c.confidence) ((entry.map Prod.snd).getD .empty))) none :=
    SortedAssoc.get_foldl_alter _ _ _ _ _
  rw [hfold, lastName, weights]
  -- the fold keeps the last display name and the weights so far
  induction byAuthor contributions author using List.reverseRecOn with
  | nil => rfl
  | append_singleton cs c ih =>
    rw [List.foldl_append, ih, List.foldl_append, List.getLast?_append]
    cases h : cs.getLast? with
    | none =>
      rw [List.getLast?_eq_none_iff.mp h]
      rfl
    | some last => rfl

theorem get_weights (contributions : List SkillContribution) (author topic : String) :
    (weights r contributions author).get topic = total r (touches contributions author topic) := by
  have hfold : ∀ (cs : List SkillContribution) (m : SortedAssoc String ℚ),
      (cs.foldl (fun topics c => c.topics.foldl (addTopic r c.confidence) topics) m).get topic =
        (cs.flatMap fun c => (c.topics.filter fun t => t.val = topic).map fun _ =>
          c.confidence.get).foldl
          (fun weight confidence => some (r.round (weight.getD 0 + confidence))) (m.get topic) := by
    intro cs
    induction cs with
    | nil => exact fun _ => rfl
    | cons c cs ih =>
      intro m
      have htopics : (c.topics.foldl (addTopic r c.confidence) m).get topic =
          (c.topics.filter fun t => t.val = topic).foldl
            (fun weight _ => some (r.round (weight.getD 0 + c.confidence.get))) (m.get topic) :=
        SortedAssoc.get_foldl_alter _ _ _ _ _
      rw [List.foldl_cons, ih, List.flatMap_cons, List.foldl_append, htopics, List.foldl_map]
  exact hfold _ _

/-! ### The inverted tally -/

/-- An entry's share in a topic. -/
def shareIn (topic author : String) (entry : String × SortedAssoc String ℚ) :
    Option Contributor :=
  (entry.2.get topic).map fun weight => ⟨author, entry.1, weight⟩

/-- The contributors to a topic, in author order. -/
def contributorsTo (tally : PerAuthor) (topic : String) : List Contributor :=
  tally.entries.filterMap fun entry => shareIn topic entry.1 entry.2

/-- Push a contributor on a topic's list, which is there from the first push on. -/
def push (contributors : Option (List Contributor)) (c : Contributor) :
    Option (List Contributor) :=
  some (contributors.getD [] ++ [c])

theorem foldl_push (cs : List Contributor) :
    cs.foldl push none = if cs = [] then none else some cs := by
  induction cs using List.reverseRecOn with
  | nil => rfl
  | append_singleton cs c ih =>
    rw [List.foldl_append, ih]
    by_cases h : cs = [] <;> simp [push, h]

/-- One author pushes at most one contributor on a topic. -/
theorem get_invertAuthor (m : PerTopic) (entry : String × String × SortedAssoc String ℚ)
    (topic : String) :
    (invertAuthor m entry).get topic =
      (shareIn topic entry.1 entry.2).toList.foldl push (m.get topic) := by
  have hfold : (invertAuthor m entry).get topic =
      (entry.2.2.entries.filter fun share => share.1 = topic).foldl (fun contributors share =>
        some (contributors.getD [] ++ [⟨entry.1, entry.2.1, share.2⟩])) (m.get topic) :=
    SortedAssoc.get_foldl_alter _ _ _ _ _
  -- an author's topics are the keys of a map, so at most one of them is `topic`
  rw [hfold, SortedAssoc.entries_filter, shareIn]
  cases entry.2.2.get topic <;> rfl

theorem get_foldl_invertAuthor (topic : String)
    (entries : List (String × String × SortedAssoc String ℚ)) (m : PerTopic) :
    (entries.foldl invertAuthor m).get topic =
      (entries.filterMap fun entry => shareIn topic entry.1 entry.2).foldl push (m.get topic) := by
  induction entries generalizing m with
  | nil => rfl
  | cons entry entries ih =>
    rw [List.foldl_cons, ih, get_invertAuthor, List.filterMap_cons]
    cases shareIn topic entry.1 entry.2 <;> rfl

theorem get_perTopic (tally : PerAuthor) (topic : String) :
    (perTopic tally).get topic =
      if contributorsTo tally topic = [] then none else some (contributorsTo tally topic) := by
  unfold perTopic
  rw [get_foldl_invertAuthor]
  exact foldl_push _

/-- A stored ownership is that of the topic's contributors. -/
theorem ownershipOf_eq (contributions : List SkillContribution) (topic : Topic) :
    ownershipOf r contributions topic =
      ((perTopic (perAuthor r contributions)).get topic.val).map (ownership r topic.val) := by
  have hkeys : ((build r contributions).ownerships.map TopicOwnership.topic).Nodup := by
    have hmap : (build r contributions).ownerships.map TopicOwnership.topic =
        (perTopic (perAuthor r contributions)).keys.map Topic.mk := by
      unfold build
      rw [SortedAssoc.keys, List.map_map, List.map_map]
      rfl
    rw [hmap]
    exact (SortedAssoc.nodup_keys _).map fun a b h => Topic.mk.inj h
  refine Option.ext fun o => ?_
  unfold ownershipOf
  rw [UpsertStore.upsertAll_empty_eq_some_iff hkeys, build, List.mem_map, Option.map_eq_some_iff]
  constructor
  · rintro ⟨⟨entry, hentry, rfl⟩, rfl⟩
    exact ⟨entry.2, SortedAssoc.mem_entries.mp hentry, rfl⟩
  · rintro ⟨contributors, hget, rfl⟩
    exact ⟨⟨(topic.val, contributors), SortedAssoc.mem_entries.mpr hget, rfl⟩, rfl⟩

/-! ### Topics and locality -/

/-- The share of an author in a topic, from the evidence. -/
theorem bind_shareIn (contributions : List SkillContribution) (topic author : String) :
    ((perAuthor r contributions).get author).bind (shareIn topic author) =
      (lastName contributions author).bind fun name =>
        (total r (touches contributions author topic)).map fun weight =>
          ⟨author, name, weight⟩ := by
  rw [get_perAuthor]
  cases lastName contributions author with
  | none => rfl
  | some name =>
    show (((weights r contributions author).get topic).map _ : Option Contributor) = _
    rw [get_weights]
    rfl

/-- The authors of the contributors to a topic are those with a share in it, once each. -/
theorem map_author_contributorsTo (tally : PerAuthor) (topic : String) :
    (contributorsTo tally topic).map Contributor.author =
      (tally.filterMap (shareIn topic)).keys := by
  unfold contributorsTo SortedAssoc.keys SortedAssoc.filterMap
  rw [List.map_filterMap, List.map_filterMap]
  refine List.filterMap_congr fun entry _ => ?_
  unfold shareIn
  cases entry.2.2.get topic <;> rfl

/-- An author touched a topic when one of their contributions has it. -/
theorem touches_ne_nil_iff {contributions : List SkillContribution} {author : String}
    {topic : Topic} :
    touches contributions author topic.val ≠ [] ↔
      ∃ c ∈ byAuthor contributions author, topic ∈ c.topics := by
  constructor
  · intro h
    obtain ⟨x, hx⟩ := List.exists_mem_of_ne_nil _ h
    obtain ⟨c, hc, hx⟩ := List.mem_flatMap.mp hx
    obtain ⟨t, ht, -⟩ := List.mem_map.mp hx
    obtain ⟨htmem, hteq⟩ := List.mem_filter.mp ht
    have ht' : t = topic := by
      cases t
      cases topic
      simpa using hteq
    exact ⟨c, hc, ht' ▸ htmem⟩
  · rintro ⟨c, hc, ht⟩
    have htopic : topic ∈ c.topics.filter fun t => t.val = topic.val :=
      List.mem_filter.mpr ⟨ht, by simp⟩
    have htouch : c.confidence.get ∈ touches contributions author topic.val :=
      List.mem_flatMap.mpr ⟨c, hc, List.mem_map.mpr ⟨topic, htopic, rfl⟩⟩
    exact List.ne_nil_of_mem htouch

/-- An author contributes to a topic when one of their contributions has it. -/
theorem mem_author_contributorsTo {contributions : List SkillContribution} {author : String}
    {topic : Topic} :
    author ∈ (contributorsTo (perAuthor r contributions) topic.val).map Contributor.author ↔
      ∃ c ∈ contributions, c.author.val = author ∧ topic ∈ c.topics := by
  rw [map_author_contributorsTo, SortedAssoc.mem_keys, SortedAssoc.get_filterMap, bind_shareIn]
  have hby : ∀ {c}, c ∈ byAuthor contributions author ↔
      c ∈ contributions ∧ c.author.val = author := by simp [byAuthor]
  constructor
  · intro hbind
    have htouches : touches contributions author topic.val ≠ [] := by
      rw [← isSome_total, ← Option.ne_none_iff_isSome]
      intro hnone
      rw [hnone] at hbind
      cases hn : lastName contributions author <;> simp [hn] at hbind
    obtain ⟨c, hc, ht⟩ := touches_ne_nil_iff.mp htouches
    exact ⟨c, (hby.mp hc).1, (hby.mp hc).2, ht⟩
  · rintro ⟨c, hc, hauthor, ht⟩
    -- the author of the contribution has a name and a weight
    have hmem : c ∈ byAuthor contributions author := hby.mpr ⟨hc, hauthor⟩
    have htouches : touches contributions author topic.val ≠ [] :=
      touches_ne_nil_iff.mpr ⟨c, hmem, ht⟩
    obtain ⟨weight, hweight⟩ := Option.isSome_iff_exists.mp (isSome_total.mpr htouches)
    obtain ⟨last, hlast⟩ :=
      Option.isSome_iff_exists.mp (List.getLast?_isSome.mpr (List.ne_nil_of_mem hmem))
    unfold lastName
    rw [hlast, hweight]
    rfl

/-- **The index covers exactly the topics of the contributions.** -/
theorem isSome_ownershipOf {contributions : List SkillContribution} {topic : Topic} :
    (ownershipOf r contributions topic).isSome ↔ ∃ c ∈ contributions, topic ∈ c.topics := by
  rw [ownershipOf_eq, Option.isSome_map, get_perTopic]
  have hsome : (if contributorsTo (perAuthor r contributions) topic.val = [] then none
      else some (contributorsTo (perAuthor r contributions) topic.val)).isSome ↔
      (contributorsTo (perAuthor r contributions) topic.val).map Contributor.author ≠ [] := by
    split_ifs with h <;> simp [h]
  rw [hsome]
  constructor
  · intro hauthors
    obtain ⟨author, hauthor⟩ := List.exists_mem_of_ne_nil _ hauthors
    obtain ⟨c, hc, -, ht⟩ := mem_author_contributorsTo.mp hauthor
    exact ⟨c, hc, ht⟩
  · rintro ⟨c, hc, ht⟩
    exact List.ne_nil_of_mem (mem_author_contributorsTo.mpr ⟨c, hc, rfl, ht⟩)

/-! ### Candidates -/

/-- The candidates on a topic are its contributors, ranked. -/
theorem map_author_candidates {contributions : List SkillContribution} {topic : Topic}
    {o : TopicOwnership} (h : ownershipOf r contributions topic = some o) :
    (o.candidates.map ExpertCandidate.author).Perm
      (((contributorsTo (perAuthor r contributions) topic.val).map Contributor.author).map
        AuthorId.mk) := by
  rw [ownershipOf_eq, get_perTopic] at h
  split_ifs at h
  · cases h
  · have ho : ownership r topic.val (contributorsTo (perAuthor r contributions) topic.val) = o :=
      Option.some.inj h
    rw [← ho]
    refine ((List.perm_insertionSort rankedBefore _).map ExpertCandidate.author).trans ?_
    rw [List.map_map, List.map_map]
    exact List.Perm.refl _

/-- **An author is a candidate on a topic when one of their contributions has it.** -/
theorem mem_author_candidates {contributions : List SkillContribution} {topic : Topic}
    {o : TopicOwnership} (h : ownershipOf r contributions topic = some o) {author : AuthorId} :
    author ∈ o.candidates.map ExpertCandidate.author ↔
      ∃ c ∈ contributions, c.author = author ∧ topic ∈ c.topics := by
  have hinj : Function.Injective AuthorId.mk := fun a b hab => AuthorId.mk.inj hab
  rw [(map_author_candidates h).mem_iff]
  show AuthorId.mk author.val ∈ _ ↔ _
  rw [List.mem_map_of_injective hinj, mem_author_contributorsTo]
  simp only [AuthorId.val_inj]

/-- No author is twice a candidate on a topic. -/
theorem nodup_author_candidates {contributions : List SkillContribution} {topic : Topic}
    {o : TopicOwnership} (h : ownershipOf r contributions topic = some o) :
    (o.candidates.map ExpertCandidate.author).Nodup := by
  rw [(map_author_candidates h).nodup_iff, map_author_contributorsTo]
  exact (SortedAssoc.nodup_keys _).map fun a b hab => AuthorId.mk.inj hab

/-- **Locality.** Two lists of contributions with the same evidence for a topic give the topic the
same ownership. -/
theorem ownershipOf_eq_of_evidence {contributions contributions' : List SkillContribution}
    {topic : Topic}
    (htouches : ∀ author,
      touches contributions author topic.val = touches contributions' author topic.val)
    (hname : ∀ author, touches contributions author topic.val ≠ [] →
      lastName contributions author = lastName contributions' author) :
    ownershipOf r contributions topic = ownershipOf r contributions' topic := by
  have hbind : ∀ author,
      ((perAuthor r contributions).get author).bind (shareIn topic.val author) =
        ((perAuthor r contributions').get author).bind (shareIn topic.val author) := by
    intro author
    rw [bind_shareIn, bind_shareIn, ← htouches]
    -- the name of an author without a touch is never read
    by_cases h : touches contributions author topic.val = []
    · have hnone : total r (touches contributions author topic.val) = none := by rw [h]; rfl
      rw [hnone]
      cases lastName contributions author <;> cases lastName contributions' author <;> rfl
    · rw [hname author h]
  have hcontributors : contributorsTo (perAuthor r contributions) topic.val =
      contributorsTo (perAuthor r contributions') topic.val :=
    SortedAssoc.entries_filterMap_congr hbind
  rw [ownershipOf_eq, ownershipOf_eq, get_perTopic, get_perTopic, hcontributors]

end MessageSkillBuilder

end Mirrorlane
