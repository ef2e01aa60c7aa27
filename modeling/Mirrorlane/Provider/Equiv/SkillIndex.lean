import Mathlib.Algebra.Order.BigOperators.Group.List
import Mirrorlane.Provider.Equiv.Ranking
import Mirrorlane.Provider.Equiv.Skill

/-!
# The index is the normalized ranking of the weights

`weight contributions author topic` adds the confidences of the author's contributions, each as
often as the contribution lists the topic.  `RanksTopic` says that an ownership is the normalized
ranking of these weights and `Computes` that an index is the whole table, read by topic in its
ownerships and by author in its profiles.  In exact arithmetic the builder computes it
(`build_computes`).  Weights do not depend on the order of the contributions, so scores and ranking
do not either.
-/

namespace Mirrorlane

namespace MessageSkillBuilder

variable {r : Rounding}

/-! ### Weights -/

/-- The confidences of an author's contributions, each counted as often as it lists the topic. -/
def weight (contributions : List SkillContribution) (author : AuthorId) (topic : Topic) : ℚ :=
  ((contributions.filter fun c => c.author = author).map fun c =>
    c.confidence.get * (c.topics.count topic : ℚ)).sum

theorem weight_nonneg (contributions : List SkillContribution) (author : AuthorId)
    (topic : Topic) : 0 ≤ weight contributions author topic := by
  unfold weight
  refine List.sum_nonneg fun x hx => ?_
  obtain ⟨c, -, rfl⟩ := List.mem_map.mp hx
  exact mul_nonneg c.confidence.get_nonneg (Nat.cast_nonneg _)

/-- An author has no weight on a topic that none of their contributions lists. -/
theorem weight_eq_zero {contributions : List SkillContribution} {author : AuthorId} {topic : Topic}
    (h : ¬∃ c ∈ contributions, c.author = author ∧ topic ∈ c.topics) :
    weight contributions author topic = 0 := by
  unfold weight
  refine List.sum_eq_zero fun x hx => ?_
  obtain ⟨c, hc, rfl⟩ := List.mem_map.mp hx
  obtain ⟨hmem, hauthor⟩ := List.mem_filter.mp hc
  have hcount : c.topics.count topic = 0 :=
    List.count_eq_zero.mpr fun ht => h ⟨c, hmem, of_decide_eq_true hauthor, ht⟩
  rw [hcount, Nat.cast_zero, mul_zero]

/-- The order of the contributions does not matter. -/
theorem weight_perm {contributions contributions' : List SkillContribution}
    (h : contributions.Perm contributions') (author : AuthorId) (topic : Topic) :
    weight contributions author topic = weight contributions' author topic :=
  ((h.filter _).map _).sum_eq

/-- The fold over the topic occurrences adds them up, with the rounding of each addition. -/
theorem total_eq (confidences : List ℚ) :
    total r confidences =
      if confidences = [] then none else some (r.roundedSum confidences) := by
  induction confidences using List.reverseRecOn with
  | nil => rfl
  | append_singleton confidences confidence ih =>
    have hfold : total r (confidences ++ [confidence]) =
        some (r.round ((total r confidences).getD 0 + confidence)) := by
      unfold total
      rw [List.foldl_append]
      rfl
    have hne : confidences ++ [confidence] ≠ [] := by simp
    rw [hfold, ih, if_neg hne, Rounding.roundedSum_concat]
    split_ifs with hnil
    · rw [hnil]
      rfl
    · rfl

/-- The occurrences of a topic in a list of topics. -/
theorem map_occurrences (topics : List Topic) (topic : Topic) (x : ℚ) :
    (topics.filter fun t => t.val = topic.val).map (fun _ => x) =
      List.replicate (topics.count topic) x := by
  have hcount : (topics.filter fun t => t.val = topic.val).length = topics.count topic := by
    rw [← List.countP_eq_length_filter]
    refine List.countP_congr fun t _ => ?_
    cases t
    cases topic
    simp
  rw [List.map_const', hcount]

theorem sum_touches (contributions : List SkillContribution) (author : AuthorId) (topic : Topic) :
    (touches contributions author.val topic.val).sum = weight contributions author topic := by
  have hby : byAuthor contributions author.val =
      contributions.filter fun c => c.author = author := by
    unfold byAuthor
    simp only [AuthorId.val_inj]
  unfold touches weight
  rw [hby]
  induction contributions.filter fun c => c.author = author with
  | nil => rfl
  | cons c cs ih =>
    rw [List.flatMap_cons, List.sum_append, map_occurrences, List.sum_replicate, ih, List.map_cons,
      List.sum_cons, nsmul_eq_mul, mul_comm]

/-- What the builder adds up, in exact arithmetic. -/
theorem roundedSum_touches (contributions : List SkillContribution) (author : AuthorId)
    (topic : Topic) : Rounding.exact.roundedSum (touches contributions author.val topic.val) =
      weight contributions author topic :=
  (Rounding.roundedSum_exact _).trans (sum_touches contributions author topic)

/-! ### Contributors -/

/-- **The contributors to a topic**: their last-seen names and what they are tallied. -/
theorem mem_contributorsTo {contributions : List SkillContribution} {topic : Topic}
    {c : Contributor} :
    c ∈ contributorsTo (perAuthor r contributions) topic.val ↔
      lastName contributions c.author = some c.displayName ∧
        (∃ contribution ∈ contributions, contribution.author.val = c.author ∧
          topic ∈ contribution.topics) ∧
        c.weight = r.roundedSum (touches contributions c.author topic.val) := by
  have hget : c ∈ contributorsTo (perAuthor r contributions) topic.val ↔
      ((perAuthor r contributions).get c.author).bind (shareIn topic.val c.author) = some c := by
    unfold contributorsTo
    rw [List.mem_filterMap, Option.bind_eq_some_iff]
    constructor
    · rintro ⟨entry, hentry, hshare⟩
      obtain ⟨w, -, rfl⟩ := Option.map_eq_some_iff.mp hshare
      exact ⟨entry.2, SortedAssoc.mem_entries.mp hentry, hshare⟩
    · rintro ⟨value, hvalue, hshare⟩
      exact ⟨(c.author, value), SortedAssoc.mem_entries.mpr hvalue, hshare⟩
  have htouched : touches contributions c.author topic.val ≠ [] ↔
      ∃ contribution ∈ contributions, contribution.author.val = c.author ∧
        topic ∈ contribution.topics := by
    rw [touches_ne_nil_iff]
    simp only [byAuthor, List.mem_filter, decide_eq_true_eq, and_assoc]
  rw [hget, bind_shareIn, total_eq, ← htouched]
  cases hname : lastName contributions c.author with
  | none => simp
  | some name =>
    by_cases hnil : touches contributions c.author topic.val = []
    · simp [hnil]
    · cases c
      simp [hnil, eq_comm]

theorem nodup_contributorsTo (tally : PerAuthor) (topic : String) :
    ((contributorsTo tally topic).map Contributor.author).Nodup := by
  rw [map_author_contributorsTo]
  exact SortedAssoc.nodup_keys _

/-! ### Ownerships -/

theorem pairwise_topic_ownerships (contributions : List SkillContribution) :
    (build r contributions).ownerships.Pairwise fun o o' => o.topic.val < o'.topic.val := by
  unfold build
  rw [List.pairwise_map]
  exact (perTopic (perAuthor r contributions)).sorted

theorem nodup_topic_ownerships (contributions : List SkillContribution) :
    ((build r contributions).ownerships.map TopicOwnership.topic).Nodup := by
  rw [List.Nodup, List.pairwise_map]
  exact (pairwise_topic_ownerships contributions).imp fun hlt heq =>
    hlt.ne (congrArg Topic.val heq)

/-- The store of an index holds its ownerships. -/
theorem ownershipOf_eq_some_iff {contributions : List SkillContribution} {topic : Topic}
    {o : TopicOwnership} :
    ownershipOf r contributions topic = some o ↔
      o ∈ (build r contributions).ownerships ∧ o.topic = topic :=
  UpsertStore.upsertAll_empty_eq_some_iff (nodup_topic_ownerships contributions)

theorem candidates_of_mem_ownerships {contributions : List SkillContribution} {o : TopicOwnership}
    (h : o ∈ (build r contributions).ownerships) :
    o.candidates = ranked r (contributorsTo (perAuthor r contributions) o.topic.val) := by
  have hown := ownershipOf_eq_some_iff.mpr ⟨h, rfl⟩
  rw [ownershipOf_eq, get_perTopic] at hown
  split_ifs at hown
  · cases hown
  · rw [Option.map_some, Option.some.injEq] at hown
    rw [← candidates_ownership o.topic.val, hown]

/-- Who does not contribute to a topic has no weight on it. -/
theorem weight_of_not_mem_contributorsTo {contributions : List SkillContribution}
    {author : AuthorId} {topic : Topic} (h : author.val ∉
      (contributorsTo (perAuthor r contributions) topic.val).map Contributor.author) :
    weight contributions author topic = 0 := by
  refine weight_eq_zero fun ⟨c, hc, hsame, ht⟩ => h ?_
  exact mem_author_contributorsTo.mpr ⟨c, hc, congrArg AuthorId.val hsame, ht⟩

/-- An ownership is the normalized ranking of the weights on its topic. -/
structure RanksTopic (contributions : List SkillContribution) (o : TopicOwnership) : Prop where
  /-- The candidates are the authors with a contribution that lists the topic. -/
  authors : ∀ author, author ∈ o.candidates.map ExpertCandidate.author ↔
    ∃ c ∈ contributions, c.author = author ∧ o.topic ∈ c.topics
  /-- Each is there once. -/
  once : (o.candidates.map ExpertCandidate.author).Nodup
  /-- They have their last-seen display names. -/
  names : ∀ candidate ∈ o.candidates,
    lastName contributions candidate.author.val = some candidate.displayName
  /-- Their scores are their shares of the largest weight. -/
  scores : ∃ max, IsGreatest (Set.range fun author => weight contributions author o.topic) max ∧
    ∀ candidate ∈ o.candidates, candidate.score.get =
      if max = 0 then 0 else weight contributions candidate.author o.topic / max
  unit : ∀ candidate ∈ o.candidates, 0 ≤ candidate.score.get ∧ candidate.score.get ≤ 1
  /-- Best score first, ties by author id. -/
  sorted : o.candidates.Pairwise fun a b =>
    b.score.get < a.score.get ∨ b.score.get = a.score.get ∧ a.author.val < b.author.val
  /-- The best candidate scores `1` when anyone has a weight. -/
  best : (∃ author, 0 < weight contributions author o.topic) →
    ∃ first, o.candidates.head? = some first ∧ first.score.get = 1

theorem ranksTopic_of_mem {contributions : List SkillContribution} {o : TopicOwnership}
    (h : o ∈ (build .exact contributions).ownerships) : RanksTopic contributions o := by
  have hown := ownershipOf_eq_some_iff.mpr ⟨h, rfl⟩
  have hcandidates := candidates_of_mem_ownerships h
  have hweight : ∀ c ∈ contributorsTo (perAuthor .exact contributions) o.topic.val,
      c.weight = weight contributions ⟨c.author⟩ o.topic := fun c hc =>
    (mem_contributorsTo.mp hc).2.2.trans (roundedSum_touches contributions ⟨c.author⟩ o.topic)
  have hnonneg : ∀ author : String, 0 ≤ weight contributions ⟨author⟩ o.topic := fun author =>
    weight_nonneg _ _ _
  have hnodup := nodup_contributorsTo (perAuthor .exact contributions) o.topic.val
  have hmax : IsGreatest (Set.range fun author => weight contributions author o.topic)
      (largestWeight (contributorsTo (perAuthor .exact contributions) o.topic.val)) :=
    isGreatest_largestWeight hweight (fun author => hnonneg author.val) fun author =>
      weight_of_not_mem_contributorsTo
  refine ⟨fun author => mem_author_candidates hown, nodup_author_candidates hown, ?_,
    ⟨_, hmax, ?_⟩, fun candidate _ =>
      ⟨candidate.score.get_nonneg, candidate.score.get_le_one⟩, ?_, ?_⟩
  · intro candidate hcandidate
    rw [hcandidates] at hcandidate
    obtain ⟨c, hc, rfl⟩ := mem_ranked.mp hcandidate
    exact (mem_contributorsTo.mp hc).1
  · intro candidate hcandidate
    rw [hcandidates] at hcandidate
    exact score_eq_share hweight hnonneg hcandidate
  · rw [hcandidates]
    exact pairwise_ranked hnodup
  · rintro ⟨author, hpos⟩
    rw [hcandidates]
    refine head?_ranked hweight hnonneg hnodup ?_
    -- who has a weight is a contributor
    have hmem : author.val ∈
        (contributorsTo (perAuthor .exact contributions) o.topic.val).map Contributor.author := by
      by_contra hnot
      exact hpos.ne' (weight_of_not_mem_contributorsTo hnot)
    obtain ⟨c, hc, hauthor⟩ := List.mem_map.mp hmem
    refine ⟨c, hc, ?_⟩
    rw [hweight c hc, hauthor]
    exact hpos

/-! ### Profiles -/

/-- A profile is the row of an author: their topics in order, with their weights. -/
structure ListsTopics (contributions : List SkillContribution) (p : DeveloperProfile) : Prop where
  name : lastName contributions p.author.val = some p.displayName
  sorted : p.topics.Pairwise fun w w' => w.topic.val < w'.topic.val
  topics : ∀ topic, topic ∈ p.topics.map TopicWeight.topic ↔
    ∃ c ∈ contributions, c.author = p.author ∧ topic ∈ c.topics
  weights : ∀ w ∈ p.topics, w.weight = weight contributions p.author w.topic

theorem get_weights_eq (contributions : List SkillContribution) (author : AuthorId)
    (topic : Topic) :
    (weights .exact contributions author.val).get topic.val =
      if touches contributions author.val topic.val = [] then none
      else some (weight contributions author topic) := by
  rw [get_weights, total_eq, roundedSum_touches]

/-- A contribution of the author lists the topic. -/
theorem touches_ne_nil_iff_exists {contributions : List SkillContribution} {author : AuthorId}
    {topic : Topic} :
    touches contributions author.val topic.val ≠ [] ↔
      ∃ c ∈ contributions, c.author = author ∧ topic ∈ c.topics := by
  rw [touches_ne_nil_iff]
  simp only [byAuthor, List.mem_filter, decide_eq_true_eq, and_assoc, AuthorId.val_inj]

theorem listsTopics_of_mem {contributions : List SkillContribution} {p : DeveloperProfile}
    (h : p ∈ (build .exact contributions).profiles) : ListsTopics contributions p := by
  obtain ⟨⟨author, name, topics⟩, hentry, rfl⟩ := List.mem_map.mp h
  -- the entry of an author holds their last name and their weights
  have hget : (perAuthor .exact contributions).get author = some (name, topics) :=
    SortedAssoc.mem_entries.mp hentry
  rw [get_perAuthor, Option.map_eq_some_iff] at hget
  obtain ⟨last, hlast, heq⟩ := hget
  obtain ⟨rfl, rfl⟩ := Prod.mk.inj heq
  have hmem : ∀ w : TopicWeight,
      w ∈ (profile (author, last, weights .exact contributions author)).topics ↔
        (weights .exact contributions author).get w.topic.val = some w.weight := by
    intro w
    have hshare : w ∈ (profile (author, last, weights .exact contributions author)).topics ↔
        (w.topic.val, w.weight) ∈ (weights .exact contributions author).entries := by
      unfold profile
      rw [List.mem_map]
      constructor
      · rintro ⟨share, hshare, rfl⟩
        exact hshare
      · exact fun hshare => ⟨_, hshare, rfl⟩
    rw [hshare, SortedAssoc.mem_entries]
  have hget := get_weights_eq contributions ⟨author⟩
  refine ⟨hlast, ?_, fun topic => ?_, fun w hw => ?_⟩
  · unfold profile
    rw [List.pairwise_map]
    exact (weights .exact contributions author).sorted
  · rw [List.mem_map]
    show _ ↔ ∃ c ∈ contributions, c.author = ⟨author⟩ ∧ topic ∈ c.topics
    rw [← touches_ne_nil_iff_exists]
    constructor
    · rintro ⟨w, hw, rfl⟩ hnil
      have hsome := (hmem w).mp hw
      rw [hget w.topic, if_pos hnil] at hsome
      cases hsome
    · intro htouched
      refine ⟨⟨topic, weight contributions ⟨author⟩ topic⟩, (hmem _).mpr ?_, rfl⟩
      rw [hget topic, if_neg htouched]
  · have hsome := (hmem w).mp hw
    rw [hget w.topic] at hsome
    split_ifs at hsome
    exact (Option.some.inj hsome).symm

theorem pairwise_author_profiles (contributions : List SkillContribution) :
    (build r contributions).profiles.Pairwise fun p p' => p.author.val < p'.author.val := by
  unfold build
  rw [List.pairwise_map]
  exact (perAuthor r contributions).sorted

/-- Every author of a contribution has a profile, also one without topics. -/
theorem mem_author_profiles {contributions : List SkillContribution} {author : AuthorId} :
    author ∈ (build r contributions).profiles.map DeveloperProfile.author ↔
      ∃ c ∈ contributions, c.author = author := by
  have hkeys : author ∈ (build r contributions).profiles.map DeveloperProfile.author ↔
      author.val ∈ (perAuthor r contributions).keys := by
    have hmap : (build r contributions).profiles.map DeveloperProfile.author =
        (perAuthor r contributions).keys.map AuthorId.mk := by
      unfold build SortedAssoc.keys
      rw [List.map_map, List.map_map]
      rfl
    rw [hmap]
    exact List.mem_map_of_injective fun a b hab => AuthorId.mk.inj hab
  rw [hkeys, SortedAssoc.mem_keys, get_perAuthor, Option.isSome_map, lastName, Option.isSome_map,
    List.getLast?_isSome]
  unfold byAuthor
  rw [Ne, List.filter_eq_nil_iff]
  simp [AuthorId.val_inj]

/-! ### The index -/

/-- The scores of an index: per topic the ranked authors with their scores. -/
def scoreTable (index : SkillIndex) : List (Topic × List (AuthorId × SkillScore)) :=
  index.ownerships.map fun o => (o.topic, o.candidates.map fun c => (c.author, c.score))

/-- The index is the table of the weights, by topic and by author. -/
structure Computes (contributions : List SkillContribution) (index : SkillIndex) : Prop where
  /-- One ownership for each topic that occurs, in topic order. -/
  topics : ∀ topic, topic ∈ index.ownerships.map TopicOwnership.topic ↔
    ∃ c ∈ contributions, topic ∈ c.topics
  topics_sorted : index.ownerships.Pairwise fun o o' => o.topic.val < o'.topic.val
  ownerships : ∀ o ∈ index.ownerships, RanksTopic contributions o
  /-- One profile for each author, in author order. -/
  authors : ∀ author, author ∈ index.profiles.map DeveloperProfile.author ↔
    ∃ c ∈ contributions, c.author = author
  authors_sorted : index.profiles.Pairwise fun p p' => p.author.val < p'.author.val
  profiles : ∀ p ∈ index.profiles, ListsTopics contributions p

/-- Rankings by the same weights have the same authors and scores. -/
theorem RanksTopic.candidates_eq {contributions contributions' : List SkillContribution}
    {o o' : TopicOwnership} (h : RanksTopic contributions o) (h' : RanksTopic contributions' o')
    (htopic : o.topic = o'.topic) (hperm : contributions.Perm contributions') :
    o.candidates.map (fun c => (c.author, c.score)) =
      o'.candidates.map fun c => (c.author, c.score) := by
  obtain ⟨max, hmax, hscores⟩ := h.scores
  obtain ⟨max', hmax', hscores'⟩ := h'.scores
  have hweights : (fun author => weight contributions author o.topic) =
      fun author => weight contributions' author o'.topic := by
    funext author
    rw [htopic, weight_perm hperm]
  rw [← hweights] at hmax'
  have hsame : max' = max := hmax'.unique hmax
  have hauthors : ∀ author, author ∈ o.candidates.map ExpertCandidate.author ↔
      author ∈ o'.candidates.map ExpertCandidate.author := by
    intro author
    rw [h.authors, h'.authors, htopic]
    simp only [hperm.mem_iff]
  -- an author has one score
  have hscore : ∀ c ∈ o.candidates, ∀ c' ∈ o'.candidates, c.author = c'.author →
      c.score = c'.score := by
    intro c hc c' hc' hauthor
    refine SkillScore.get_inj ?_
    rw [hscores c hc, hscores' c' hc', hsame, hauthor, ← htopic, weight_perm hperm]
  have hsorted : ∀ {o : TopicOwnership}, (o.candidates.Pairwise fun a b =>
      b.score.get < a.score.get ∨ b.score.get = a.score.get ∧ a.author.val < b.author.val) →
      (o.candidates.map fun c => (c.author, c.score)).Pairwise fun a b =>
        b.2.get < a.2.get ∨ b.2.get = a.2.get ∧ a.1.val < b.1.val :=
    fun h => List.pairwise_map.mpr h
  refine eq_of_pairwise_of_mem bestFirst_asymm (hsorted h.sorted) (hsorted h'.sorted) fun pair => ?_
  constructor
  · intro hpair
    obtain ⟨c, hc, rfl⟩ := List.mem_map.mp hpair
    obtain ⟨c', hc', hauthor⟩ := List.mem_map.mp ((hauthors c.author).mp (List.mem_map_of_mem hc))
    refine List.mem_map.mpr ⟨c', hc', ?_⟩
    rw [hauthor, hscore c hc c' hc' hauthor.symm]
  · intro hpair
    obtain ⟨c', hc', rfl⟩ := List.mem_map.mp hpair
    obtain ⟨c, hc, hauthor⟩ :=
      List.mem_map.mp ((hauthors c'.author).mpr (List.mem_map_of_mem hc'))
    refine List.mem_map.mpr ⟨c, hc, ?_⟩
    rw [hauthor, hscore c hc c' hc' hauthor]

theorem mem_topic_ownerships {contributions : List SkillContribution} {topic : Topic} :
    topic ∈ (build r contributions).ownerships.map TopicOwnership.topic ↔
      ∃ c ∈ contributions, topic ∈ c.topics := by
  rw [← isSome_ownershipOf (r := r), Option.isSome_iff_exists, List.mem_map]
  simp only [ownershipOf_eq_some_iff]

/-- What one order of the contributions puts in the table, another does too. -/
theorem mem_scoreTable_of_perm {contributions contributions' : List SkillContribution}
    (hperm : contributions.Perm contributions') {row : Topic × List (AuthorId × SkillScore)}
    (h : row ∈ scoreTable (build .exact contributions)) :
    row ∈ scoreTable (build .exact contributions') := by
  obtain ⟨o, ho, rfl⟩ := List.mem_map.mp h
  have htopic : o.topic ∈ (build .exact contributions').ownerships.map TopicOwnership.topic := by
    rw [mem_topic_ownerships]
    simp only [← hperm.mem_iff]
    exact mem_topic_ownerships.mp (List.mem_map_of_mem ho)
  obtain ⟨o', ho', hsame⟩ := List.mem_map.mp htopic
  have hcandidates :=
    (ranksTopic_of_mem ho).candidates_eq (ranksTopic_of_mem ho') hsame.symm hperm
  exact List.mem_map.mpr ⟨o', ho', by rw [hsame, hcandidates]⟩

theorem scoreTable_perm {contributions contributions' : List SkillContribution}
    (hperm : contributions.Perm contributions') :
    scoreTable (build .exact contributions) = scoreTable (build .exact contributions') := by
  have hsorted : ∀ contributions, (scoreTable (build .exact contributions)).Pairwise fun row row' =>
      row.1.val < row'.1.val := fun contributions =>
    List.pairwise_map.mpr (pairwise_topic_ownerships contributions)
  refine eq_of_pairwise_of_mem lt_asymm (hsorted contributions) (hsorted contributions') ?_
  exact fun row => ⟨mem_scoreTable_of_perm hperm, mem_scoreTable_of_perm hperm.symm⟩

/-- **The builder computes the normalized ranking, and it does not depend on the order of the
contributions.** -/
theorem build_computes (contributions : List SkillContribution) :
    Computes contributions (build .exact contributions) ∧
      ∀ contributions', contributions.Perm contributions' →
        scoreTable (build .exact contributions) = scoreTable (build .exact contributions') where
  left :=
    { topics := fun _ => mem_topic_ownerships
      topics_sorted := pairwise_topic_ownerships contributions
      ownerships := fun _ => ranksTopic_of_mem
      authors := fun _ => mem_author_profiles
      authors_sorted := pairwise_author_profiles contributions
      profiles := fun _ => listsTopics_of_mem }
  right _ := scoreTable_perm

end MessageSkillBuilder

end Mirrorlane
