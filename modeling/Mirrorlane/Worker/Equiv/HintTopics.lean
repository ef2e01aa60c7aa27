import Mirrorlane.Foundation.Shares
import Mirrorlane.Provider.Equiv.HintRanking
import Mirrorlane.Provider.Equiv.SkillIndex
import Mirrorlane.Worker.Jobs

/-!
# What a hint reads of a topic list

`BuildRoutingHintJob` fetches one ownership for each element of a projection's topic list, so a
topic that is listed twice counts twice.  Two lists of the same topics give the same hint exactly
when the sums of the stored scores, taken over the lists with their repetitions, are proportional
and the last-seen names are the same (`stored_hints_eq_iff`).
-/

namespace Mirrorlane

open MessageSkillBuilder SkillRoutingHinter

/-! ### When two hints are equal -/

namespace SkillRoutingHinter

/-- Every author with a name is a reviewer under it. -/
theorem exists_reviewer {projection : Projection} {ownerships : List TopicOwnership}
    {author : AuthorId} {name : String}
    (h : lastCandidateName projection ownerships author = some name) :
    ∃ r ∈ (hint .exact projection ownerships).reviewers,
      r.author = author ∧ r.displayName = name := by
  have hmem : (⟨author.val, name, scoreSum projection ownerships author⟩ : Contributor) ∈
      contributorsOf (totalsOf .exact projection ownerships) :=
    mem_contributorsOf.mpr ⟨h, rfl⟩
  have hreviewer := (mem_ranked (r := .exact)).mpr ⟨_, hmem, rfl⟩
  rw [← reviewers_hint] at hreviewer
  exact ⟨_, hreviewer, rfl, rfl⟩

/-- A reviewer is an author with a name, scored by their share. -/
theorem mem_reviewers_iff {projection : Projection} {ownerships : List TopicOwnership} {max : ℚ}
    (hmax : IsGreatest (Set.range (scoreSum projection ownerships)) max) {r : ExpertCandidate} :
    r ∈ (hint .exact projection ownerships).reviewers ↔
      lastCandidateName projection ownerships r.author = some r.displayName ∧
        r.score.get = share max (scoreSum projection ownerships) r.author := by
  have hranks := hint_ranksReviewers projection ownerships
  obtain ⟨max', hmax', hscores⟩ := hranks.scores
  have hsame : max' = max := hmax'.unique hmax
  rw [hsame] at hscores
  constructor
  · exact fun hr => ⟨hranks.names r hr, hscores r hr⟩
  · rintro ⟨hname, hscore⟩
    obtain ⟨r', hr', hauthor, hname'⟩ := exists_reviewer hname
    have hscore' : r'.score.get = r.score.get := by
      rw [hscore, ← hauthor]
      exact hscores r' hr'
    have heq : r' = r := by
      cases r
      cases r'
      rw [ExpertCandidate.mk.injEq]
      exact ⟨hauthor, hname', SkillScore.get_inj hscore'⟩
    rwa [heq] at hr'

/-- Reviewers are sorted by score. -/
theorem pairwise_reviewers (projection : Projection) (ownerships : List TopicOwnership) :
    (hint .exact projection ownerships).reviewers.Pairwise fun a b =>
      b.score.get < a.score.get ∨ b.score.get = a.score.get ∧ a.author.val < b.author.val := by
  rw [reviewers_hint]
  exact pairwise_ranked (nodup_contributorsOf _)

/-- **Two hints are equal when names and shares are.** -/
theorem hint_eq_iff {p p' : Projection} (hid : p'.messageId = p.messageId)
    (os os' : List TopicOwnership) :
    hint .exact p os = hint .exact p' os' ↔
      Proportional (scoreSum p os) (scoreSum p' os') ∧
        ∀ author, lastCandidateName p os author = lastCandidateName p' os' author := by
  obtain ⟨max, hmax, -⟩ := (hint_ranksReviewers p os).scores
  obtain ⟨max', hmax', -⟩ := (hint_ranksReviewers p' os').scores
  rw [proportional_iff_share_eq (scoreSum_nonneg p os) (scoreSum_nonneg p' os') hmax hmax']
  constructor
  · intro heq
    have hreviewers : (hint .exact p os).reviewers = (hint .exact p' os').reviewers := by rw [heq]
    have hnames : ∀ author name, lastCandidateName p os author = some name ↔
        lastCandidateName p' os' author = some name := by
      intro author name
      constructor
      · intro hname
        obtain ⟨r, hr, rfl, rfl⟩ := exists_reviewer hname
        rw [hreviewers] at hr
        exact ((mem_reviewers_iff hmax').mp hr).1
      · intro hname
        obtain ⟨r, hr, rfl, rfl⟩ := exists_reviewer hname
        rw [← hreviewers] at hr
        exact ((mem_reviewers_iff hmax).mp hr).1
    refine ⟨fun author => ?_, fun author => Option.ext (hnames author)⟩
    cases hname : lastCandidateName p os author with
    | some name =>
      obtain ⟨r, hr, rfl, -⟩ := exists_reviewer hname
      have hscore := ((mem_reviewers_iff hmax).mp hr).2
      rw [hreviewers] at hr
      rw [← hscore, ((mem_reviewers_iff hmax').mp hr).2]
    | none =>
      -- who is no reviewer has no share
      have hname' : lastCandidateName p' os' author = none := by
        refine Option.eq_none_iff_forall_ne_some.mpr fun name hsome => ?_
        rw [(hnames author name).mpr hsome] at hname
        cases hname
      rw [share_eq_zero max (scoreSum_of_name_none hname),
        share_eq_zero max' (scoreSum_of_name_none hname')]
  · rintro ⟨hshares, hnames⟩
    have hreviewers : (hint .exact p os).reviewers = (hint .exact p' os').reviewers := by
      refine eq_of_pairwise_of_mem bestFirst_asymm (pairwise_reviewers p os)
        (pairwise_reviewers p' os') fun r => ?_
      rw [mem_reviewers_iff hmax, mem_reviewers_iff hmax', hshares, hnames]
    show (⟨p.messageId, (hint .exact p os).reviewers, (hint .exact p os).reviewers.head?⟩ :
        RoutingHint) =
      ⟨p'.messageId, (hint .exact p' os').reviewers, (hint .exact p' os').reviewers.head?⟩
    rw [hid, hreviewers]

end SkillRoutingHinter

/-! ### Topic lists -/

section Topics

variable (skills : InMemorySkillStore)

/-- The candidacies of an author on some topics, a repeated topic repeating them. -/
def candidacies (topics : List Topic) (author : AuthorId) : List ExpertCandidate :=
  ((topics.filterMap skills).flatMap TopicOwnership.candidates).filter fun c => c.author = author

/-- The sum of the author's stored scores along a topic list. -/
def topicScore (topics : List Topic) (author : AuthorId) : ℚ :=
  ((candidacies skills topics author).map fun c => c.score.get).sum

/-- The name the author has on the last of their topics. -/
def topicName (topics : List Topic) (author : AuthorId) : Option String :=
  (candidacies skills topics author).getLast?.map ExpertCandidate.displayName

/-- What is fetched for the topics of a projection counts for it. -/
theorem candidatesFor_filterMap (projection : Projection) :
    candidatesFor projection (projection.topics.filterMap skills) =
      (projection.topics.filterMap skills).flatMap TopicOwnership.candidates := by
  unfold candidatesFor
  refine congrArg (List.flatMap TopicOwnership.candidates) (List.filter_eq_self.mpr fun o ho => ?_)
  obtain ⟨topic, htopic, hstored⟩ := List.mem_filterMap.mp ho
  have hown : o.topic = topic := skills.own hstored
  rw [hown]
  exact decide_eq_true htopic

theorem scoreSum_filterMap (projection : Projection) :
    scoreSum projection (projection.topics.filterMap skills) =
      topicScore skills projection.topics := by
  funext author
  unfold scoreSum topicScore candidacies
  rw [candidatesFor_filterMap]

theorem lastCandidateName_filterMap (projection : Projection) (author : AuthorId) :
    lastCandidateName projection (projection.topics.filterMap skills) author =
      topicName skills projection.topics author := by
  unfold lastCandidateName topicName candidacies
  rw [candidatesFor_filterMap]

/-- The hints of two projections of one message. -/
theorem hintFor_eq_iff {p p' : Projection} (hid : p'.messageId = p.messageId) :
    BuildRoutingHintJob.hintFor skills (hinter .exact) p =
        BuildRoutingHintJob.hintFor skills (hinter .exact) p' ↔
      Proportional (topicScore skills p.topics) (topicScore skills p'.topics) ∧
        ∀ author, topicName skills p.topics author = topicName skills p'.topics author := by
  have hiff := hint_eq_iff hid (p.topics.filterMap skills) (p'.topics.filterMap skills)
  rw [scoreSum_filterMap, scoreSum_filterMap] at hiff
  simp only [lastCandidateName_filterMap] at hiff
  exact hiff

end Topics

/-- The job stores the hint of a requested message. -/
theorem run_hint_of_mem {projections : InMemoryProjectionStore} {skills : InMemorySkillStore}
    {hinter : RoutingHinter} {hints : InMemoryRoutingHintStore} {request : RoutingHintRequest}
    {id : MessageId} {p : Projection} (hp : projections id = some p)
    (hid : id ∈ request.messages) :
    BuildRoutingHintJob.run projections skills hinter hints request id =
      some (BuildRoutingHintJob.hintFor skills hinter p) := by
  rw [BuildRoutingHintJob.run_eq, UpsertStore.upsertAll_apply]
  have hown : p.messageId = id := projections.own hp
  -- every hint that is written under the id is the hint of this projection
  have honly : ∀ hint ∈ ((storedProjections projections request.messages).map
      (BuildRoutingHintJob.hintFor skills hinter)).filter (fun hint => hint.messageId = id),
      hint = BuildRoutingHintJob.hintFor skills hinter p := by
    intro hint hhint
    obtain ⟨hmem, hkey⟩ := List.mem_filter.mp hhint
    obtain ⟨q, hq, rfl⟩ := List.mem_map.mp hmem
    obtain ⟨id', -, hstored⟩ := List.mem_filterMap.mp hq
    have hown' : q.messageId = id' := projections.own hstored
    have hkey' : q.messageId = id := by
      rw [← hinter.hint_messageId q (q.topics.filterMap skills)]
      exact of_decide_eq_true hkey
    rw [← hown', hkey', hp, Option.some.injEq] at hstored
    rw [hstored]
  have hsome : BuildRoutingHintJob.hintFor skills hinter p ∈
      ((storedProjections projections request.messages).map
        (BuildRoutingHintJob.hintFor skills hinter)).filter fun hint => hint.messageId = id := by
    refine List.mem_filter.mpr ⟨List.mem_map_of_mem (List.mem_filterMap.mpr ⟨id, hid, hp⟩), ?_⟩
    refine decide_eq_true ?_
    rw [← hown]
    exact hinter.hint_messageId p _
  obtain ⟨last, hlast⟩ :=
    Option.isSome_iff_exists.mp (List.getLast?_isSome.mpr (List.ne_nil_of_mem hsome))
  rw [hlast, honly last (List.mem_of_getLast? hlast)]
  rfl

/-! ### Stores of one index -/

section OneIndex

variable {contributions : List SkillContribution} {skills : InMemorySkillStore}
  (hskills : ∀ {topic o}, skills topic = some o → o ∈ (build .exact contributions).ownerships)

include hskills

/-- In the store of one index every author has one name. -/
theorem topicName_eq_some_iff {topics : List Topic} {author : AuthorId} {name : String} :
    topicName skills topics author = some name ↔
      (∃ topic ∈ topics, ∃ o, skills topic = some o ∧
        author ∈ o.candidates.map ExpertCandidate.author) ∧
        lastName contributions author.val = some name := by
  have hmem : ∀ c, c ∈ candidacies skills topics author ↔ (∃ topic ∈ topics, ∃ o,
      skills topic = some o ∧ c ∈ o.candidates) ∧ c.author = author := by
    intro c
    unfold candidacies
    rw [List.mem_filter, List.mem_flatMap, decide_eq_true_eq]
    refine and_congr_left fun _ => ?_
    constructor
    · rintro ⟨o, ho, hc⟩
      obtain ⟨topic, htopic, hstored⟩ := List.mem_filterMap.mp ho
      exact ⟨topic, htopic, o, hstored, hc⟩
    · rintro ⟨topic, htopic, o, hstored, hc⟩
      exact ⟨o, List.mem_filterMap.mpr ⟨topic, htopic, hstored⟩, hc⟩
  -- a candidate has the last-seen name of the contributions
  have hname : ∀ c ∈ candidacies skills topics author,
      lastName contributions author.val = some c.displayName := by
    intro c hc
    obtain ⟨⟨topic, -, o, hstored, hcandidate⟩, rfl⟩ := (hmem c).mp hc
    exact (ranksTopic_of_mem (hskills hstored)).names c hcandidate
  unfold topicName
  rw [Option.map_eq_some_iff]
  constructor
  · rintro ⟨c, hlast, rfl⟩
    have hc := List.mem_of_getLast? hlast
    obtain ⟨⟨topic, htopic, o, hstored, hcandidate⟩, hauthor⟩ := (hmem c).mp hc
    exact ⟨⟨topic, htopic, o, hstored, List.mem_map.mpr ⟨c, hcandidate, hauthor⟩⟩, hname c hc⟩
  · rintro ⟨⟨topic, htopic, o, hstored, hauthor⟩, hlastName⟩
    obtain ⟨c, hcandidate, hsame⟩ := List.mem_map.mp hauthor
    have hc := (hmem c).mpr ⟨⟨topic, htopic, o, hstored, hcandidate⟩, hsame⟩
    obtain ⟨last, hlast⟩ :=
      Option.isSome_iff_exists.mp (List.getLast?_isSome.mpr (List.ne_nil_of_mem hc))
    refine ⟨last, hlast, Option.some.inj ?_⟩
    rw [← hname last (List.mem_of_getLast? hlast), hlastName]

/-- There the names depend on the set of the topics only. -/
theorem topicName_congr {topics topics' : List Topic} (hset : ∀ t, t ∈ topics ↔ t ∈ topics')
    (author : AuthorId) : topicName skills topics author = topicName skills topics' author := by
  refine Option.ext fun name => ?_
  show topicName skills topics author = some name ↔ topicName skills topics' author = some name
  rw [topicName_eq_some_iff hskills, topicName_eq_some_iff hskills]
  simp only [hset]

/-- **Without repetitions the hint depends on the set of the topics only.** -/
theorem hintFor_congr_of_nodup {p p' : Projection} (hid : p'.messageId = p.messageId)
    (hset : ∀ t, t ∈ p.topics ↔ t ∈ p'.topics) (hp : p.topics.Nodup) (hp' : p'.topics.Nodup) :
    BuildRoutingHintJob.hintFor skills (hinter .exact) p =
      BuildRoutingHintJob.hintFor skills (hinter .exact) p' := by
  have hperm : p'.topics.Perm p.topics :=
    (List.perm_ext_iff_of_nodup hp' hp).mpr fun t => (hset t).symm
  refine (hintFor_eq_iff skills hid).mpr ⟨⟨1, zero_lt_one, fun author => ?_⟩,
    topicName_congr hskills hset⟩
  rw [one_mul]
  exact ((((hperm.filterMap _).flatMap_right _).filter _).map _).sum_eq

end OneIndex

/-- What the job stores in a new store is one index. -/
theorem mem_ownerships_of_run {projections : InMemoryProjectionStore} {request : SkillRequest}
    {topic : Topic} {o : TopicOwnership}
    (h : BuildSkillJob.run projections (skillBuilder .exact) .empty request topic = some o) :
    o ∈ (build .exact
      (request.entries.filterMap (SkillEntry.contribution projections))).ownerships :=
  ((UpsertStore.upsertAll_empty_eq_some_iff (nodup_topic_ownerships _)).mp h).1

/-! ### The stored hint -/

/-- **When the hints stored for two topic lists of a message are equal.** -/
theorem stored_hints_eq_iff (skills : InMemorySkillStore) (hints : InMemoryRoutingHintStore)
    (request : RoutingHintRequest) {projections projections' : InMemoryProjectionStore}
    {id : MessageId} {p p' : Projection} (hp : projections id = some p)
    (hp' : projections' id = some p') (hid : id ∈ request.messages) :
    BuildRoutingHintJob.run projections skills (hinter .exact) hints request id =
        BuildRoutingHintJob.run projections' skills (hinter .exact) hints request id ↔
      Proportional (topicScore skills p.topics) (topicScore skills p'.topics) ∧
        ∀ author, topicName skills p.topics author = topicName skills p'.topics author := by
  have hown : p.messageId = id := projections.own hp
  have hown' : p'.messageId = id := projections'.own hp'
  rw [run_hint_of_mem hp hid, run_hint_of_mem hp' hid, Option.some.injEq]
  exact hintFor_eq_iff skills (hown'.trans hown.symm)

/-- Alice owns one topic and Bob another. -/
def oneTopicEach : InMemorySkillStore :=
  BuildSkillJob.run (.upsertAll .empty
    [⟨⟨"m-1"⟩, .issue, [⟨"auth"⟩], [], .new 1⟩, ⟨⟨"m-2"⟩, .issue, [⟨"rust"⟩], [], .new 1⟩])
    (skillBuilder .exact) .empty ⟨[⟨⟨"alice"⟩, "Alice", ⟨"m-1"⟩⟩, ⟨⟨"bob"⟩, "Bob", ⟨"m-2"⟩⟩]⟩

/-- A message projected to a topic list. -/
def projectedTo (topics : List Topic) : InMemoryProjectionStore :=
  .upsert .empty ⟨⟨"m-3"⟩, .question, topics, [], .new 1⟩

/-- The hint stored for the message. -/
def storedHint (topics : List Topic) : Option RoutingHint :=
  BuildRoutingHintJob.run (projectedTo topics) oneTopicEach (hinter .exact) .empty ⟨[⟨"m-3"⟩]⟩
    ⟨"m-3"⟩

/-- Both topics in either order give one hint. -/
theorem stored_hints_eq_iff_reordered :
    storedHint [⟨"auth"⟩, ⟨"rust"⟩] = storedHint [⟨"rust"⟩, ⟨"auth"⟩] := by
  have hset : ∀ t : Topic, t ∈ ([⟨"rust"⟩, ⟨"auth"⟩] : List Topic) ↔
      t ∈ ([⟨"auth"⟩, ⟨"rust"⟩] : List Topic) := fun t => by simp [or_comm]
  have hstored : ∀ topics, projectedTo topics ⟨"m-3"⟩ =
      some ⟨⟨"m-3"⟩, .question, topics, [], .new 1⟩ := fun topics => rfl
  refine (stored_hints_eq_iff oneTopicEach .empty ⟨[⟨"m-3"⟩]⟩ (hstored [⟨"auth"⟩, ⟨"rust"⟩])
    (hstored [⟨"rust"⟩, ⟨"auth"⟩]) (List.mem_singleton_self _)).mpr
    ⟨⟨1, zero_lt_one, fun author => ?_⟩, ?_⟩
  · rw [one_mul]
    exact (((((List.Perm.swap _ _ []).filterMap _).flatMap_right _).filter _).map _).sum_eq
  · exact fun author => (topicName_congr mem_ownerships_of_run hset author).symm

/-- **A repeated topic changes the hint.** -/
theorem repeated_topic_changes_hint :
    (∀ t : Topic, t ∈ ([⟨"auth"⟩, ⟨"rust"⟩] : List Topic) ↔
      t ∈ ([⟨"auth"⟩, ⟨"auth"⟩, ⟨"rust"⟩] : List Topic)) ∧
    storedHint [⟨"auth"⟩, ⟨"rust"⟩] ≠ storedHint [⟨"auth"⟩, ⟨"auth"⟩, ⟨"rust"⟩] := by
  refine ⟨fun t => by simp, ?_⟩
  decide +kernel

end Mirrorlane
