import Mirrorlane.Provider.Equiv.Developer
import Mirrorlane.Provider.Equiv.Hint
import Mirrorlane.Worker.Equiv.Locality

/-!
# The skill-derived artifacts of a run agree with the log

A run joins three sources: authors come from the log, topics from the projections and scores from
the index over the whole log.  `skillDerived_coherent` says what the join is, message by message for
the hints and conversation by conversation for the developers.
-/

namespace Mirrorlane

/-! ### What coherence is -/

/-- The message was projected to the topic. -/
def ProjectsTo (projector : Projector) (message : MessageEnvelope) (topic : Topic) : Prop :=
  ∃ projection, projector.run message = some projection ∧ topic ∈ projection.topics

/-- The author has the score on the topic. -/
def HasScore (skills : InMemorySkillStore) (topic : Topic) (author : AuthorId) (score : ℚ) : Prop :=
  ∃ ownership, skills topic = some ownership ∧ ∃ candidate ∈ ownership.candidates,
    candidate.author = author ∧ candidate.score.get = score

/-- A hint names the author of its message, and only authors of messages on one of its topics. -/
structure HintCoherent (projector : Projector) (log : MessageLog) (message : MessageEnvelope)
    (projection : Projection) (hint : RoutingHint) : Prop where
  author : message.author.id ∈ hint.reviewers.map ExpertCandidate.author
  humanHint : ∃ first rest, hint.reviewers = first :: rest ∧ hint.humanHint = some first
  evidence : ∀ reviewer ∈ hint.reviewers, ∃ other ∈ log.all, other.author.id = reviewer.author ∧
    ∃ topic ∈ projection.topics, ProjectsTo projector other topic

/-- A developer has the topics of the conversation they have a message on, best score first. -/
structure DeveloperCoherent (projector : Projector) (log : MessageLog) (skills : InMemorySkillStore)
    (c : ConversationId) (developer : DeveloperSnapshot) : Prop where
  displayName : ((log.messagesFor c).filter fun message =>
    message.author.id = developer.author).getLast?.map (fun message => message.author.displayName) =
      some developer.displayName
  topics : ∀ topic, topic ∈ developer.topics.map TopicWeight.topic ↔
    (∃ message ∈ log.messagesFor c, ProjectsTo projector message topic) ∧
      ∃ message ∈ log.all, message.author.id = developer.author ∧ ProjectsTo projector message topic
  nodup : (developer.topics.map TopicWeight.topic).Nodup
  weight : ∀ w ∈ developer.topics, ∀ score,
    HasScore skills w.topic developer.author score ↔ score = w.weight
  ordered : developer.topics.Pairwise fun a b =>
    b.weight < a.weight ∨ b.weight = a.weight ∧ a.topic.val < b.topic.val

/-- The developers are the authors of the conversation's messages, by ascending id. -/
structure DevelopersCoherent (projector : Projector) (log : MessageLog)
    (skills : InMemorySkillStore) (c : ConversationId) (developers : List DeveloperSnapshot) :
    Prop where
  authors : ∀ author, author ∈ developers.map DeveloperSnapshot.author ↔
    ∃ message ∈ log.messagesFor c, message.author.id = author
  ascending : developers.Pairwise fun a b => a.author.val < b.author.val
  each : ∀ developer ∈ developers, DeveloperCoherent projector log skills c developer

variable {r : Rounding} {toLowercase : String → String} {projector : Projector} {log : MessageLog}

/-! ### The index -/

/-- The contributions of the log are its projected messages. -/
theorem exists_contribution_iff (r : Rounding) (toLowercase : String → String) {author : AuthorId}
    {topic : Topic} :
    (∃ contribution ∈ contributionsOf (providerPorts r toLowercase projector) log,
        contribution.author = author ∧ topic ∈ contribution.topics) ↔
      ∃ message ∈ log.all, message.author.id = author ∧ ProjectsTo projector message topic := by
  constructor
  · rintro ⟨contribution, hmem, hauthor, htopic⟩
    obtain ⟨message, hm, hcontribution⟩ := List.mem_filterMap.mp hmem
    obtain ⟨projection, hrun, rfl⟩ := Option.map_eq_some_iff.mp hcontribution
    exact ⟨message, hm, hauthor, projection, hrun, htopic⟩
  · rintro ⟨message, hm, hauthor, projection, hrun, htopic⟩
    let contribution : SkillContribution :=
      ⟨message.author.id, message.author.displayName, projection.topics, projection.confidence⟩
    have hcontribution : contributionOf (providerPorts r toLowercase projector) message =
        some contribution := Option.map_eq_some_iff.mpr ⟨projection, hrun, rfl⟩
    have hmem : contribution ∈ contributionsOf (providerPorts r toLowercase projector) log :=
      List.mem_filterMap.mpr ⟨message, hm, hcontribution⟩
    exact ⟨contribution, hmem, hauthor, htopic⟩

/-- The candidates on a topic are the authors of the messages on it. -/
theorem mem_author_skillsOf {topic : Topic} {ownership : TopicOwnership}
    (h : skillsOf (providerPorts r toLowercase projector) log topic = some ownership)
    {author : AuthorId} :
    author ∈ ownership.candidates.map ExpertCandidate.author ↔
      ∃ message ∈ log.all, message.author.id = author ∧ ProjectsTo projector message topic := by
  rw [← exists_contribution_iff r toLowercase]
  exact MessageSkillBuilder.mem_author_candidates h

/-- A topic of some message is in the index. -/
theorem exists_skillsOf (r : Rounding) (toLowercase : String → String) {topic : Topic}
    {message : MessageEnvelope} (hm : message ∈ log.all)
    (htopic : ProjectsTo projector message topic) :
    ∃ ownership, skillsOf (providerPorts r toLowercase projector) log topic = some ownership := by
  obtain ⟨contribution, hmem, -, ht⟩ :=
    (exists_contribution_iff r toLowercase).mpr ⟨message, hm, rfl, htopic⟩
  have hsome : (skillsOf (providerPorts r toLowercase projector) log topic).isSome :=
    MessageSkillBuilder.isSome_ownershipOf.mpr ⟨contribution, hmem, ht⟩
  exact Option.isSome_iff_exists.mp hsome

/-! ### Hints -/

theorem hintCoherent_hintOf (r : Rounding) (toLowercase : String → String)
    {message : MessageEnvelope}
    (hm : message ∈ log.all) {projection : Projection}
    (hrun : projector.run message = some projection) (htopics : projection.topics ≠ []) :
    HintCoherent projector log message projection
      (hintOf (providerPorts r toLowercase projector) log projection) := by
  let skills := skillsOf (providerPorts r toLowercase projector) log
  have hreviewers : ∀ {author}, author ∈ (hintOf (providerPorts r toLowercase projector) log
      projection).reviewers.map ExpertCandidate.author ↔
        ∃ ownership ∈ projection.topics.filterMap skills, ownership.topic ∈ projection.topics ∧
          author ∈ ownership.candidates.map ExpertCandidate.author :=
    SkillRoutingHinter.mem_author_reviewers
  have hauthor : message.author.id ∈ (hintOf (providerPorts r toLowercase projector) log
      projection).reviewers.map ExpertCandidate.author := by
    -- any topic of the message has the author among its candidates
    obtain ⟨topic, htopic⟩ := List.exists_mem_of_ne_nil _ htopics
    have hprojects : ProjectsTo projector message topic := ⟨projection, hrun, htopic⟩
    obtain ⟨ownership, hownership⟩ := exists_skillsOf r toLowercase hm hprojects
    have hmem : ownership ∈ projection.topics.filterMap skills :=
      List.mem_filterMap.mpr ⟨topic, htopic, hownership⟩
    have hown : ownership.topic = topic := skills.own hownership
    apply hreviewers.mpr
    refine ⟨ownership, hmem, hown ▸ htopic, ?_⟩
    exact (mem_author_skillsOf hownership).mpr ⟨message, hm, rfl, hprojects⟩
  refine ⟨hauthor, ?_, fun reviewer hreviewer => ?_⟩
  · cases hlist : (hintOf (providerPorts r toLowercase projector) log projection).reviewers with
    | nil =>
      rw [hlist] at hauthor
      cases hauthor
    | cons first rest => exact ⟨first, rest, rfl, congrArg List.head? hlist⟩
  · have hreviewer' := List.mem_map_of_mem (f := ExpertCandidate.author) hreviewer
    obtain ⟨ownership, hmem, htopic, hcandidate⟩ := hreviewers.mp hreviewer'
    obtain ⟨topic, -, hownership⟩ := List.mem_filterMap.mp hmem
    have hown : ownership.topic = topic := skills.own hownership
    obtain ⟨other, hother, hauthor', hprojects⟩ := (mem_author_skillsOf hownership).mp hcandidate
    exact ⟨other, hother, hauthor', topic, hown ▸ htopic, hprojects⟩

/-! ### Developers -/

/-- The participants are in the order of their ids. -/
theorem pairwise_participantsOf (messages : List MessageEnvelope) :
    (participantsOf messages).Pairwise fun a b => a.author.val < b.author.val := by
  unfold participantsOf
  rw [List.pairwise_map]
  exact SortedAssoc.sorted _

/-- A participant is an author under the last name they used. -/
theorem mem_participantsOf {messages : List MessageEnvelope} {participant : Participant} :
    participant ∈ participantsOf messages ↔
      (messages.filter fun message => message.author.id = participant.author).getLast?.map
        (fun message => message.author.displayName) = some participant.displayName := by
  have hget : (messages.foldl (fun (authors : SortedAssoc String String) message =>
      authors.alter message.author.id.val fun _ => message.author.displayName) .empty).get
        participant.author.val =
      ((messages.filter fun message => message.author.id = participant.author).getLast?.map
        fun message => message.author.displayName) := by
    rw [SortedAssoc.get_foldl_alter_const, SortedAssoc.get_empty, Option.or_none]
    simp only [AuthorId.val_inj]
  rw [← hget, ← SortedAssoc.mem_entries (p := (participant.author.val, participant.displayName))]
  unfold participantsOf
  rw [List.mem_map]
  constructor
  · rintro ⟨entry, hentry, rfl⟩
    exact hentry
  · exact fun hentry => ⟨_, hentry, rfl⟩

theorem mem_author_participantsOf {messages : List MessageEnvelope} {author : AuthorId} :
    author ∈ (participantsOf messages).map Participant.author ↔
      ∃ message ∈ messages, message.author.id = author := by
  rw [List.mem_map]
  constructor
  · rintro ⟨participant, hparticipant, rfl⟩
    obtain ⟨message, hlast, -⟩ := Option.map_eq_some_iff.mp (mem_participantsOf.mp hparticipant)
    obtain ⟨hm, hauthor⟩ := List.mem_filter.mp (List.mem_of_getLast? hlast)
    exact ⟨message, hm, by simpa using hauthor⟩
  · rintro ⟨message, hm, hauthor⟩
    have hmem : message ∈ messages.filter fun message => message.author.id = author :=
      List.mem_filter.mpr ⟨hm, by simpa using hauthor⟩
    have hsome : (messages.filter fun message => message.author.id = author).getLast?.isSome :=
      List.getLast?_isSome.mpr (List.ne_nil_of_mem hmem)
    obtain ⟨last, hlast⟩ := Option.isSome_iff_exists.mp hsome
    have hparticipant : ⟨author, last.author.displayName⟩ ∈ participantsOf messages := by
      rw [mem_participantsOf]
      show Option.map _ (List.getLast? _) = _
      rw [hlast]
      rfl
    exact ⟨_, hparticipant, rfl⟩

/-- The topics of a conversation are those of its projected messages. -/
theorem mem_topicsOf_iff_projectsTo (r : Rounding) (toLowercase : String → String)
    {c : ConversationId}
    {topic : Topic} :
    topic ∈ topicsOf (providerPorts r toLowercase projector) log c ↔
      ∃ message ∈ log.messagesFor c, ProjectsTo projector message topic := by
  rw [mem_topicsOf]
  constructor
  · rintro ⟨projection, hprojection, htopic⟩
    obtain ⟨message, hm, hrun⟩ := mem_projectionsOf.mp hprojection
    exact ⟨message, hm, projection, hrun, htopic⟩
  · rintro ⟨message, hm, projection, hrun, htopic⟩
    exact ⟨projection, mem_projectionsOf.mpr ⟨message, hm, hrun⟩, htopic⟩

/-- A developer's weights are their scores on the conversation's topics. -/
theorem mem_topics_developer {c : ConversationId} {participant : Participant} {w : TopicWeight} :
    w ∈ (SkillDeveloperSnapshotter.snapshot
        ((topicsOf (providerPorts r toLowercase projector) log c).filterMap
          (skillsOf (providerPorts r toLowercase projector) log)) participant).topics ↔
      (∃ message ∈ log.messagesFor c, ProjectsTo projector message w.topic) ∧
        HasScore (skillsOf (providerPorts r toLowercase projector) log) w.topic participant.author
          w.weight := by
  let skills := skillsOf (providerPorts r toLowercase projector) log
  have hweight : ∀ {topic ownership}, skills topic = some ownership →
      (SkillDeveloperSnapshotter.topicWeight participant ownership = some w ↔
        w.topic = ownership.topic ∧ ∃ candidate ∈ ownership.candidates,
          candidate.author = participant.author ∧ candidate.score.get = w.weight) :=
    fun hownership => SkillDeveloperSnapshotter.topicWeight_eq_some_iff
      (MessageSkillBuilder.nodup_author_candidates hownership)
  rw [SkillDeveloperSnapshotter.mem_topics_snapshot, ← mem_topicsOf_iff_projectsTo r toLowercase]
  constructor
  · rintro ⟨ownership, hmem, htopicWeight⟩
    obtain ⟨topic, htopic, hownership⟩ := List.mem_filterMap.mp hmem
    obtain ⟨heq, hcandidate⟩ := (hweight hownership).mp htopicWeight
    have hown : w.topic = topic := heq.trans (skills.own hownership)
    rw [hown]
    exact ⟨htopic, ownership, hownership, hcandidate⟩
  · rintro ⟨htopic, ownership, hownership, hcandidate⟩
    have hmem : ownership ∈ (topicsOf (providerPorts r toLowercase projector) log c).filterMap
        skills := List.mem_filterMap.mpr ⟨w.topic, htopic, hownership⟩
    have hown : w.topic = ownership.topic := (skills.own hownership).symm
    exact ⟨ownership, hmem, (hweight hownership).mpr ⟨hown, hcandidate⟩⟩

/-- An author has at most one score on a topic. -/
theorem HasScore.unique {topic : Topic} {author : AuthorId} {score score' : ℚ}
    (h : HasScore (skillsOf (providerPorts r toLowercase projector) log) topic author score)
    (h' : HasScore (skillsOf (providerPorts r toLowercase projector) log) topic author score') :
    score = score' := by
  obtain ⟨ownership, hownership, candidate, hmem, hauthor, rfl⟩ := h
  obtain ⟨ownership', hownership', candidate', hmem', hauthor', rfl⟩ := h'
  have heq : ownership' = ownership := Option.some.inj (hownership'.symm.trans hownership)
  subst heq
  -- the author is one candidate only
  have hnodup := MessageSkillBuilder.nodup_author_candidates hownership
  have hsame : candidate = candidate' :=
    List.inj_on_of_nodup_map hnodup hmem hmem' (hauthor.trans hauthor'.symm)
  rw [hsame]

/-- An author has a score on the topics of their messages. -/
theorem exists_hasScore_iff (r : Rounding) (toLowercase : String → String) {topic : Topic}
    {author : AuthorId} :
    (∃ score, HasScore (skillsOf (providerPorts r toLowercase projector) log) topic author score) ↔
      ∃ message ∈ log.all, message.author.id = author ∧ ProjectsTo projector message topic := by
  constructor
  · rintro ⟨score, ownership, hownership, candidate, hmem, hauthor, -⟩
    refine (mem_author_skillsOf hownership).mp ?_
    rw [← hauthor]
    exact List.mem_map_of_mem hmem
  · rintro ⟨message, hm, hauthor, hprojects⟩
    obtain ⟨ownership, hownership⟩ := exists_skillsOf r toLowercase hm hprojects
    have hmem : author ∈ ownership.candidates.map ExpertCandidate.author :=
      (mem_author_skillsOf hownership).mpr ⟨message, hm, hauthor, hprojects⟩
    obtain ⟨candidate, hcandidate, hauthor'⟩ := List.mem_map.mp hmem
    exact ⟨candidate.score.get, ownership, hownership, candidate, hcandidate, hauthor', rfl⟩

/-- What a conversation says about one of its participants. -/
theorem developerCoherent_snapshot (r : Rounding) (toLowercase : String → String)
    {c : ConversationId}
    {participant : Participant} (h : participant ∈ participantsOf (log.messagesFor c)) :
    DeveloperCoherent projector log (skillsOf (providerPorts r toLowercase projector) log) c
      (SkillDeveloperSnapshotter.snapshot
        ((topicsOf (providerPorts r toLowercase projector) log c).filterMap
          (skillsOf (providerPorts r toLowercase projector) log)) participant) := by
  let ports := providerPorts r toLowercase projector
  let ownerships := (topicsOf ports log c).filterMap (skillsOf ports log)
  have hnodup : (ownerships.map TopicOwnership.topic).Nodup := by
    have hsublist : (ownerships.map TopicOwnership.topic).Sublist ((topicsOf ports log c).map id) :=
      map_filterMap_sublist (fun hownership => (skillsOf ports log).own hownership) _
    rw [List.map_id] at hsublist
    exact (nodup_firstSeen _).sublist hsublist
  have honce : ((SkillDeveloperSnapshotter.snapshot ownerships participant).topics.map
      TopicWeight.topic).Nodup :=
    SkillDeveloperSnapshotter.nodup_topics_snapshot hnodup participant
  refine ⟨mem_participantsOf.mp h, fun topic => ?_, honce, fun w hw score => ?_, ?_⟩
  · rw [← exists_hasScore_iff r toLowercase, List.mem_map]
    constructor
    · rintro ⟨w, hw, rfl⟩
      obtain ⟨htopic, hscore⟩ := mem_topics_developer.mp hw
      exact ⟨htopic, w.weight, hscore⟩
    · rintro ⟨htopic, score, hscore⟩
      exact ⟨⟨topic, score⟩, mem_topics_developer.mpr ⟨htopic, hscore⟩, rfl⟩
  · have hscore := (mem_topics_developer.mp hw).2
    exact ⟨fun h => h.unique hscore, fun h => h ▸ hscore⟩
  · -- two topics with the same weight differ in their names
    have hordered := SkillDeveloperSnapshotter.pairwise_topics_snapshot ownerships participant
    refine (hordered.and (List.pairwise_map.mp honce)).imp ?_
    rintro a b ⟨hlt | ⟨hweight, hle⟩, hne⟩
    · exact Or.inl hlt
    · refine Or.inr ⟨hweight, lt_of_le_of_ne hle fun hname => hne ?_⟩
      cases ha : a.topic
      cases hb : b.topic
      simp_all

theorem developersCoherent_developersOf (r : Rounding) (toLowercase : String → String)
    (c : ConversationId) :
    DevelopersCoherent projector log (skillsOf (providerPorts r toLowercase projector) log) c
      (developersOf (providerPorts r toLowercase projector) log c).developers := by
  let ports := providerPorts r toLowercase projector
  let ownerships := (topicsOf ports log c).filterMap (skillsOf ports log)
  have hdevelopers : (developersOf ports log c).developers =
      (participantsOf (log.messagesFor c)).map (SkillDeveloperSnapshotter.snapshot ownerships) :=
    SkillDeveloperSnapshotter.developers_build (pairwise_participantsOf _) _
  rw [hdevelopers]
  refine ⟨fun author => ?_, ?_, fun developer hdeveloper => ?_⟩
  · rw [List.map_map]
    exact mem_author_participantsOf
  · rw [List.pairwise_map]
    exact pairwise_participantsOf _
  · obtain ⟨participant, hparticipant, rfl⟩ := List.mem_map.mp hdeveloper
    exact developerCoherent_snapshot r toLowercase hparticipant

/-- **The skill-derived artifacts of a run agree with the log.**  Whatever the deliveries of the
stages were: the hint of a message with topics names the author of the message, its first reviewer
as the human, and only authors who wrote on one of the topics; the developers of a conversation are
the authors of its messages, each with the topics of the conversation they wrote on anywhere. -/
theorem skillDerived_coherent (r : Rounding) (toLowercase : String → String) (projector : Projector)
    (log : MessageLog) {schedule : Schedule} (h : schedule.Delivers log.all) :
    (∀ message ∈ log.all, ∀ projection, projector.run message = some projection →
      projection.topics ≠ [] → ∃ hint,
        (runSchedule (providerPorts r toLowercase projector) schedule).hints message.id =
          some hint ∧
        HintCoherent projector log message projection hint) ∧
    ∀ c ∈ log.conversationIds, ∃ session,
      (runSchedule (providerPorts r toLowercase projector) schedule).developers c = some session ∧
      DevelopersCoherent projector log
        (runSchedule (providerPorts r toLowercase projector) schedule).skills c
        session.developers := by
  rw [runSchedule_eq h]
  constructor
  · intro message hm projection hrun htopics
    refine ⟨_, ?_, hintCoherent_hintOf r toLowercase hm hrun htopics⟩
    rw [derivedStores_hints hm]
    show (projector.run message).map _ = _
    rw [hrun]
    rfl
  · intro c hc
    refine ⟨_, ?_, developersCoherent_developersOf r toLowercase c⟩
    rw [derivedStores_developers, if_pos hc]

/-- A message about a topic. -/
def about (id c author body : String) : MessageEnvelope :=
  ⟨⟨id⟩, .manual, ⟨⟨author⟩, author⟩, ⟨⟨c⟩, none⟩, body⟩

/-- Two sessions in which Bob writes, on different topics. -/
def bobTwice : MessageLog :=
  ((MessageLog.empty.append (about "m-1" "c-1" "alice" "rust")).append
    (about "m-2" "c-1" "bob" "auth")).append (about "m-3" "c-2" "bob" "rust")

/-- Bob reviews Alice's message of the first session for what he wrote in the second. -/
theorem skillDerived_coherent_bobTwice :
    (∃ hint, (runPhases mockPorts bobTwice).hints ⟨"m-1"⟩ = some hint ∧
      hint.reviewers.map ExpertCandidate.author = [⟨"alice"⟩, ⟨"bob"⟩] ∧
      HintCoherent mockPorts.projector bobTwice (about "m-1" "c-1" "alice" "rust")
        (MockProjector.run (fun s => s) (about "m-1" "c-1" "alice" "rust")) hint) ∧
    ∃ session, (runPhases mockPorts bobTwice).developers ⟨"c-1"⟩ = some session ∧
      DevelopersCoherent mockPorts.projector bobTwice (runPhases mockPorts bobTwice).skills ⟨"c-1"⟩
        session.developers := by
  obtain ⟨hhints, hdevelopers⟩ := skillDerived_coherent .binary64 (fun s => s) mockPorts.projector
    bobTwice (Schedule.delivers_payloads bobTwice.all)
  obtain ⟨hint, hget, hcoherent⟩ := hhints (about "m-1" "c-1" "alice" "rust") (by decide +kernel) _
    rfl (by decide +kernel)
  obtain ⟨session, hsession, hall⟩ := hdevelopers ⟨"c-1"⟩ (by decide +kernel)
  have hreviewers : ((runPhases mockPorts bobTwice).hints ⟨"m-1"⟩).map (fun hint =>
      hint.reviewers.map ExpertCandidate.author) = some [⟨"alice"⟩, ⟨"bob"⟩] := by decide +kernel
  have hget' : (runPhases mockPorts bobTwice).hints ⟨"m-1"⟩ = some hint := hget
  rw [hget'] at hreviewers
  exact ⟨⟨hint, hget, Option.some.inj hreviewers, hcoherent⟩, session, hsession, hall⟩

end Mirrorlane
