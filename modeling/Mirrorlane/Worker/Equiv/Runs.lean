import Mirrorlane.Foundation.Fallible
import Mirrorlane.Worker.Replay

/-!
# What a run computes

`derivedStores ports log` states the outcome of a run artifact by artifact: which values the ports
give for the messages and conversations of the log, and nothing about stages, payloads or jobs.

`runSchedule_eq` says that every schedule that delivers the payloads of the log at least once ends
in these stores; `runPhases_eq` is the schedule without redeliveries.  The lookup lemmas
(`derivedStores_projections`, …) give each store key by key.
-/

namespace Mirrorlane

variable (ports : StrategyContext) (log : MessageLog)

/-! ### The artifacts of a log -/

/-- The projections of some messages: those the projector does not fail on, in order. -/
def projectionsOf (messages : List MessageEnvelope) : List Projection :=
  messages.filterMap ports.projector.run

/-- The scope of a conversation. -/
def scopeOf (c : ConversationId) : Scope :=
  ports.scoper.scope c (projectionsOf ports (log.messagesFor c))

/-- The warm-up document of a conversation. -/
def warmupOf (c : ConversationId) : WarmupDocument :=
  ports.builder.build c (some (scopeOf ports log c)) (projectionsOf ports (log.messagesFor c))

/-- The contribution of a message, unless the projector fails on it. -/
def contributionOf (message : MessageEnvelope) : Option SkillContribution :=
  (ports.projector.run message).map fun projection =>
    { author := message.author.id
      displayName := message.author.displayName
      topics := projection.topics
      confidence := projection.confidence }

/-- The skill index of the whole log, by topic. -/
def skillsOf : InMemorySkillStore :=
  UpsertStore.empty.upsertAll
    (ports.skillBuilder.build (log.all.filterMap (contributionOf ports))).ownerships

/-- The routing hint of a projection. -/
def hintOf (projection : Projection) : RoutingHint :=
  BuildRoutingHintJob.hintFor (skillsOf ports log) ports.hinter projection

/-- The distinct participants of some messages: the last-seen display name of each author, ordered
by author id. -/
def participantsOf (messages : List MessageEnvelope) : List Participant :=
  let authors : SortedAssoc String String := messages.foldl
    (fun authors message => authors.alter message.author.id.val fun _ =>
      message.author.displayName) .empty
  authors.entries.map fun entry => ⟨⟨entry.1⟩, entry.2⟩

/-- The distinct topics of a conversation, in first-seen order. -/
def topicsOf (c : ConversationId) : List Topic :=
  firstSeen ((projectionsOf ports (log.messagesFor c)).flatMap Projection.topics)

/-- The developer snapshot of a conversation. -/
def developersOf (c : ConversationId) : SessionDevelopers :=
  ports.snapshotter.build c (participantsOf (log.messagesFor c))
    ((topicsOf ports log c).filterMap (skillsOf ports log))

/-- The stores that hold exactly these artifacts. -/
def derivedStores : ReplayStores where
  projections := UpsertStore.empty.upsertAll (projectionsOf ports log.all)
  scopes := UpsertStore.empty.upsertAll (log.conversationIds.map (scopeOf ports log))
  warmups := UpsertStore.empty.upsertAll (log.conversationIds.map (warmupOf ports log))
  skills := skillsOf ports log
  hints := UpsertStore.empty.upsertAll ((projectionsOf ports log.all).map (hintOf ports log))
  developers := UpsertStore.empty.upsertAll (log.conversationIds.map (developersOf ports log))

variable {ports log}

/-! ### Lookups -/

/-- A projection list carries the ids of its messages. -/
theorem map_messageId_projectionsOf_sublist (messages : List MessageEnvelope) :
    ((projectionsOf ports messages).map Projection.messageId).Sublist
      (messages.map MessageEnvelope.id) :=
  map_filterMap_sublist ports.projector.run_messageId messages

theorem nodup_messageId_projectionsOf (log : MessageLog) :
    ((projectionsOf ports log.all).map Projection.messageId).Nodup :=
  log.nodup.sublist (map_messageId_projectionsOf_sublist log.all)

theorem mem_projectionsOf {messages : List MessageEnvelope} {projection : Projection} :
    projection ∈ projectionsOf ports messages ↔
      ∃ message ∈ messages, ports.projector.run message = some projection :=
  List.mem_filterMap

/-- Among messages with different ids, the projection with the id of a message is its own. -/
theorem mem_filterMap_and_messageId_iff {messages : List MessageEnvelope}
    (hnodup : (messages.map MessageEnvelope.id).Nodup) {f : MessageEnvelope → Option Projection}
    (hf : ∀ {message p}, f message = some p → p.messageId = message.id)
    {message : MessageEnvelope} (hm : message ∈ messages) {p : Projection} :
    p ∈ messages.filterMap f ∧ p.messageId = message.id ↔ f message = some p := by
  constructor
  · rintro ⟨hp, hid⟩
    obtain ⟨other, hother, hrun⟩ := List.mem_filterMap.mp hp
    have heq : other = message :=
      List.inj_on_of_nodup_map hnodup hother hm ((hf hrun).symm.trans hid)
    rwa [← heq]
  · intro hrun
    exact ⟨List.mem_filterMap.mpr ⟨message, hm, hrun⟩, hf hrun⟩

/-- The stored projection of a message of the log is what the projector returned. -/
theorem derivedStores_projections {message : MessageEnvelope} (h : message ∈ log.all) :
    (derivedStores ports log).projections message.id = ports.projector.run message := by
  refine Option.ext fun projection => ?_
  unfold derivedStores
  rw [UpsertStore.upsertAll_empty_eq_some_iff (nodup_messageId_projectionsOf log)]
  exact mem_filterMap_and_messageId_iff log.nodup (fun hrun => ports.projector.run_messageId hrun) h

/-- The projection store holds exactly the ids of the messages the projector does not fail on. -/
theorem isSome_derivedStores_projections {id : MessageId} :
    ((derivedStores ports log).projections id).isSome ↔
      ∃ message ∈ log.all, message.id = id ∧ (ports.projector.run message).isSome := by
  unfold derivedStores
  rw [UpsertStore.isSome_upsertAll, UpsertStore.empty_apply]
  constructor
  · rintro (⟨projection, hp, rfl⟩ | h)
    · obtain ⟨message, hm, hrun⟩ := mem_projectionsOf.mp hp
      exact ⟨message, hm, (ports.projector.run_messageId hrun).symm, by rw [hrun]; rfl⟩
    · simp at h
  · rintro ⟨message, hm, rfl, hsome⟩
    obtain ⟨projection, hrun⟩ := Option.isSome_iff_exists.mp hsome
    exact Or.inl ⟨projection, mem_projectionsOf.mpr ⟨message, hm, hrun⟩,
      ports.projector.run_messageId hrun⟩

/-- The hint of a message of the log is built from what the projector returned. -/
theorem derivedStores_hints {message : MessageEnvelope} (h : message ∈ log.all) :
    (derivedStores ports log).hints message.id =
      (ports.projector.run message).map (hintOf ports log) := by
  have hkeys : (((projectionsOf ports log.all).map (hintOf ports log)).map
      RoutingHint.messageId).Nodup := by
    have hid : RoutingHint.messageId ∘ hintOf ports log = Projection.messageId :=
      funext fun projection => ports.hinter.hint_messageId projection _
    rw [List.map_map, hid]
    exact nodup_messageId_projectionsOf log
  refine Option.ext fun hint => ?_
  unfold derivedStores
  rw [UpsertStore.upsertAll_empty_eq_some_iff hkeys, List.mem_map, Option.map_eq_some_iff]
  constructor
  · rintro ⟨⟨projection, hp, rfl⟩, hid⟩
    -- a hint has the id of its projection
    have hid' : projection.messageId = message.id :=
      (ports.hinter.hint_messageId projection _).symm.trans hid
    have hrun := (mem_filterMap_and_messageId_iff log.nodup
      (fun hrun => ports.projector.run_messageId hrun) h).mp ⟨hp, hid'⟩
    exact ⟨projection, hrun, rfl⟩
  · rintro ⟨projection, hrun, rfl⟩
    exact ⟨⟨projection, mem_projectionsOf.mpr ⟨message, h, hrun⟩, rfl⟩,
      (ports.hinter.hint_messageId projection _).trans (ports.projector.run_messageId hrun)⟩

/-- The hint store holds exactly the ids the projection store holds. -/
theorem isSome_derivedStores_hints {id : MessageId} :
    ((derivedStores ports log).hints id).isSome ↔
      ((derivedStores ports log).projections id).isSome := by
  unfold derivedStores
  rw [UpsertStore.isSome_upsertAll, UpsertStore.isSome_upsertAll]
  refine or_congr ?_ Iff.rfl
  constructor
  · rintro ⟨hint, hmem, rfl⟩
    obtain ⟨projection, hp, rfl⟩ := List.mem_map.mp hmem
    exact ⟨projection, hp, (ports.hinter.hint_messageId projection _).symm⟩
  · rintro ⟨projection, hp, rfl⟩
    exact ⟨_, List.mem_map_of_mem hp, ports.hinter.hint_messageId projection _⟩

theorem derivedStores_scopes (c : ConversationId) :
    (derivedStores ports log).scopes c =
      if c ∈ log.conversationIds then some (scopeOf ports log c) else none :=
  UpsertStore.upsertAll_map_apply (fun c => ports.scoper.scope_conversation c _) _ c

theorem derivedStores_warmups (c : ConversationId) :
    (derivedStores ports log).warmups c =
      if c ∈ log.conversationIds then some (warmupOf ports log c) else none :=
  UpsertStore.upsertAll_map_apply (fun c => ports.builder.build_conversation c _ _) _ c

theorem derivedStores_developers (c : ConversationId) :
    (derivedStores ports log).developers c =
      if c ∈ log.conversationIds then some (developersOf ports log c) else none :=
  UpsertStore.upsertAll_map_apply (fun c => ports.snapshotter.build_conversation c _ _) _ c

/-! ### The payloads of a log -/

/-- The pairs of the grouping: each conversation with the ids of its messages. -/
theorem groupByConversation_eq (log : MessageLog) :
    groupByConversation log.all =
      log.conversationIds.map fun c => (c, (log.messagesFor c).map MessageEnvelope.id) :=
  groupFirstSeen_eq _ _ _

/-- A conversation's participants are those of its messages. -/
theorem getD_participantsByConversation (messages : List MessageEnvelope) (c : ConversationId) :
    (participantsByConversation messages c).getD [] =
      participantsOf (messages.filter fun message => message.conversation.id = c) := by
  let authorsOf : List MessageEnvelope → SortedAssoc String String := fun messages =>
    messages.foldl (fun authors message => authors.alter message.author.id.val fun _ =>
      message.author.displayName) .empty
  -- the fold over the whole log keeps, for each conversation, the fold over its messages
  have hfold : ∀ c, ((messages.foldl addParticipant .empty) c).getD .empty =
      authorsOf (messages.filter fun message => message.conversation.id = c) := by
    induction messages using List.reverseRecOn with
    | nil => intro c; rfl
    | append_singleton messages message ih =>
      intro c
      rw [List.foldl_append, List.foldl_cons, List.foldl_nil, addParticipant,
        KeyedStore.insert_apply, List.filter_append]
      by_cases hc : message.conversation.id = c
      · subst hc
        simp [authorsOf, ih]
      · simp [hc, Ne.symm hc, ih]
  have hentries : (participantsByConversation messages c).getD [] =
      (((messages.foldl addParticipant .empty) c).getD .empty).entries.map
        fun entry => ⟨⟨entry.1⟩, entry.2⟩ := by
    show (Option.map _ ((messages.foldl addParticipant .empty) c)).getD [] = _
    cases (messages.foldl addParticipant .empty) c <;> rfl
  rw [hentries, hfold]
  rfl

/-- The stored projections of a conversation are those of its messages. -/
theorem storedProjections_messagesFor (c : ConversationId) :
    storedProjections (derivedStores ports log).projections
      ((log.messagesFor c).map MessageEnvelope.id) = projectionsOf ports (log.messagesFor c) := by
  unfold storedProjections
  rw [List.filterMap_map, projectionsOf]
  refine List.filterMap_congr fun message hm => ?_
  exact derivedStores_projections (MessageLog.mem_messagesFor.mp hm).1

/-- The stored projections of all ids are all projections. -/
theorem storedProjections_all :
    storedProjections (derivedStores ports log).projections (log.all.map MessageEnvelope.id) =
      projectionsOf ports log.all := by
  unfold storedProjections
  rw [List.filterMap_map, projectionsOf]
  exact List.filterMap_congr fun message hm => derivedStores_projections hm

end Mirrorlane
