import Mirrorlane.Provider.Context
import Mirrorlane.Provider.Equiv.Skill
import Mirrorlane.Worker.Equiv.Schedules

/-!
# The reference run

`runOnce` is the reference for a run: it takes the projections of the messages the projector does
not fail on, and executes every further payload exactly once, in log order.  Over the provider's
ports every delivering schedule ends in its stores, which hold exactly the ids and conversations
they should (`StoresExactly`).
-/

namespace Mirrorlane

/-- The reference run. -/
def runOnce (ports : StrategyContext) (log : MessageLog) : ReplayStores :=
  let payloads := Schedule.payloads log.all
  let projections := (log.all.filterMap ports.projector.run).foldl UpsertStore.upsert .empty
  let scopes := payloads.scopes.foldl (BuildScopeJob.run projections ports.scoper) .empty
  let warmups := payloads.warmups.foldl (BuildWarmupJob.run projections scopes ports.builder) .empty
  let skills := payloads.skills.foldl (BuildSkillJob.run projections ports.skillBuilder) .empty
  let hints := payloads.hints.foldl
    (BuildRoutingHintJob.run projections skills ports.hinter) .empty
  let developers := payloads.developers.foldl
    (BuildDeveloperSnapshotJob.run projections skills ports.snapshotter) .empty
  { projections, scopes, warmups, skills, hints, developers }

theorem runOnce_eq (ports : StrategyContext) (log : MessageLog) :
    runOnce ports log = derivedStores ports log := by
  have hprojections : (log.all.filterMap ports.projector.run).foldl UpsertStore.upsert .empty =
      (derivedStores ports log).projections := rfl
  have hd := Schedule.delivers_payloads log.all
  unfold runOnce
  simp only [hprojections, scopes_stage hd.scopes, warmups_stage hd.warmups,
    skills_stage hd.skills, hints_stage hd.hints, developers_stage hd.developers]

/-- The stores hold exactly what a run over the log produces: projections and hints for the ids of
the messages the projector does not fail on, scopes, warm-ups and developers for the conversations
of the log, ownerships for the topics of the projections. -/
structure StoresExactly (stores : ReplayStores) (projector : Projector) (log : MessageLog) :
    Prop where
  projections : ∀ id, (stores.projections id).isSome ↔
    ∃ message ∈ log.all, message.id = id ∧ (projector.run message).isSome
  hints : ∀ id, (stores.hints id).isSome ↔
    ∃ message ∈ log.all, message.id = id ∧ (projector.run message).isSome
  scopes : ∀ c, (stores.scopes c).isSome ↔ c ∈ log.conversationIds
  warmups : ∀ c, (stores.warmups c).isSome ↔ c ∈ log.conversationIds
  developers : ∀ c, (stores.developers c).isSome ↔ c ∈ log.conversationIds
  skills : ∀ topic, (stores.skills topic).isSome ↔
    ∃ message ∈ log.all, ∃ projection, projector.run message = some projection ∧
      topic ∈ projection.topics

theorem storesExactly_derivedStores (r : Rounding) (toLowercase : String → String)
    (projector : Projector)
    (log : MessageLog) :
    StoresExactly (derivedStores (providerPorts r toLowercase projector) log) projector log where
  projections _ := isSome_derivedStores_projections
  hints _ := isSome_derivedStores_hints.trans isSome_derivedStores_projections
  scopes c := by
    rw [derivedStores_scopes]
    split_ifs with h <;> simp [h]
  warmups c := by
    rw [derivedStores_warmups]
    split_ifs with h <;> simp [h]
  developers c := by
    rw [derivedStores_developers]
    split_ifs with h <;> simp [h]
  skills topic := by
    show (MessageSkillBuilder.ownershipOf r _ topic).isSome ↔ _
    rw [MessageSkillBuilder.isSome_ownershipOf]
    constructor
    · rintro ⟨contribution, hc, ht⟩
      obtain ⟨message, hm, hcontribution⟩ := List.mem_filterMap.mp hc
      obtain ⟨projection, hrun, rfl⟩ := Option.map_eq_some_iff.mp hcontribution
      exact ⟨message, hm, projection, hrun, ht⟩
    · rintro ⟨message, hm, projection, hrun, ht⟩
      have hcontribution : contributionOf (providerPorts r toLowercase projector) message =
          some ⟨message.author.id, message.author.displayName, projection.topics,
            projection.confidence⟩ := by
        show (projector.run message).map _ = _
        rw [hrun]
        rfl
      exact ⟨_, List.mem_filterMap.mpr ⟨message, hm, hcontribution⟩, ht⟩

/-- **Replay is confluent under at-least-once delivery.** -/
theorem runSchedule_confluent (r : Rounding) (toLowercase : String → String) (projector : Projector)
    (log : MessageLog) (schedule : Schedule) (h : schedule.Delivers log.all) :
    runSchedule (providerPorts r toLowercase projector) schedule =
        runOnce (providerPorts r toLowercase projector) log ∧
      StoresExactly (runSchedule (providerPorts r toLowercase projector) schedule)
        projector log := by
  rw [runSchedule_eq h, runOnce_eq]
  exact ⟨rfl, storesExactly_derivedStores r toLowercase projector log⟩

/-- Every payload twice: first in the opposite order, then in log order. -/
def Schedule.redelivered (log : List MessageEnvelope) : Schedule :=
  let once := payloads log
  { messages := once.messages.reverse ++ once.messages
    scopes := once.scopes.reverse ++ once.scopes
    warmups := once.warmups.reverse ++ once.warmups
    skills := once.skills.reverse ++ once.skills
    hints := once.hints.reverse ++ once.hints
    developers := once.developers.reverse ++ once.developers }

/-- A question and a decision in two conversations. -/
def twoConversations : MessageLog where
  all := [⟨⟨"m-1"⟩, .manual, ⟨⟨"alice"⟩, "Alice"⟩, ⟨⟨"c-1"⟩, none⟩, "rust?"⟩,
    ⟨⟨"m-2"⟩, .manual, ⟨⟨"bob"⟩, "Bob"⟩, ⟨⟨"c-2"⟩, none⟩, "we will use rust"⟩]
  nodup := by decide

/-- The mock projector, failing on one message. -/
def failingOn (id : MessageId) : Projector :=
  (MockProjector.projector fun s => s).failing fun message => message.id = id

theorem runSchedule_confluent_redelivered :
    runSchedule (providerPorts .binary64 (fun s => s) (failingOn ⟨"m-2"⟩))
          (.redelivered twoConversations.all) =
        runOnce (providerPorts .binary64 (fun s => s) (failingOn ⟨"m-2"⟩)) twoConversations ∧
      StoresExactly (runSchedule (providerPorts .binary64 (fun s => s) (failingOn ⟨"m-2"⟩))
        (.redelivered twoConversations.all)) (failingOn ⟨"m-2"⟩) twoConversations :=
  runSchedule_confluent .binary64 (fun s => s) (failingOn ⟨"m-2"⟩) twoConversations
    (.redelivered twoConversations.all)
    ⟨.reverse_append _, .reverse_append _, .reverse_append _, .reverse_append _,
      .reverse_append _, .reverse_append _⟩

end Mirrorlane
