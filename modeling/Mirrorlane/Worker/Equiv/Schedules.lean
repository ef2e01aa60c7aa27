import Mirrorlane.Worker.Equiv.Runs

/-!
# Confluence of a run under at-least-once delivery

The payloads of every stage write pairwise different keys, so each stage is redeliverable, and a
schedule that delivers every payload at least once ends in `derivedStores`: stage by stage, each
stage reading what the stages before it left (`runSchedule_eq`).
-/

namespace Mirrorlane

variable {ports : StrategyContext} {log : MessageLog}

/-! ### The three fan-out shapes -/

/-- A stage with one payload per message, which writes at most one value under the message's id. -/
theorem foldl_perMessage {ν : Type} {key : ν → MessageId} {value : MessageEnvelope → Option ν}
    (hkey : ∀ {message v}, value message = some v → key v = message.id)
    {deliveries : List MessageEnvelope} (hd : Delivers log.all deliveries) :
    deliveries.foldl (fun (s : UpsertStore key) message => s.upsertAll (value message).toList)
        UpsertStore.empty =
      UpsertStore.empty.upsertAll (log.all.filterMap value) := by
  have hstage : Redeliverable
      (fun (s : UpsertStore key) message => s.upsertAll (value message).toList) log.all := by
    refine UpsertStore.redeliverable_upsertAll fun m hm m' hm' hne v hv w hw => ?_
    rw [Option.mem_toList] at hv hw
    rw [hkey hv, hkey hw]
    -- two different messages of the log have different ids
    exact fun hid => hne (List.inj_on_of_nodup_map log.nodup hm hm' hid)
  rw [foldl_eq_of_delivers hstage hd, UpsertStore.foldl_upsertAll,
    List.filterMap_eq_flatMap_toList]

/-- A stage with one payload per conversation, which writes one value under the conversation. -/
theorem foldl_perConversation {π ν : Type} [DecidableEq π] {key : ν → ConversationId}
    {build : ConversationId → List MessageId → π} {value : π → ν} {f : ConversationId → ν}
    (hkey : ∀ c, key (f c) = c)
    (hvalue : ∀ c ∈ log.conversationIds,
      value (build c ((log.messagesFor c).map MessageEnvelope.id)) = f c)
    {deliveries : List π}
    (hd : Delivers (perConversation (groupByConversation log.all) build) deliveries) :
    deliveries.foldl (fun (s : UpsertStore key) p => s.upsert (value p)) UpsertStore.empty =
      UpsertStore.empty.upsertAll (log.conversationIds.map f) := by
  have hpayloads : perConversation (groupByConversation log.all) build =
      log.conversationIds.map fun c => build c ((log.messagesFor c).map MessageEnvelope.id) := by
    unfold perConversation
    rw [groupByConversation_eq, List.map_map]
    rfl
  have hstage : Redeliverable (fun (s : UpsertStore key) p => s.upsertAll [value p])
      (perConversation (groupByConversation log.all) build) := by
    refine UpsertStore.redeliverable_upsertAll fun p hp q hq hne v hv w hw => ?_
    rw [hpayloads, List.mem_map] at hp hq
    obtain ⟨c, hc, rfl⟩ := hp
    obtain ⟨c', hc', rfl⟩ := hq
    rw [List.mem_singleton, hvalue c hc] at hv
    rw [List.mem_singleton, hvalue c' hc'] at hw
    rw [hv, hw, hkey, hkey]
    -- the payload is determined by its conversation
    rintro rfl
    exact hne rfl
  have hvalues : (log.conversationIds.map fun c =>
      build c ((log.messagesFor c).map MessageEnvelope.id)).flatMap (fun p => [value p]) =
      log.conversationIds.map f := by
    rw [List.flatMap_map, ← List.map_eq_flatMap]
    exact List.map_congr_left hvalue
  calc deliveries.foldl (fun (s : UpsertStore key) p => s.upsert (value p)) UpsertStore.empty
      = (perConversation (groupByConversation log.all) build).foldl
          (fun (s : UpsertStore key) p => s.upsertAll [value p]) UpsertStore.empty :=
        foldl_eq_of_delivers hstage hd _
    _ = UpsertStore.empty.upsertAll (log.conversationIds.map f) := by
        rw [UpsertStore.foldl_upsertAll, hpayloads, hvalues]

/-- A stage with a single payload. -/
theorem foldl_global {π κ ν : Type} [DecidableEq π] [DecidableEq κ] {key : ν → κ} {payload : π}
    {writes : π → List ν} {deliveries : List π} (hd : Delivers (global payload) deliveries) :
    deliveries.foldl (fun (s : UpsertStore key) p => s.upsertAll (writes p)) UpsertStore.empty =
      UpsertStore.empty.upsertAll (writes payload) := by
  have hstage : Redeliverable (fun (s : UpsertStore key) p => s.upsertAll (writes p))
      (global payload) := by
    refine UpsertStore.redeliverable_upsertAll fun p hp q hq hne => ?_
    -- there are no two different payloads
    unfold global at hp hq
    rw [List.mem_singleton] at hp hq
    exact absurd (hp.trans hq.symm) hne
  rw [foldl_eq_of_delivers hstage hd]
  rfl

/-! ### The six stages -/

theorem messages_stage {deliveries : List MessageEnvelope}
    (hd : Delivers (Schedule.payloads log.all).messages deliveries) :
    deliveries.foldl (ProcessMessageJob.run ports.projector) .empty =
      (derivedStores ports log).projections := by
  have hpayloads : (Schedule.payloads log.all).messages = log.all := List.map_id _
  have hrun : ProcessMessageJob.run ports.projector =
      fun store message => store.upsertAll (ports.projector.run message).toList := by
    funext store message
    exact ProcessMessageJob.run_eq _ _ _
  rw [hpayloads] at hd
  rw [hrun, foldl_perMessage (fun h => ports.projector.run_messageId h) hd]
  rfl

theorem scopes_stage {deliveries : List ScopeRequest}
    (hd : Delivers (Schedule.payloads log.all).scopes deliveries) :
    deliveries.foldl
        (BuildScopeJob.run (derivedStores ports log).projections ports.scoper) .empty =
      (derivedStores ports log).scopes := by
  refine foldl_perConversation (f := scopeOf ports log)
    (fun c => ports.scoper.scope_conversation c _) (fun c _ => ?_) hd
  show ports.scoper.scope c (storedProjections _ _) = _
  rw [storedProjections_messagesFor]
  rfl

theorem warmups_stage {deliveries : List WarmupRequest}
    (hd : Delivers (Schedule.payloads log.all).warmups deliveries) :
    deliveries.foldl (BuildWarmupJob.run (derivedStores ports log).projections
        (derivedStores ports log).scopes ports.builder) .empty =
      (derivedStores ports log).warmups := by
  refine foldl_perConversation (f := warmupOf ports log)
    (fun c => ports.builder.build_conversation c _ _) (fun c hc => ?_) hd
  show ports.builder.build c ((derivedStores ports log).scopes c) (storedProjections _ _) = _
  rw [storedProjections_messagesFor, derivedStores_scopes, if_pos hc]
  rfl

/-- The contributions of the log's entries are those of its messages. -/
theorem filterMap_contribution (log : MessageLog) :
    (log.all.map fun message => (⟨message.author.id, message.author.displayName, message.id⟩ :
      SkillEntry)).filterMap (SkillEntry.contribution (derivedStores ports log).projections) =
      log.all.filterMap (contributionOf ports) := by
  rw [List.filterMap_map]
  refine List.filterMap_congr fun message hm => ?_
  show ((derivedStores ports log).projections message.id).map _ = _
  rw [derivedStores_projections hm]
  rfl

theorem skills_stage {deliveries : List SkillRequest}
    (hd : Delivers (Schedule.payloads log.all).skills deliveries) :
    deliveries.foldl
        (BuildSkillJob.run (derivedStores ports log).projections ports.skillBuilder) .empty =
      (derivedStores ports log).skills := by
  have hrun : BuildSkillJob.run (derivedStores ports log).projections ports.skillBuilder =
      fun skills request => skills.upsertAll (ports.skillBuilder.build (request.entries.filterMap
        (SkillEntry.contribution (derivedStores ports log).projections))).ownerships := rfl
  rw [hrun, foldl_global hd, filterMap_contribution]
  rfl

theorem hints_stage {deliveries : List RoutingHintRequest}
    (hd : Delivers (Schedule.payloads log.all).hints deliveries) :
    deliveries.foldl (BuildRoutingHintJob.run (derivedStores ports log).projections
        (derivedStores ports log).skills ports.hinter) .empty =
      (derivedStores ports log).hints := by
  have hrun : BuildRoutingHintJob.run (derivedStores ports log).projections
      (derivedStores ports log).skills ports.hinter =
      fun hints request => hints.upsertAll ((storedProjections (derivedStores ports log).projections
        request.messages).map (hintOf ports log)) := by
    funext hints request
    exact BuildRoutingHintJob.run_eq _ _ _ _ _
  rw [hrun, foldl_global hd, storedProjections_all]
  rfl

/-- The ownerships a conversation's snapshot is built from. -/
theorem ownerships_messagesFor (c : ConversationId) :
    BuildDeveloperSnapshotJob.ownerships (derivedStores ports log).projections
        (derivedStores ports log).skills ((log.messagesFor c).map MessageEnvelope.id) =
      (topicsOf ports log c).filterMap (skillsOf ports log) := by
  rw [BuildDeveloperSnapshotJob.ownerships_eq, storedProjections_messagesFor]
  rfl

theorem developers_stage {deliveries : List DeveloperSnapshotRequest}
    (hd : Delivers (Schedule.payloads log.all).developers deliveries) :
    deliveries.foldl (BuildDeveloperSnapshotJob.run (derivedStores ports log).projections
        (derivedStores ports log).skills ports.snapshotter) .empty =
      (derivedStores ports log).developers := by
  have hd' : Delivers (perConversation (groupByConversation log.all) fun c messages =>
      (⟨c, (participantsByConversation log.all c).getD [], messages⟩ : DeveloperSnapshotRequest))
      deliveries := hd
  refine foldl_perConversation (f := developersOf ports log)
    (fun c => ports.snapshotter.build_conversation c _ _) (fun c _ => ?_) hd'
  show ports.snapshotter.build c ((participantsByConversation log.all c).getD [])
    (BuildDeveloperSnapshotJob.ownerships _ _ _) = _
  rw [ownerships_messagesFor, getD_participantsByConversation]
  rfl

/-! ### Whole runs -/

/-- **Every schedule that delivers each payload at least once ends in the artifacts of the log.** -/
theorem runSchedule_eq {schedule : Schedule} (h : schedule.Delivers log.all) :
    runSchedule ports schedule = derivedStores ports log := by
  unfold runSchedule
  simp only [messages_stage h.messages, scopes_stage h.scopes, warmups_stage h.warmups,
    skills_stage h.skills, hints_stage h.hints, developers_stage h.developers]

theorem Schedule.delivers_payloads (log : List MessageEnvelope) :
    (Schedule.payloads log).Delivers log where
  messages := Delivers.refl _
  scopes := Delivers.refl _
  warmups := Delivers.refl _
  skills := Delivers.refl _
  hints := Delivers.refl _
  developers := Delivers.refl _

/-- The in-process run ends in the artifacts of the log. -/
theorem runPhases_eq : runPhases ports log = derivedStores ports log :=
  runSchedule_eq (Schedule.delivers_payloads log.all)

end Mirrorlane
