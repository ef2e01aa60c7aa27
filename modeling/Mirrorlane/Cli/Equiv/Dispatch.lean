import Mirrorlane.Cli.Commands
import Mirrorlane.Foundation.Redelivery
import Mirrorlane.Provider.Context
import Mirrorlane.Worker.Dispatch
import Mirrorlane.Worker.Equiv.Derived
import Mirrorlane.Worker.Equiv.Producers
import Mirrorlane.Worker.Equiv.RouteAttempts

/-!
# The dispatch path and the read path agree

A session context routes its projections when it is read; the route job routes them when they are
dispatched, and stores the decisions.  Over the same projections and with the same router both come
to the same decisions and drafts, however the requests are cut and however often they are executed
(`dispatch_agrees_with_contexts`).
-/

namespace Mirrorlane

/-! ### What a route job leaves -/

namespace SinkSetup

variable (setup : SinkSetup) (router : RuleRouter)

/-- The receipt of a projection at the recording consumer of a kind. -/
def receiptFor (kind : ConsumerKind) (projection : Projection) : Option ConsumerReceipt :=
  let decision := (router.route projection).1
  if decision.target = kind ∧ setup.records kind ∧ ¬(setup.drafts ∧ kind = .gitHub) then
    some ⟨kind, decision.messageId⟩
  else none

/-- The draft of a projection at the GitHub consumer. -/
def draftOf (projection : Projection) : Option GitHubDraft :=
  if setup.drafts ∧ (router.route projection).1.target = .gitHub then some (draftFor projection)
  else none

/-- The state after some projections were routed and dispatched. -/
def dispatchAll (state : DispatchState) (projections : List Projection) : DispatchState :=
  (state.1.recordAll (projections.map router.route),
    { receipts := fun kind =>
        (state.2.receipts kind).upsertAll (projections.filterMap (setup.receiptFor router kind))
      drafts := state.2.drafts.upsertAll (projections.filterMap (setup.draftOf router)) })

theorem dispatchAll_append (state : DispatchState) (projections more : List Projection) :
    setup.dispatchAll router state (projections ++ more) =
      setup.dispatchAll router (setup.dispatchAll router state projections) more := by
  unfold dispatchAll
  simp only [List.map_append, List.filterMap_append, RoutingStores.recordAll, List.foldl_append,
    UpsertStore.upsertAll_append]

/-- The consumer of a kind. -/
theorem consumers_registry (kind : ConsumerKind) : setup.registry.consumers kind =
    if setup.drafts ∧ kind = .gitHub then some Sinks.gitHub
    else if setup.records kind then some (Sinks.recording kind) else none := by
  unfold registry
  cases setup.drafts with
  | false => simp
  | true =>
    simp only [if_true, true_and, ConsumerRegistry.register]
    by_cases hkind : kind = .gitHub
    · rw [hkind, KeyedStore.insert_self, if_pos rfl]
    · rw [KeyedStore.insert_of_ne _ hkind, if_neg hkind]

variable (projection : Projection)

theorem receiptFor_of_target {kind : ConsumerKind}
    (htarget : (router.route projection).1.target = kind) :
    setup.receiptFor router kind projection =
      if setup.records kind ∧ ¬(setup.drafts ∧ kind = .gitHub) then
        some ⟨kind, (router.route projection).1.messageId⟩
      else none := by
  simp only [receiptFor, htarget, true_and]

theorem receiptFor_of_ne {kind : ConsumerKind} (h : (router.route projection).1.target ≠ kind) :
    setup.receiptFor router kind projection = none := by
  simp only [receiptFor, h, false_and, if_false]

/-- **A dispatch never fails**, and records what the setup says. -/
theorem dispatch_registry (stores : RoutingStores) (sinks : Sinks) :
    setup.registry.dispatch (router.route projection).1 projection sinks =
      (.ok (), (setup.dispatchAll router (stores, sinks) [projection]).2) := by
  obtain ⟨receipts, drafts⟩ := sinks
  unfold ConsumerRegistry.dispatch
  rw [consumers_registry]
  set target := (router.route projection).1.target with htarget
  -- the recording consumers of other kinds keep what they have
  have hother : ∀ kind, kind ≠ target →
      (receipts kind).upsertAll ([projection].filterMap (setup.receiptFor router kind)) =
        receipts kind := fun kind hkind => by
    rw [List.filterMap_cons, setup.receiptFor_of_ne router projection (Ne.symm hkind)]
    rfl
  have hsame := setup.receiptFor_of_target router projection htarget.symm
  by_cases hdrafts : setup.drafts = true ∧ target = .gitHub
  · have hdraft : setup.draftOf router projection = some (draftFor projection) := if_pos hdrafts
    simp only [if_pos hdrafts]
    refine Prod.ext rfl (Sinks.ext (funext fun kind => ?_) ?_)
    · show receipts kind = (receipts kind).upsertAll _
      by_cases hkind : kind = target
      · have hnone : setup.receiptFor router kind projection = none := by
          rw [hkind, hsame, if_neg fun h => h.2 hdrafts]
        rw [List.filterMap_cons, hnone]
        rfl
      · exact (hother kind hkind).symm
    · show drafts.upsert _ = drafts.upsertAll _
      rw [List.filterMap_cons, hdraft]
      rfl
  · have hdraft : setup.draftOf router projection = none := if_neg hdrafts
    have hkept : drafts.upsertAll ([projection].filterMap (setup.draftOf router)) = drafts := by
      rw [List.filterMap_cons, hdraft]
      rfl
    simp only [if_neg hdrafts]
    by_cases hrecords : setup.records target = true
    · simp only [if_pos hrecords]
      refine Prod.ext rfl (Sinks.ext (funext fun kind => ?_) hkept.symm)
      show (if kind = target then (receipts target).upsert _ else receipts kind) =
        (receipts kind).upsertAll _
      by_cases hkind : kind = target
      · rw [if_pos hkind, hkind, List.filterMap_cons, hsame, if_pos ⟨hrecords, hdrafts⟩]
        rfl
      · rw [if_neg hkind, hother kind hkind]
    · simp only [if_neg hrecords]
      refine Prod.ext rfl (Sinks.ext (funext fun kind => ?_) hkept.symm)
      show receipts kind = (receipts kind).upsertAll _
      by_cases hkind : kind = target
      · rw [hkind, List.filterMap_cons, hsame, if_neg fun h => hrecords h.1]
        rfl
      · exact (hother kind hkind).symm

/-- The loop of the job goes through. -/
theorem runMessages_job (projections : InMemoryProjectionStore) (ids : List MessageId) :
    ∀ (stores : RoutingStores) (sinks : Sinks),
      (setup.job projections router).runMessages ids stores sinks =
        (.ok (), setup.dispatchAll router (stores, sinks) (ids.filterMap projections.get)) := by
  induction ids with
  | nil => intro stores sinks; rfl
  | cons id ids ih =>
    intro stores sinks
    rw [RouteJob.runMessages, List.filterMap_cons]
    have hprojections : (setup.job projections router).projections id = projections id := rfl
    rw [hprojections]
    cases hprojection : projections id with
    | none => exact ih stores sinks
    | some projection =>
      have hdispatch := setup.dispatch_registry router projection stores sinks
      have hjob : (setup.job projections router).consumers.dispatch
          ((setup.job projections router).router.route projection).1 projection sinks = _ :=
        hdispatch
      have happend := setup.dispatchAll_append router (stores, sinks) [projection]
        (ids.filterMap projections.get)
      simp only [hjob]
      exact (ih _ _).trans (congrArg (Prod.mk (Except.ok ())) happend.symm)

/-- The projections that some requests route. -/
def requested (projections : InMemoryProjectionStore) (requests : List RoutingRequest) :
    List Projection :=
  requests.flatMap fun request => request.messages.filterMap projections.get

/-- Executing requests routes their projections, in order. -/
theorem deliver_eq (projections : InMemoryProjectionStore) (deliveries : List RoutingRequest) :
    setup.deliver projections router deliveries =
      setup.dispatchAll router (⟨.empty, .empty⟩, .empty) (requested projections deliveries) := by
  suffices key : ∀ state : DispatchState, deliveries.foldl (fun state request =>
      ((setup.job projections router).run request state.1 state.2).2) state =
        setup.dispatchAll router state (requested projections deliveries) from key _
  induction deliveries with
  | nil => intro state; rfl
  | cons request deliveries ih =>
    intro state
    have hcons : requested projections (request :: deliveries) =
        request.messages.filterMap projections.get ++ requested projections deliveries :=
      List.flatMap_cons
    have hrun := setup.runMessages_job router projections request.messages state.1 state.2
    rw [List.foldl_cons, ih, hcons, dispatchAll_append, RouteJob.run, hrun]

end SinkSetup

/-- Some request asks for the message. -/
def RoutingRequest.Asks (requests : List RoutingRequest) (id : MessageId) : Prop :=
  ∃ request ∈ requests, id ∈ request.messages

instance (requests : List RoutingRequest) : DecidablePred (RoutingRequest.Asks requests) :=
  fun id => inferInstanceAs (Decidable (∃ request ∈ requests, id ∈ request.messages))

theorem mem_requested_iff {projections : InMemoryProjectionStore} {requests : List RoutingRequest}
    {projection : Projection} : projection ∈ SinkSetup.requested projections requests ↔
      RoutingRequest.Asks requests projection.messageId ∧
        projections projection.messageId = some projection := by
  unfold SinkSetup.requested RoutingRequest.Asks
  rw [List.mem_flatMap]
  constructor
  · rintro ⟨request, hrequest, hmem⟩
    obtain ⟨id, hid, hsome⟩ := List.mem_filterMap.mp hmem
    have hown : projection.messageId = id := projections.own hsome
    exact ⟨⟨request, hrequest, hown ▸ hid⟩, hown ▸ hsome⟩
  · rintro ⟨⟨request, hrequest, hid⟩, hsome⟩
    exact ⟨request, hrequest, List.mem_filterMap.mpr ⟨_, hid, hsome⟩⟩

/-! ### What the deliveries leave -/

section Deliveries

variable {setup : SinkSetup} {projections : InMemoryProjectionStore} {router : RuleRouter}
  {requests deliveries : List RoutingRequest}

/-- The projections that were routed are those that were requested, each at least once. -/
theorem mem_requested_of_delivers (projections : InMemoryProjectionStore)
    (h : Delivers requests deliveries) (projection : Projection) :
    projection ∈ SinkSetup.requested projections deliveries ↔
      RoutingRequest.Asks requests projection.messageId ∧
        projections projection.messageId = some projection := by
  rw [mem_requested_iff]
  refine and_congr_left fun _ => ?_
  exact exists_congr fun request => and_congr_left fun _ => h request

/-- What a store of values of the routed projections holds. -/
theorem upsertAll_routed_apply {κ ν : Type} [DecidableEq κ] {key : ν → κ}
    {f : Projection → Option ν} {k : κ} {id : MessageId} {routed : List Projection}
    (hrouted : ∀ projection, projection ∈ routed ↔
      RoutingRequest.Asks requests projection.messageId ∧
        projections projection.messageId = some projection)
    (hkey : ∀ {projection v}, f projection = some v → (key v = k ↔ projection.messageId = id)) :
    (UpsertStore.empty : UpsertStore key).upsertAll (routed.filterMap f) k =
      if RoutingRequest.Asks requests id then (projections id).bind f else none := by
  refine UpsertStore.upsertAll_empty_apply_of_unique fun v => ?_
  rw [List.mem_filterMap]
  constructor
  · rintro ⟨⟨projection, hmem, hf⟩, hk⟩
    obtain ⟨hasks, hsome⟩ := (hrouted projection).mp hmem
    obtain rfl := (hkey hf).mp hk
    rw [if_pos hasks, hsome]
    exact hf
  · intro h
    split_ifs at h with hasks
    obtain ⟨projection, hsome, hf⟩ := Option.bind_eq_some_iff.mp h
    have hown : projection.messageId = id := projections.own hsome
    refine ⟨⟨projection, (hrouted projection).mpr ?_, hf⟩, (hkey hf).mpr hown⟩
    rw [hown]
    exact ⟨hasks, hsome⟩

/-- The same for a value of every projection. -/
theorem upsertAll_routed_map {κ ν : Type} [DecidableEq κ] {key : ν → κ} {f : Projection → ν}
    {k : κ} {id : MessageId} {routed : List Projection}
    (hrouted : ∀ projection, projection ∈ routed ↔
      RoutingRequest.Asks requests projection.messageId ∧
        projections projection.messageId = some projection)
    (hkey : ∀ projection, key (f projection) = k ↔ projection.messageId = id) :
    (UpsertStore.empty : UpsertStore key).upsertAll (routed.map f) k =
      if RoutingRequest.Asks requests id then (projections id).map f else none := by
  have hmap : routed.map f = routed.filterMap (some ∘ f) :=
    (congrFun List.filterMap_eq_map routed).symm
  rw [hmap, Option.map_eq_bind]
  refine upsertAll_routed_apply hrouted fun {projection v} hf => ?_
  cases hf
  exact hkey projection

/-- The stores and the consumers, message by message. -/
theorem deliver_apply (setup : SinkSetup) (projections : InMemoryProjectionStore)
    (router : RuleRouter) (h : Delivers requests deliveries) (id : MessageId) :
    let state := setup.deliver projections router deliveries
    state.1.routes id = (if RoutingRequest.Asks requests id then
      (projections id).map fun projection => (router.route projection).1 else none) ∧
    state.1.traces id = (if RoutingRequest.Asks requests id then
      (projections id).map fun projection => (router.route projection).2 else none) ∧
    state.2.drafts id = (if RoutingRequest.Asks requests id then
      (projections id).bind (setup.draftOf router) else none) ∧
    ∀ kind, state.2.receipts kind ⟨kind, id⟩ = (if RoutingRequest.Asks requests id then
      (projections id).bind (setup.receiptFor router kind) else none) := by
  have hrouted := mem_requested_of_delivers projections h
  intro state
  have hstate : state = _ := setup.deliver_eq router projections deliveries
  rw [hstate]
  simp only [SinkSetup.dispatchAll]
  simp only [RoutingStores.recordAll_eq, List.map_map]
  refine ⟨?_, ?_, ?_, fun kind => ?_⟩
  · refine upsertAll_routed_map hrouted fun projection => ?_
    show (router.route projection).1.messageId = id ↔ _
    rw [RuleRouter.route_messageId]
  · refine upsertAll_routed_map hrouted fun projection => ?_
    show (router.route projection).2.messageId = id ↔ _
    rw [show (router.route projection).2.messageId = projection.messageId from
      router.port.trace_messageId projection]
  · refine upsertAll_routed_apply hrouted fun {projection v} hf => ?_
    unfold SinkSetup.draftOf at hf
    split_ifs at hf
    cases hf
    rfl
  · refine upsertAll_routed_apply hrouted fun {projection v} hf => ?_
    simp only [SinkSetup.receiptFor] at hf
    split_ifs at hf
    cases hf
    simp [RuleRouter.route_messageId]

end Deliveries

/-- The drafts of a session context are those of the GitHub consumer. -/
theorem drafts_of_projections {setup : SinkSetup} (hdrafts : setup.drafts = true)
    (router : RuleRouter) (projections : List Projection) :
    ((projections.map fun projection => (projection, router.route projection)).filter
        fun pair => pair.2.1.target = .gitHub).map (fun pair => draftFor pair.1) =
      projections.filterMap (setup.draftOf router) := by
  induction projections with
  | nil => rfl
  | cons projection projections ih =>
    rw [List.map_cons, List.filterMap_cons]
    by_cases htarget : (router.route projection).1.target = .gitHub
    · have hdraft : setup.draftOf router projection = some (draftFor projection) :=
        if_pos ⟨hdrafts, htarget⟩
      rw [List.filter_cons_of_pos (by simpa using htarget), List.map_cons, ih, hdraft]
    · have hdraft : setup.draftOf router projection = none := if_neg fun h => htarget h.2
      rw [List.filter_cons_of_neg (by simpa using htarget), ih, hdraft]

/-- **The dispatch path and the read path agree.** Cut the ids of some messages into requests, with
any repetitions, and execute every request at least once, in any order, over the projections of a
run.  No execution fails.  The stores hold the decision and the trace of every message that was
asked for and projected, and nothing else; a kind that is recorded has received exactly the messages
decided for it; and when every message of a conversation was asked for, the decisions and drafts of
its session context are what the stores and the GitHub consumer hold of its messages. -/
theorem dispatch_agrees_with_contexts (setup : SinkSetup) (ports : StrategyContext)
    (log : MessageLog) (router : RuleRouter) {requests deliveries : List RoutingRequest}
    (h : Delivers requests deliveries) :
    let projections := (runPhases ports log).projections
    let state := setup.deliver projections router deliveries
    (∀ request (before : DispatchState),
      ((setup.job projections router).run request before.1 before.2).1 = .ok ()) ∧
    (∀ id, state.1.routes id = (if RoutingRequest.Asks requests id then
        (projections id).map fun projection => (router.route projection).1 else none) ∧
      state.1.traces id = (if RoutingRequest.Asks requests id then
        (projections id).map fun projection => (router.route projection).2 else none)) ∧
    (∀ kind id, setup.records kind = true → ¬(setup.drafts = true ∧ kind = .gitHub) →
      ((state.2.receipts kind).received kind id = true ↔
        ∃ decision, state.1.routes id = some decision ∧ decision.target = kind)) ∧
    ∀ c version, (∀ message ∈ log.messagesFor c, RoutingRequest.Asks requests message.id) →
      (sessionContextFrom (derivationOf ports log c) version router).decisions =
        (log.messagesFor c).filterMap (fun message => state.1.routes message.id) ∧
      (setup.drafts = true →
        (sessionContextFrom (derivationOf ports log c) version router).drafts =
          (log.messagesFor c).filterMap fun message => state.2.drafts message.id) := by
  intro projections state
  have happly := deliver_apply setup projections router h
  refine ⟨fun request before => ?_, fun id => ⟨(happly id).1, (happly id).2.1⟩,
    fun kind id hrecords hdrafts => ?_, fun c version hasks => ?_⟩
  · rw [RouteJob.run, setup.runMessages_job]
  · obtain ⟨hroutes, -, -, hreceipts⟩ := happly id
    rw [RecordingConsumer.received, hreceipts kind, hroutes]
    by_cases hasked : RoutingRequest.Asks requests id
    · simp only [if_pos hasked]
      cases projections id with
      | none => simp
      | some projection => simp [SinkSetup.receiptFor, hrecords, hdrafts]
    · simp [if_neg hasked]
  · -- message by message, what the run projected
    have hprojected : ∀ message ∈ log.messagesFor c,
        projections message.id = ports.projector.run message := by
      intro message hmem
      show (runPhases ports log).projections message.id = _
      rw [runPhases_eq]
      exact derivedStores_projections (List.mem_of_mem_filter hmem)
    have hasked : ∀ message ∈ log.messagesFor c, state.1.routes message.id =
        (ports.projector.run message).map (fun projection => (router.route projection).1) ∧
        state.2.drafts message.id =
          (ports.projector.run message).bind (setup.draftOf router) := by
      intro message hmem
      obtain ⟨hroutes, -, hdrafts, -⟩ := happly message.id
      rw [hroutes, hdrafts, if_pos (hasks message hmem), if_pos (hasks message hmem),
        hprojected message hmem]
      exact ⟨rfl, rfl⟩
    constructor
    · rw [List.filterMap_congr fun message hmem => (hasked message hmem).1]
      show (((log.messagesFor c).filterMap ports.projector.run).map _).map _ = _
      rw [List.map_map, List.map_filterMap]
      rfl
    · intro hdrafts
      rw [List.filterMap_congr fun message hmem => (hasked message hmem).2]
      rw [← List.filterMap_filterMap]
      exact drafts_of_projections hdrafts router _

/-- Two requests that overlap. -/
def overlappingRequests : List RoutingRequest :=
  [⟨[⟨"m-1"⟩]⟩, ⟨[⟨"m-2"⟩, ⟨"m-1"⟩]⟩]

/-- Every request is executed twice, first in the opposite order. -/
theorem dispatch_agrees_with_contexts_redelivered :
    let log := (MessageLog.empty.append (Producers.question "m-1" "c-1")).append
      (Producers.question "m-2" "c-2")
    let state := SinkSetup.deliver ⟨fun _ => true, true⟩ (runPhases mockPorts log).projections .new
      (overlappingRequests.reverse ++ overlappingRequests)
    (sessionContextFrom (derivationOf mockPorts log ⟨"c-1"⟩) "v1" .new).decisions =
      (log.messagesFor ⟨"c-1"⟩).filterMap (fun message => state.1.routes message.id) := by
  intro log state
  exact ((dispatch_agrees_with_contexts ⟨fun _ => true, true⟩ mockPorts log .new
    (Delivers.reverse_append overlappingRequests)).2.2.2 ⟨"c-1"⟩ "v1" (by decide +kernel)).1

end Mirrorlane
