import Mirrorlane.Worker.Equiv.RoutedWork

/-!
# A route job converges

An attempt that fails leaves the decisions and traces of the messages up to the failing one.  They
are those of requested messages, so an attempt in which no dispatch fails writes all of them again,
and the stores end as after that attempt alone (`attempts_converge`).
-/

namespace Mirrorlane

/-! ### The stores -/

namespace RoutingStores

theorem recordAll_append (stores : RoutingStores)
    (routed routed' : List (RoutingDecision × RoutingTrace)) :
    stores.recordAll (routed ++ routed') = (stores.recordAll routed).recordAll routed' :=
  List.foldl_append

/-- Each of the two stores is written on its own. -/
theorem recordAll_eq (stores : RoutingStores) (routed : List (RoutingDecision × RoutingTrace)) :
    stores.recordAll routed =
      ⟨stores.traces.upsertAll (routed.map Prod.snd),
        stores.routes.upsertAll (routed.map Prod.fst)⟩ := by
  induction routed generalizing stores with
  | nil => rfl
  | cons first routed ih => exact ih (stores.record first)

end RoutingStores

namespace RouteSetup

variable (setup : RouteSetup)

/-- The decisions and traces of some messages. -/
def routed (ids : List MessageId) : List (RoutingDecision × RoutingTrace) :=
  (ids.filterMap setup.projections.get).map setup.router.route

theorem routed_append (ids ids' : List MessageId) :
    setup.routed (ids ++ ids') = setup.routed ids ++ setup.routed ids' := by
  unfold routed
  rw [List.filterMap_append, List.map_append]

variable {setup}

theorem routed_singleton {id : MessageId} {projection : Projection}
    (h : setup.projections id = some projection) :
    setup.routed [id] = [setup.router.route projection] := by
  simp [routed, h]

theorem mem_routed {ids : List MessageId} {decided : RoutingDecision × RoutingTrace} :
    decided ∈ setup.routed ids ↔
      ∃ id ∈ ids, ∃ projection, setup.projections id = some projection ∧
        setup.router.route projection = decided := by
  unfold routed
  rw [List.mem_map]
  constructor
  · rintro ⟨projection, hprojection, rfl⟩
    obtain ⟨id, hid, hsome⟩ := List.mem_filterMap.mp hprojection
    exact ⟨id, hid, projection, hsome, rfl⟩
  · rintro ⟨id, hid, projection, hsome, rfl⟩
    exact ⟨projection, List.mem_filterMap.mpr ⟨id, hid, hsome⟩, rfl⟩

/-- The decision and the trace of a message are about the message. -/
theorem messageId_of_projection {id : MessageId} {projection : Projection}
    (h : setup.projections id = some projection) :
    (setup.router.route projection).1.messageId = id ∧
      (setup.router.route projection).2.messageId = id := by
  have hown : projection.messageId = id := setup.projections.own h
  exact ⟨(setup.router.decision_messageId projection).trans hown,
    (setup.router.trace_messageId projection).trans hown⟩

/-- What is written for some messages is written over by all of a list that has them. -/
theorem recordAll_routed_of_subset (stores : RoutingStores) {ids all : List MessageId}
    (h : ids ⊆ all) :
    (stores.recordAll (setup.routed ids)).recordAll (setup.routed all) =
      stores.recordAll (setup.routed all) := by
  have hmem : ∀ decided ∈ setup.routed ids, decided ∈ setup.routed all := fun decided hdecided => by
    obtain ⟨id, hid, hrest⟩ := mem_routed.mp hdecided
    exact mem_routed.mpr ⟨id, h hid, hrest⟩
  rw [RoutingStores.recordAll_eq, RoutingStores.recordAll_eq stores (setup.routed all),
    RoutingStores.recordAll_eq, UpsertStore.upsertAll_upsertAll_of_keys,
    UpsertStore.upsertAll_upsertAll_of_keys]
  · intro decision hdecision
    obtain ⟨decided, hdecided, rfl⟩ := List.mem_map.mp hdecision
    exact ⟨decided.1, List.mem_map_of_mem (hmem decided hdecided), rfl⟩
  · intro trace htrace
    obtain ⟨decided, hdecided, rfl⟩ := List.mem_map.mp htrace
    exact ⟨decided.2, List.mem_map_of_mem (hmem decided hdecided), rfl⟩

/-- A message that is not written for keeps its decision and its trace. -/
theorem recordAll_routed_apply (stores : RoutingStores) {ids : List MessageId} {id : MessageId}
    (h : id ∉ ids ∨ setup.projections id = none) :
    (stores.recordAll (setup.routed ids)).routes id = stores.routes id ∧
      (stores.recordAll (setup.routed ids)).traces id = stores.traces id := by
  -- nothing that is written is about the message
  have hother : ∀ decided ∈ setup.routed ids,
      decided.1.messageId ≠ id ∧ decided.2.messageId ≠ id := by
    intro decided hdecided
    obtain ⟨id', hid', projection, hsome, rfl⟩ := mem_routed.mp hdecided
    obtain ⟨hdecision, htrace⟩ := messageId_of_projection hsome
    have hne : id' ≠ id := fun heq => by
      subst heq
      rcases h with hnot | hnone
      · exact hnot hid'
      · rw [hnone] at hsome
        cases hsome
    exact ⟨hdecision ▸ hne, htrace ▸ hne⟩
  rw [RoutingStores.recordAll_eq]
  refine ⟨UpsertStore.upsertAll_of_keys_ne _ fun decision hdecision => ?_,
    UpsertStore.upsertAll_of_keys_ne _ fun trace htrace => ?_⟩
  · obtain ⟨decided, hdecided, rfl⟩ := List.mem_map.mp hdecision
    exact (hother decided hdecided).1
  · obtain ⟨decided, hdecided, rfl⟩ := List.mem_map.mp htrace
    exact (hother decided hdecided).2

variable (setup)

/-- With no failures ahead the loop goes through and stores everything. -/
theorem runMessages_of_no_failure (ids : List MessageId) (stores : RoutingStores)
    (broker : Broker) :
    (setup.job.runMessages ids stores ⟨broker, []⟩).1 = .ok () ∧
      (setup.job.runMessages ids stores ⟨broker, []⟩).2.1 =
        stores.recordAll (setup.routed ids) := by
  induction ids generalizing stores broker with
  | nil => exact ⟨rfl, rfl⟩
  | cons id ids ih =>
    rw [RouteJob.runMessages]
    have hprojections : setup.job.projections id = setup.projections id := rfl
    rw [hprojections]
    cases hprojection : setup.projections id with
    | none =>
      have hrouted : setup.routed (id :: ids) = setup.routed ids := by simp [routed, hprojection]
      rw [hrouted]
      exact ih stores broker
    | some projection =>
      have hrouted : setup.routed (id :: ids) =
          setup.router.route projection :: setup.routed ids := by simp [routed, hprojection]
      have hroute : setup.job.router.route projection = setup.router.route projection := rfl
      have hdispatch := Routing.dispatch_of_no_failure setup (setup.router.route projection).1
        projection broker
      rw [hrouted]
      simp only [hroute, hdispatch]
      exact ih (stores.record (setup.router.route projection))
        (deliverTo (setup.router.route projection).1 projection broker)

end RouteSetup

namespace Routing

variable {setup : RouteSetup} {s t : Routing} {e : RouteEvent}

/-! ### What the attempts so far left -/

/-- The stores are the initial ones and the decisions and traces of some requested messages. -/
def WritesRequested (setup : RouteSetup) (stores : RoutingStores) (s : Routing) : Prop :=
  ∃ ids ⊆ setup.request.messages, s.stores = stores.recordAll (setup.routed ids)

theorem WritesRequested.step {stores : RoutingStores} (h : WritesRequested setup stores s)
    (hrequested : Requested setup s) (hmove : Move setup s e t) :
    WritesRequested setup stores t := by
  obtain ⟨ids, hids, hstores⟩ := h
  cases hmove with
  | @record id rest projection hphase hsome =>
    have hid : id ∈ setup.request.messages := by
      unfold Requested at hrequested
      rw [hphase] at hrequested
      exact hrequested List.mem_cons_self
    have hsubset : ids ++ [id] ⊆ setup.request.messages :=
      List.append_subset.mpr ⟨hids, List.cons_subset.mpr ⟨hid, List.nil_subset _⟩⟩
    refine ⟨ids ++ [id], hsubset, ?_⟩
    show s.stores.record (setup.router.route projection) = _
    rw [RouteSetup.routed_append, RoutingStores.recordAll_append, ← hstores,
      RouteSetup.routed_singleton hsome]
    rfl
  | start | skip | deliver | fail | finish | reserve | complete => exact ⟨ids, hids, hstores⟩

/-- The work of a delivered decision for the Worklane consumer was enqueued. -/
def DeliveredEnqueued (s : Routing) : Prop :=
  ∀ decision ∈ s.delivered, decision.target = .worklaneJob →
    0 < s.broker.enqueued decision.messageId

theorem DeliveredEnqueued.step (h : DeliveredEnqueued s) (hlive : LiveOnce s)
    (hmove : Move setup s e t) : DeliveredEnqueued t := by
  have hold : ∀ decision ∈ s.delivered, decision.target = .worklaneJob →
      0 < t.broker.enqueued decision.messageId := fun decision hmem htarget =>
    (h decision hmem htarget).trans_le (enqueued_le_of_move hlive hmove _)
  cases hmove with
  | @deliver decision projection rest hphase =>
    intro decision' hmem htarget
    rcases List.mem_append.mp hmem with hmem | hmem
    · exact hold decision' hmem htarget
    · rw [List.mem_singleton] at hmem
      subst hmem
      have hpos := live_deliverTo_pos hlive.keyed htarget projection
      show 0 < (deliverTo decision' projection s.broker).enqueued decision'.messageId
      rw [Broker.enqueued_eq]
      omega
  | start | skip | record | fail | finish | reserve | complete => exact hold

/-- What every history keeps. -/
structure Kept (setup : RouteSetup) (stores : RoutingStores) (s : Routing) : Prop where
  live : LiveOnce s
  requested : Requested setup s
  writes : WritesRequested setup stores s
  enqueued : DeliveredEnqueued s

theorem Kept.of_init (h : (machine setup).init s) : Kept setup s.stores s where
  live := .of_init h
  requested := .of_init h
  writes := ⟨[], List.nil_subset _, rfl⟩
  enqueued := by
    unfold DeliveredEnqueued
    rw [h.2.2]
    intro decision hmem
    cases hmem

theorem Kept.step {stores : RoutingStores} (h : Kept setup stores s) (hmove : Move setup s e t) :
    Kept setup stores t :=
  ⟨h.live.step hmove, h.requested.step hmove, h.writes.step h.requested hmove,
    h.enqueued.step h.live hmove⟩

/-! ### The attempt without a failure -/

/-- The attempt returns. -/
def EndsAttempt : RouteEvent → Bool
  | .fail _ | .finish => true
  | _ => false

/-- How far an attempt that began over the stores has come: the messages that are done, and those
that are not. -/
inductive Progress (setup : RouteSetup) (stores : RoutingStores) (s : Routing) : Prop
  | running (done rest : List MessageId) (hphase : s.phase = .running rest)
      (hrequest : setup.request.messages = done ++ rest)
      (hstores : s.stores = stores.recordAll (setup.routed done))
      (hdelivered : ∀ routed ∈ setup.routed done, routed.1 ∈ s.delivered)
  | dispatching (done rest : List MessageId) (id : MessageId) (projection : Projection)
      (hphase : s.phase = .dispatching (setup.router.route projection).1 projection rest)
      (hsome : setup.projections id = some projection)
      (hrequest : setup.request.messages = done ++ id :: rest)
      (hstores : s.stores = stores.recordAll (setup.routed (done ++ [id])))
      (hdelivered : ∀ routed ∈ setup.routed done, routed.1 ∈ s.delivered)

theorem Progress.step {stores : RoutingStores} (h : Progress setup stores s)
    (hmove : Move setup s e t) (he : ¬ EndsAttempt e) : Progress setup stores t := by
  cases h with
  | running done rest hphase hrequest hstores hdelivered =>
    cases hmove with
    | start h => exact absurd (hphase.symm.trans h) (by simp)
    | deliver h => exact absurd (hphase.symm.trans h) (by simp)
    | fail h => exact absurd (hphase.symm.trans h) (by simp)
    | finish => exact absurd rfl he
    | @skip id rest' h hnone =>
      have hrest : rest = id :: rest' := by simpa [hphase] using h
      have hrouted : setup.routed (done ++ [id]) = setup.routed done := by
        simp [RouteSetup.routed, hnone]
      refine .running (done ++ [id]) rest' rfl ?_ ?_ ?_
      · rw [hrequest, hrest, List.append_assoc, List.singleton_append]
      · rw [hrouted]
        exact hstores
      · rw [hrouted]
        exact hdelivered
    | @record id rest' projection h hsome =>
      have hrest : rest = id :: rest' := by simpa [hphase] using h
      refine .dispatching done rest' id projection rfl hsome (hrest ▸ hrequest) ?_ hdelivered
      show s.stores.record (setup.router.route projection) = _
      rw [RouteSetup.routed_append, RoutingStores.recordAll_append, ← hstores,
        RouteSetup.routed_singleton hsome]
      rfl
    | reserve | complete => exact .running done rest hphase hrequest hstores hdelivered
  | dispatching done rest id projection hphase hsome hrequest hstores hdelivered =>
    cases hmove with
    | start h => exact absurd (hphase.symm.trans h) (by simp)
    | skip h => exact absurd (hphase.symm.trans h) (by simp)
    | record h => exact absurd (hphase.symm.trans h) (by simp)
    | finish => exact absurd rfl he
    | fail => exact absurd rfl he
    | @deliver decision projection' rest' h =>
      rw [hphase] at h
      injection h with hdecision hprojection hrest
      subst hdecision hrest
      refine .running (done ++ [id]) rest rfl ?_ hstores ?_
      · rw [hrequest, List.append_assoc, List.singleton_append]
      · intro routed hrouted
        rw [RouteSetup.routed_append, RouteSetup.routed_singleton hsome] at hrouted
        show routed.1 ∈ s.delivered ++ [(setup.router.route projection).1]
        rcases List.mem_append.mp hrouted with hdone | hlast
        · exact List.mem_append_left _ (hdelivered routed hdone)
        · rw [List.mem_singleton.mp hlast]
          exact List.mem_append_right _ (List.mem_singleton_self _)
    | reserve | complete =>
      exact .dispatching done rest id projection hphase hsome hrequest hstores hdelivered

/-- An attempt in which no dispatch fails writes over what earlier attempts left, and delivers every
decision. -/
theorem end_of_attempt {attempt : List RouteEvent}
    (hrun : (machine setup).Run s (.start :: (attempt ++ [.finish])) t)
    (hclean : ∀ e ∈ attempt, ¬ EndsAttempt e) :
    t.stores = s.stores.recordAll (setup.routed setup.request.messages) ∧
      ∀ routed ∈ setup.routed setup.request.messages, routed.1 ∈ t.delivered := by
  cases hrun with
  | @cons _ begun _ _ _ hstart hrest =>
    obtain ⟨u, hattempt, hfinish⟩ := hrest.exists_of_append
    have hbegin : Progress setup s.stores begun := by
      cases hstart with
      | start h =>
        refine .running [] setup.request.messages rfl rfl rfl ?_
        intro routed hrouted
        cases hrouted
    have hguarded := hattempt.guarded_of_forall (C := fun e => ¬ EndsAttempt e) hclean
    have hend : Progress setup s.stores u := by
      refine hguarded.invariant (I := Progress setup s.stores) ?_ hbegin
      exact fun hs hmove => hs.step hmove.2 hmove.1
    cases hfinish with
    | cons hfinish hnil =>
      cases hnil
      cases hfinish with
      | finish hphase =>
        cases hend with
        | running done rest hphase' hrequest hstores hdelivered =>
          have hnil : rest = [] := by simpa [hphase] using hphase'.symm
          have hdone : setup.request.messages = done := by
            rw [hrequest, hnil, List.append_nil]
          rw [hdone]
          exact ⟨hstores, hdelivered⟩
        | dispatching done rest id projection hphase' =>
          exact absurd (hphase.symm.trans hphase') (by simp)

/-- **A route job converges.**  Over any history of attempts that is followed by one in which no
dispatch fails, the stores end as after a single attempt without failures, other messages keep what
was stored for them, and every requested message with a projection was dispatched successfully.  At
any moment of any history a message has at most one live routed-work job. -/
theorem attempts_converge (h : (machine setup).init s) {es attempt : List RouteEvent}
    (hrun : (machine setup).Run s (es ++ .start :: (attempt ++ [.finish])) t)
    (hclean : ∀ e ∈ attempt, ¬ EndsAttempt e) :
    ((setup.job.run setup.request s.stores ⟨.new, []⟩).1 = .ok () ∧
      t.stores = (setup.job.run setup.request s.stores ⟨.new, []⟩).2.1) ∧
    (∀ id, id ∉ setup.request.messages ∨ setup.projections id = none →
      t.stores.routes id = s.stores.routes id ∧ t.stores.traces id = s.stores.traces id) ∧
    (∀ id ∈ setup.request.messages, ∀ projection, setup.projections id = some projection →
      (setup.router.route projection).1 ∈ t.delivered ∧
      ((setup.router.route projection).1.target = .worklaneJob → 0 < t.broker.enqueued id)) ∧
    ∀ es' u, (machine setup).Run s es' u → ∀ id, u.broker.live id ≤ 1 := by
  obtain ⟨u, hbefore, hattempt⟩ := hrun.exists_of_append
  have hkept : ∀ {es' u}, (machine setup).Run s es' u → Kept setup s.stores u :=
    fun hrun => hrun.invariant (I := Kept setup s.stores) Kept.step (.of_init h)
  obtain ⟨ids, hids, hstores⟩ := (hkept hbefore).writes
  obtain ⟨hend, hdelivered⟩ := end_of_attempt hattempt hclean
  -- the last attempt writes everything the attempts before it wrote
  have hall : t.stores = s.stores.recordAll (setup.routed setup.request.messages) := by
    rw [hend, hstores, RouteSetup.recordAll_routed_of_subset _ hids]
  obtain ⟨hok, hrunStores⟩ := setup.runMessages_of_no_failure setup.request.messages
    s.stores .new
  refine ⟨⟨hok, hall.trans hrunStores.symm⟩, fun id hid => ?_, fun id hid projection hsome => ?_,
    fun es' u hrun id => live_le_one h hrun id⟩
  · rw [hall]
    exact RouteSetup.recordAll_routed_apply s.stores hid
  · have hmem : (setup.router.route projection).1 ∈ t.delivered :=
      hdelivered _ (RouteSetup.mem_routed.mpr ⟨id, hid, projection, hsome, rfl⟩)
    refine ⟨hmem, fun htarget => ?_⟩
    have henqueued := (hkept hrun).enqueued _ hmem htarget
    rw [(RouteSetup.messageId_of_projection hsome).1] at henqueued
    exact henqueued

/-- A request with a repeated message and one without a projection. -/
def repeatedTasks : RouteSetup :=
  { twoTasks with request := ⟨[⟨"m1"⟩, ⟨"unprojected"⟩, ⟨"m2"⟩, ⟨"m1"⟩]⟩ }

/-- An attempt that fails at the second task, and a worker that completes the first one. -/
def failedAttempt : List RouteEvent :=
  [.start, .record, .deliver, .skip, .record, .fail ⟨"broker is down"⟩, .reserve 0, .complete 0]

/-- What happens in the attempt after it. -/
def cleanAttempt : List RouteEvent :=
  [.record, .deliver, .skip, .record, .deliver, .record, .deliver]

theorem attempts_converge_repeatedTasks :
    ∃ t, (machine repeatedTasks).Run unrouted
        (failedAttempt ++ .start :: (cleanAttempt ++ [.finish])) t ∧
      t.stores =
        (repeatedTasks.job.run repeatedTasks.request unrouted.stores ⟨.new, []⟩).2.1 := by
  obtain ⟨hfirst, hsecond⟩ := projections_twoTasks
  have hnone : repeatedTasks.projections ⟨"unprojected"⟩ = none := by decide +kernel
  obtain ⟨t, hrun⟩ : ∃ t, (machine repeatedTasks).Run unrouted
      (failedAttempt ++ .start :: (cleanAttempt ++ [.finish])) t := by
    exact ⟨_, .cons (.start rfl) <| .cons (.record rfl hfirst) <| .cons (.deliver rfl) <|
      .cons (.skip rfl hnone) <| .cons (.record rfl hsecond) <|
      .cons (.fail rfl (by decide +kernel)) <|
      .cons (reserve_firstWork (by decide +kernel)) <|
      .cons (complete_firstWork (by decide +kernel)) <|
      .cons (.start rfl) <| .cons (.record rfl hfirst) <| .cons (.deliver rfl) <|
      .cons (.skip rfl hnone) <| .cons (.record rfl hsecond) <| .cons (.deliver rfl) <|
      .cons (.record rfl hfirst) <| .cons (.deliver rfl) <| .cons (.finish rfl) <| .nil _⟩
  have hclean : ∀ e ∈ cleanAttempt, ¬ EndsAttempt e := by decide
  exact ⟨t, hrun, (attempts_converge ⟨rfl, rfl, rfl⟩ hrun hclean).1.2⟩

end Routing

end Mirrorlane
