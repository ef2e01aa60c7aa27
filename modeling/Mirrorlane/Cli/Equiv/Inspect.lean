import Mirrorlane.Cli.Inspect
import Mirrorlane.Provider.Mock

/-!
# Does the trace explain the decision?

`inspect` shows a stored trace next to a decision made now.  The trace explains the decision exactly
when the confidence of the recorded projection and that of the current one are on one side of their
thresholds and, where they reach them, the two rule tables send the two intents to one target
(`explains_route_iff_rulesAgree`).  So the histories in which every inspection is explained are
those in which every edit, change of the configuration and route job under other rules keeps the two
in agreement (`explained_iff_keepsRouting`).
-/

namespace Mirrorlane

/-! ### What a trace says -/

/-- The last step of the trace gives the target of the decision, and its confidence step matched
exactly when the decision was escalated. -/
structure Explains (trace : RoutingTrace) (decision : RoutingDecision) : Prop where
  target : trace.steps.getLast?.bind EvaluationStep.resultingTarget = some decision.target
  escalated : (trace.steps.find? fun step => step.ruleName = "confidence_threshold").map
    EvaluationStep.matched = some decision.escalated

/-- Two routings have the same target, and both are escalated or neither is. -/
structure RoutedAlike (router : RuleRouter) (projection : Projection) (router' : RuleRouter)
    (projection' : Projection) : Prop where
  target : (router.route projection).1.target = (router'.route projection').1.target
  escalated : (router.route projection).1.escalated = (router'.route projection').1.escalated

/-- Two rule sets agree on two projections: both confidences are below the threshold or neither is,
and where neither is the two tables have one target for the two intents. -/
structure RulesAgree (router : RuleRouter) (projection : Projection) (router' : RuleRouter)
    (projection' : Projection) : Prop where
  side : projection.confidence.get < router.escalationThreshold ↔
    projection'.confidence.get < router'.escalationThreshold
  target : router.escalationThreshold ≤ projection.confidence.get →
    router.targetFor projection.intent = router'.targetFor projection'.intent

/-- Below the threshold the target is a human, from it on the one of the rule table. -/
theorem RuleRouter.route_target (router : RuleRouter) (projection : Projection) :
    (router.route projection).1.target =
      if projection.confidence.get < router.escalationThreshold then .human
      else router.targetFor projection.intent := by
  simp only [route]
  split_ifs with h <;> simp_all

/-- A decision is escalated below the threshold. -/
theorem RuleRouter.route_escalated (router : RuleRouter) (projection : Projection) :
    (router.route projection).1.escalated = true ↔
      projection.confidence.get < router.escalationThreshold := by
  simp only [route]
  split_ifs with h <;> simp_all

/-- The confidence step of a trace matched exactly when the decision was escalated. -/
theorem RuleRouter.find?_steps_route (router : RuleRouter) (projection : Projection) :
    ((router.route projection).2.steps.find? fun step =>
      step.ruleName = "confidence_threshold").map EvaluationStep.matched =
        some (router.route projection).1.escalated := by
  simp only [route]
  split_ifs with h <;> simp [h]

/-- **A trace explains another routing** that went the same way, and no other. -/
theorem explains_route_iff {router router' : RuleRouter} {projection projection' : Projection} :
    Explains (router.route projection).2 (router'.route projection').1 ↔
      RoutedAlike router projection router' projection' := by
  constructor
  · rintro ⟨htarget, hescalated⟩
    rw [RuleRouter.getLast?_steps_route] at htarget
    rw [RuleRouter.find?_steps_route] at hescalated
    exact ⟨Option.some.inj htarget, Option.some.inj hescalated⟩
  · rintro ⟨htarget, hescalated⟩
    exact ⟨by rw [RuleRouter.getLast?_steps_route, htarget],
      by rw [RuleRouter.find?_steps_route, hescalated]⟩

/-- **What routes alike**: the side of the threshold and, from the threshold on, the target that the
table has for the intent. -/
theorem routedAlike_iff_rulesAgree {router router' : RuleRouter}
    {projection projection' : Projection} :
    RoutedAlike router projection router' projection' ↔
      RulesAgree router projection router' projection' := by
  constructor
  · rintro ⟨htarget, hescalated⟩
    have hside : projection.confidence.get < router.escalationThreshold ↔
        projection'.confidence.get < router'.escalationThreshold := by
      rw [← router.route_escalated, ← router'.route_escalated, hescalated]
    refine ⟨hside, fun hle => ?_⟩
    rwa [router.route_target, router'.route_target, if_neg hle.not_gt,
      if_neg fun h => hle.not_gt (hside.mpr h)] at htarget
  · rintro ⟨hside, htarget⟩
    constructor
    · rw [router.route_target, router'.route_target]
      by_cases hlt : projection.confidence.get < router.escalationThreshold
      · rw [if_pos hlt, if_pos (hside.mp hlt)]
      · rw [if_neg hlt, if_neg fun h => hlt (hside.mpr h), htarget (not_lt.mp hlt)]
    · rw [Bool.eq_iff_iff, router.route_escalated, router'.route_escalated, hside]

/-- A trace explains the decision on which the rules agree with those it was recorded under. -/
theorem explains_route_iff_rulesAgree {router router' : RuleRouter}
    {projection projection' : Projection} :
    Explains (router.route projection).2 (router'.route projection').1 ↔
      RulesAgree router projection router' projection' :=
  explains_route_iff.trans routedAlike_iff_rulesAgree

namespace Inspected

variable {projector : Projector} {s t : Inspected}

/-- Whenever `inspect` returns a trace, it explains the decision. -/
def Explained (projector : Projector) (s : Inspected) : Prop :=
  ∀ messageId context trace,
    inspect s.log s.traces messageId projector s.router = some (some context) →
      context.trace = some trace → Explains trace context.decision

/-- The condition on a step: on a message whose trace is stored the configured rules go on agreeing
with those the trace was recorded under, and so do, on its message, those of a route job. -/
def KeepsRouting (projector : Projector) (s : Inspected) : InspectEvent → Prop
  | .append message => ∀ recorded projection, s.origin message.id = some recorded →
      projector.run message = some projection →
        RulesAgree recorded.1 recorded.2 s.router projection
  | .configure router => ∀ messageId recorded message projection,
      s.origin messageId = some recorded → s.log.get messageId = some message →
        projector.run message = some projection →
          RulesAgree recorded.1 recorded.2 router projection
  | .record router messageId => ∀ message projection, s.log.get messageId = some message →
      projector.run message = some projection → RulesAgree router projection s.router projection
  | .drop _ => True

/-! ### The stored traces -/

/-- Every stored trace is the one of its origin. -/
def Traced (s : Inspected) : Prop :=
  ∀ messageId, s.traces messageId =
    (s.origin messageId).map fun recorded => (recorded.1.route recorded.2).2

theorem traced_new (router : RuleRouter) : (new router).Traced := fun _ => rfl

theorem traced_of_move {e : InspectEvent} (hs : s.Traced) (h : Move projector s e t) :
    t.Traced := by
  cases h with
  | append message => exact hs
  | configure router => exact hs
  | @record messageId message projection router hmessage hprojection =>
    intro id
    -- a projection has the id of its message, so the trace is stored under it
    have hid : (router.route projection).2.messageId = messageId :=
      (router.port.trace_messageId projection).trans <|
        (projector.run_messageId hprojection).trans (MessageLog.get_eq_some_iff.mp hmessage).2
    show s.traces.upsert (router.route projection).2 id =
      (Function.update s.origin messageId (some (router, projection)) id).map _
    rw [UpsertStore.upsert_apply, hid, Function.update_apply]
    split_ifs
    · rfl
    · exact hs id
  | drop messageId =>
    intro id
    show s.traces.erase messageId id = (Function.update s.origin messageId none id).map _
    rw [UpsertStore.erase_apply, Function.update_apply]
    split_ifs
    · rfl
    · exact hs id

/-- **When every inspection is explained**: on each message with a stored trace the configured rules
agree with the recorded ones. -/
theorem explained_iff_rulesAgree (hs : s.Traced) :
    s.Explained projector ↔ ∀ messageId recorded message projection,
      s.origin messageId = some recorded → s.log.get messageId = some message →
        projector.run message = some projection →
          RulesAgree recorded.1 recorded.2 s.router projection := by
  constructor
  · intro h messageId recorded message projection horigin hmessage hprojection
    have htrace : s.traces messageId = some (recorded.1.route recorded.2).2 := by
      rw [hs messageId, horigin, Option.map_some]
    have hinspect : inspect s.log s.traces messageId projector s.router =
        some (some ⟨message, projection, s.traces messageId, (s.router.route projection).1⟩) :=
      inspect_eq_some_iff.mpr ⟨message, projection, hmessage, hprojection, rfl⟩
    exact explains_route_iff_rulesAgree.mp (h messageId _ _ hinspect htrace)
  · intro h messageId context trace hinspect htrace
    obtain ⟨message, projection, hmessage, hprojection, rfl⟩ := inspect_eq_some_iff.mp hinspect
    obtain ⟨recorded, horigin, rfl⟩ := Option.map_eq_some_iff.mp ((hs messageId).symm.trans htrace)
    exact explains_route_iff_rulesAgree.mpr
      (h messageId recorded message projection horigin hmessage hprojection)

/-! ### Steps and histories -/

/-- The condition decides whether the next inspections are explained. -/
theorem keepsRouting_iff {e : InspectEvent} (hs : s.Traced) (hexplained : s.Explained projector)
    (h : Move projector s e t) : KeepsRouting projector s e ↔ t.Explained projector := by
  have hrouted := (explained_iff_rulesAgree hs).mp hexplained
  rw [explained_iff_rulesAgree (traced_of_move hs h)]
  cases h with
  | append message =>
    constructor
    · intro hkeeps id recorded current projection horigin hcurrent hprojection
      have hget : (s.log.append message).get id = some current := hcurrent
      rw [MessageLog.get_append] at hget
      split_ifs at hget with hid
      · obtain rfl := Option.some.inj hget
        exact hkeeps recorded projection (hid ▸ horigin) hprojection
      · exact hrouted id recorded current projection horigin hget hprojection
    · intro hall recorded projection horigin hprojection
      have hget : (s.log.append message).get message.id = some message := by
        rw [MessageLog.get_append, if_pos rfl]
      exact hall message.id recorded message projection horigin hget hprojection
  | configure router => exact Iff.rfl
  | @record messageId message projection router hmessage hprojection =>
    constructor
    · intro hkeeps id recorded current projection' horigin hcurrent hprojection'
      have hupdate : Function.update s.origin messageId (some (router, projection)) id =
        some recorded := horigin
      rw [Function.update_apply] at hupdate
      split_ifs at hupdate with hid
      · -- the projector is deterministic: the projection is the one that was just recorded
        subst hid
        obtain rfl := Option.some.inj hupdate
        obtain rfl := Option.some.inj (hmessage.symm.trans hcurrent)
        obtain rfl := Option.some.inj (hprojection.symm.trans hprojection')
        exact hkeeps message projection hmessage hprojection
      · exact hrouted id recorded current projection' hupdate hcurrent hprojection'
    · intro hall message' projection' hmessage' hprojection'
      obtain rfl := Option.some.inj (hmessage.symm.trans hmessage')
      obtain rfl := Option.some.inj (hprojection.symm.trans hprojection')
      have horigin : Function.update s.origin messageId (some (router, projection)) messageId =
        some (router, projection) := Function.update_self _ _ _
      exact hall messageId (router, projection) message projection horigin hmessage hprojection
  | drop messageId =>
    constructor
    · intro _ id recorded current projection horigin hcurrent hprojection
      have hupdate : Function.update s.origin messageId none id = some recorded := horigin
      rw [Function.update_apply] at hupdate
      split_ifs at hupdate
      exact hrouted id recorded current projection hupdate hcurrent hprojection
    · exact fun _ => trivial

/-- Before anything is routed there is no trace to explain. -/
theorem explained_new (projector : Projector) (router : RuleRouter) :
    (new router).Explained projector := by
  rw [explained_iff_rulesAgree (traced_new router)]
  intro messageId recorded message projection horigin
  exact absurd horigin.symm (Option.some_ne_none recorded)

/-- **The explained histories.** From any configuration, the histories after each step of which
every inspection with a trace is explained are those whose steps all keep the configured rules in
agreement with the recorded ones. -/
theorem explained_iff_keepsRouting (projector : Projector) (router : RuleRouter)
    (es : List InspectEvent) (t : Inspected) :
    ((machine projector).guarded (KeepsRouting projector)).Run (new router) es t ↔
      ((machine projector).checked fun _ t => t.Explained projector).Run (new router) es t := by
  refine Machine.Run.guarded_iff_checked (I := fun s => s.Traced ∧ s.Explained projector)
    (fun hs hmove => keepsRouting_iff hs.1 hs.2 hmove) (fun hs hmove hkeeps => ?_)
    ⟨traced_new router, explained_new projector router⟩
  exact ⟨traced_of_move hs.1 hmove, (keepsRouting_iff hs.1 hs.2 hmove).mp hkeeps⟩

/-! ### An edit after routing -/

/-- A message, as it is routed. -/
def routedMessage : MessageEnvelope :=
  ⟨⟨"m-1"⟩, .manual, ⟨⟨"alice"⟩, "alice"⟩, ⟨⟨"c-1"⟩, none⟩, "is auth broken?"⟩

/-- The same message, after an edit. -/
def editedMessage : MessageEnvelope := { routedMessage with body := "auth is broken" }

/-- **An edited message is not explained.** The trace gives the human that the question went to; the
decision beside it sends the bug report to GitHub. -/
theorem edited_message_is_not_explained :
    ∃ t, (machine (MockProjector.projector id)).Run (new .new)
        [.append routedMessage, .record .new ⟨"m-1"⟩, .append editedMessage] t ∧
      ¬t.Explained (MockProjector.projector id) := by
  have hmessage : (MessageLog.empty.append routedMessage).get ⟨"m-1"⟩ = some routedMessage := rfl
  obtain ⟨t, hrun, horigin, hedited, hrouter⟩ : ∃ t,
      (machine (MockProjector.projector id)).Run (new .new)
        [.append routedMessage, .record .new ⟨"m-1"⟩, .append editedMessage] t ∧
      t.origin ⟨"m-1"⟩ = some (.new, MockProjector.run id routedMessage) ∧
      t.log.get ⟨"m-1"⟩ = some editedMessage ∧ t.router = .new :=
    ⟨_, .cons (.append _ routedMessage) (.cons (.record .new hmessage rfl)
      (.cons (.append _ editedMessage) (.nil _))), rfl, rfl, rfl⟩
  have htraced : t.Traced := hrun.invariant traced_of_move (traced_new .new)
  refine ⟨t, hrun, fun h => ?_⟩
  have hagree := (explained_iff_rulesAgree htraced).mp h ⟨"m-1"⟩ _ editedMessage _ horigin
    hedited rfl
  rw [hrouter] at hagree
  -- a question goes to a human, and what is broken is an issue
  have hne : RuleRouter.new.targetFor (MockProjector.run id routedMessage).intent ≠
      RuleRouter.new.targetFor (MockProjector.run id editedMessage).intent := by
    decide +kernel
  exact hne (hagree.target (by decide +kernel))

/-! ### Route jobs -/

/-- The loop of a route job over current projections records the traces of some of the messages, in
order. -/
theorem run_of_runMessages {σ : Type} {job : RouteJob σ} {router : RuleRouter}
    (hrouter : job.router = router.port) {log : MessageLog}
    (hprojections : ∀ {id projection}, job.projections id = some projection →
      ∃ message, log.get id = some message ∧ projector.run message = some projection)
    (ids : List MessageId) (stores : RoutingStores) (world : σ) {s : Inspected}
    (hlog : s.log = log) (htraces : s.traces = stores.traces) :
    ∃ (recorded : List MessageId) (t : Inspected), recorded.Sublist ids ∧
      (machine projector).Run s (recorded.map (InspectEvent.record router)) t ∧
      t.log = log ∧ t.traces = (job.runMessages ids stores world).2.1.traces := by
  induction ids generalizing stores world s with
  | nil => exact ⟨[], s, List.Sublist.refl _, .nil s, hlog, htraces⟩
  | cons id ids ih =>
    unfold RouteJob.runMessages
    cases hprojection : job.projections id with
    | none =>
      obtain ⟨recorded, t, hsub, hrun⟩ := ih stores world hlog htraces
      exact ⟨recorded, t, hsub.cons id, hrun⟩
    | some projection =>
      obtain ⟨message, hmessage, hrunProjector⟩ := hprojections hprojection
      have hrecorded : s.traces.upsert (router.route projection).2 =
          (stores.record (job.router.route projection)).traces := by
        rw [htraces, hrouter]
        rfl
      obtain ⟨s', hmove, hlog', htraces'⟩ : ∃ s', Move projector s (.record router id) s' ∧
          s'.log = log ∧ s'.traces = (stores.record (job.router.route projection)).traces :=
        ⟨_, Move.record router (hlog ▸ hmessage) hrunProjector, hlog, hrecorded⟩
      simp only []
      cases hdispatch : job.consumers.dispatch (job.router.route projection).1 projection world with
      | mk result world' =>
        cases result with
        | error e =>
          exact ⟨[id], s', by simp, .cons hmove (.nil s'), hlog', htraces'⟩
        | ok _ =>
          obtain ⟨recorded, t, hsub, hrun, hend⟩ := ih _ world' hlog' htraces'
          exact ⟨id :: recorded, t, hsub.cons_cons id, .cons hmove hrun, hend⟩

/-- **An attempt of a route job** over current projections is a history of recordings. -/
theorem run_of_routeJob {σ : Type} {job : RouteJob σ} {router : RuleRouter}
    (hrouter : job.router = router.port)
    (hprojections : ∀ {id projection}, job.projections id = some projection →
      ∃ message, s.log.get id = some message ∧ projector.run message = some projection)
    (request : RoutingRequest) (routes : InMemoryRoutingStore) (world : σ) :
    ∃ (recorded : List MessageId) (t : Inspected), recorded.Sublist request.messages ∧
      (machine projector).Run s (recorded.map (InspectEvent.record router)) t ∧
      t.log = s.log ∧ t.traces = (job.run request ⟨s.traces, routes⟩ world).2.1.traces :=
  run_of_runMessages hrouter hprojections request.messages ⟨s.traces, routes⟩ world rfl rfl

end Inspected

end Mirrorlane
