import Mirrorlane.Foundation.ListModify
import Mirrorlane.Provider.Routing
import Mirrorlane.Worker.RouteAttempts

/-!
# Routed work over the attempts of a route job

At any moment a message has at most one live routed-work job (`live_le_one`).  Over the whole
history this is weaker: once the job of a message has completed its key is free, and a retry of the
attempt that enqueued it enqueues the message again (`completed_work_is_enqueued_again`).  A history
enqueues each message once exactly when no successful dispatch to the Worklane consumer finds a
completed job of its message (`enqueuedOnce_iff`).
-/

namespace Mirrorlane

/-! ### Jobs of a message -/

namespace Broker

variable {broker : Broker} {messageId : MessageId}

/-- Every job is held under the key of its message. -/
def Keyed (broker : Broker) : Prop :=
  ∀ job ∈ broker.jobs, job.key = uniqueKey job.payload.messageId

/-- How many jobs of a message were ever enqueued. -/
def enqueued (broker : Broker) (messageId : MessageId) : ℕ :=
  broker.jobs.countP fun job => job.payload.messageId = messageId

/-- How many of them are live. -/
def live (broker : Broker) (messageId : MessageId) : ℕ :=
  broker.jobs.countP fun job => job.payload.messageId = messageId ∧ job.status ≠ .completed

/-- How many of them have completed. -/
def completed (broker : Broker) (messageId : MessageId) : ℕ :=
  broker.jobs.countP fun job => job.payload.messageId = messageId ∧ job.status = .completed

theorem enqueued_eq (broker : Broker) (messageId : MessageId) :
    broker.enqueued messageId = broker.live messageId + broker.completed messageId := by
  unfold enqueued live completed
  induction broker.jobs with
  | nil => rfl
  | cons job jobs ih =>
    simp only [List.countP_cons, ih]
    by_cases hmessage : job.payload.messageId = messageId
    · by_cases hstatus : job.status = .completed
      · simp only [hmessage, hstatus]
        simp
        omega
      · simp [hmessage, hstatus]
        omega
    · simp [hmessage]

/-! ### What the operations do -/

/-- A message is enqueued when it has no live job. -/
theorem enqueueUnique_eq (h : broker.Keyed) (messageId : MessageId) (projection : Projection) :
    broker.enqueueUnique (uniqueKey messageId) ⟨messageId, projection⟩ =
      if broker.live messageId = 0 then
        ⟨broker.jobs ++ [⟨uniqueKey messageId, ⟨messageId, projection⟩, .pending⟩]⟩
      else broker := by
  -- a job holds the key when it is a live job of the message
  have hholds : broker.jobs.any (QueuedJob.Holds (uniqueKey messageId)) = true ↔
      broker.live messageId ≠ 0 := by
    unfold live
    rw [List.any_eq_true, ← Nat.pos_iff_ne_zero, List.countP_pos_iff]
    refine exists_congr fun job => and_congr_right fun hjob => ?_
    have hkey : job.key = uniqueKey messageId ↔ job.payload.messageId = messageId := by
      rw [h job hjob]
      exact uniqueKey_injective.eq_iff
    simp only [QueuedJob.Holds, hkey]
  unfold enqueueUnique
  by_cases hlive : broker.live messageId = 0
  · rw [if_pos hlive, if_neg fun hany => hholds.mp hany hlive]
  · rw [if_neg hlive, if_pos (hholds.mpr hlive)]

theorem Keyed.enqueueUnique (h : broker.Keyed) (messageId : MessageId) (projection : Projection) :
    (broker.enqueueUnique (uniqueKey messageId) ⟨messageId, projection⟩).Keyed := by
  rw [enqueueUnique_eq h]
  split_ifs
  · intro job hjob
    rcases List.mem_append.mp hjob with hold | hnew
    · exact h job hold
    · rw [List.mem_singleton.mp hnew]
  · exact h

/-- The live jobs after an enqueue. -/
theorem live_enqueueUnique (h : broker.Keyed) (messageId other : MessageId)
    (projection : Projection) :
    (broker.enqueueUnique (uniqueKey messageId) ⟨messageId, projection⟩).live other =
      if messageId = other ∧ broker.live messageId = 0 then 1 else broker.live other := by
  have happend : live ⟨broker.jobs ++ [⟨uniqueKey messageId, ⟨messageId, projection⟩, .pending⟩]⟩
      other = broker.live other + if messageId = other then 1 else 0 := by
    simp [live, List.countP_append, List.countP_cons]
  rw [enqueueUnique_eq h]
  by_cases hlive : broker.live messageId = 0
  · rw [if_pos hlive, happend]
    by_cases hother : messageId = other
    · rw [if_pos hother, if_pos ⟨hother, hlive⟩, ← hother, hlive]
    · rw [if_neg hother, if_neg fun h => hother h.1, Nat.add_zero]
  · rw [if_neg hlive, if_neg fun h => hlive h.2]

/-- An enqueue completes nothing. -/
theorem completed_enqueueUnique (h : broker.Keyed) (messageId other : MessageId)
    (projection : Projection) :
    (broker.enqueueUnique (uniqueKey messageId) ⟨messageId, projection⟩).completed other =
      broker.completed other := by
  rw [enqueueUnique_eq h]
  split_ifs
  · simp [completed]
  · rfl

/-- Moving a job on changes no job's key or payload. -/
theorem map_jobs_setStatus (broker : Broker) (position : ℕ) (status : JobStatus) :
    (broker.setStatus position status).jobs.map (fun job => (job.key, job.payload)) =
      broker.jobs.map fun job => (job.key, job.payload) :=
  map_modify (f := fun job : QueuedJob => { job with status }) (fun _ => rfl) _ _

theorem Keyed.setStatus (h : broker.Keyed) (position : ℕ) (status : JobStatus) :
    (broker.setStatus position status).Keyed := by
  intro job hjob
  have hmem : (job.key, job.payload) ∈ broker.jobs.map fun job => (job.key, job.payload) := by
    rw [← broker.map_jobs_setStatus position status]
    exact List.mem_map_of_mem hjob
  obtain ⟨job', hjob', heq⟩ := List.mem_map.mp hmem
  obtain ⟨hkey, hpayload⟩ := Prod.mk.inj heq
  rw [← hkey, ← hpayload]
  exact h job' hjob'

theorem enqueued_setStatus (broker : Broker) (position : ℕ) (status : JobStatus)
    (messageId : MessageId) :
    (broker.setStatus position status).enqueued messageId = broker.enqueued messageId := by
  have hcount : ∀ broker : Broker, broker.enqueued messageId =
      (broker.jobs.map fun job => (job.key, job.payload)).countP
        fun enqueued => enqueued.2.messageId = messageId := fun broker => by
    rw [List.countP_map]
    rfl
  rw [hcount, hcount, broker.map_jobs_setStatus position status]

/-- A job that is moved on is not live unless it was. -/
theorem live_setStatus_le {position : ℕ} {job : QueuedJob}
    (hjob : broker.jobs[position]? = some job) (hstatus : job.status ≠ .completed)
    (status : JobStatus) (messageId : MessageId) :
    (broker.setStatus position status).live messageId ≤ broker.live messageId := by
  unfold live
  refine countP_modify_le hjob fun hlive => ?_
  have hmessage : job.payload.messageId = messageId := (of_decide_eq_true hlive).1
  exact decide_eq_true ⟨hmessage, hstatus⟩

end Broker

namespace Routing

variable {setup : RouteSetup} {s t : Routing} {e : RouteEvent}

/-! ### What a step does to the broker -/

/-- A step leaves the broker as it is, is a successful dispatch, or moves a job on. -/
theorem broker_of_move (h : Move setup s e t) :
    (e ≠ .deliver ∧ t.broker = s.broker) ∨
    (∃ decision projection rest, e = .deliver ∧ s.phase = .dispatching decision projection rest ∧
      t.broker = deliverTo decision projection s.broker) ∨
    ∃ position job status, e ≠ .deliver ∧ s.broker.jobs[position]? = some job ∧
      job.status ≠ .completed ∧ t.broker = s.broker.setStatus position status := by
  cases h with
  | start | skip | record | fail | finish =>
    left
    exact ⟨by simp, rfl⟩
  | deliver h =>
    right; left
    exact ⟨_, _, _, rfl, h, rfl⟩
  | @reserve position job hjob hstatus =>
    right; right
    have hlive : job.status ≠ .completed := by simp [hstatus]
    exact ⟨position, job, .reserved, by simp, hjob, hlive, rfl⟩
  | @complete position job hjob hstatus =>
    right; right
    have hlive : job.status ≠ .completed := by simp [hstatus]
    exact ⟨position, job, .completed, by simp, hjob, hlive, rfl⟩

/-- What a successful dispatch leaves on the broker. -/
theorem counts_deliverTo {broker : Broker} (h : broker.Keyed) (decision : RoutingDecision)
    (projection : Projection) (id : MessageId) :
    (deliverTo decision projection broker).completed id = broker.completed id ∧
      (deliverTo decision projection broker).live id =
        if decision.target = .worklaneJob ∧ decision.messageId = id ∧ broker.live id = 0 then 1
        else broker.live id := by
  unfold deliverTo
  by_cases htarget : decision.target = .worklaneJob
  · rw [if_pos htarget, Broker.live_enqueueUnique h]
    refine ⟨Broker.completed_enqueueUnique h _ _ _, ?_⟩
    by_cases hid : decision.messageId = id
    · simp [htarget, hid]
    · simp [hid]
  · rw [if_neg htarget]
    simp only [htarget, false_and]
    exact ⟨trivial, rfl⟩

/-- A dispatch to the Worklane consumer leaves a live job of the message. -/
theorem live_deliverTo_pos {broker : Broker} (h : broker.Keyed) {decision : RoutingDecision}
    (htarget : decision.target = .worklaneJob) (projection : Projection) :
    0 < (deliverTo decision projection broker).live decision.messageId := by
  obtain ⟨-, hlive⟩ := counts_deliverTo h decision projection decision.messageId
  rw [hlive]
  split_ifs with hnew
  · exact Nat.one_pos
  · have hne : broker.live decision.messageId ≠ 0 := fun hzero => hnew ⟨htarget, rfl, hzero⟩
    omega

theorem keyed_deliverTo {broker : Broker} (h : broker.Keyed) (decision : RoutingDecision)
    (projection : Projection) : (deliverTo decision projection broker).Keyed := by
  unfold deliverTo
  split_ifs
  · exact h.enqueueUnique _ _
  · exact h

/-- Every job is under the key of its message, and no message has two live ones. -/
structure LiveOnce (s : Routing) : Prop where
  keyed : s.broker.Keyed
  live_le : ∀ messageId, s.broker.live messageId ≤ 1

theorem LiveOnce.of_init (h : (machine setup).init s) : LiveOnce s := by
  obtain ⟨-, hnew, -⟩ := h
  refine ⟨?_, fun messageId => ?_⟩
  · rw [hnew]
    intro job hjob
    cases hjob
  · rw [hnew]
    exact Nat.zero_le 1

/-- **What one step preserves.** -/
theorem LiveOnce.step (h : LiveOnce s) (hmove : Move setup s e t) : LiveOnce t := by
  rcases broker_of_move hmove with ⟨-, hbroker⟩ | ⟨decision, projection, rest, -, -, hbroker⟩ |
    ⟨position, job, status, -, hjob, hstatus, hbroker⟩
  · exact ⟨hbroker ▸ h.keyed, hbroker ▸ h.live_le⟩
  · refine ⟨hbroker ▸ keyed_deliverTo h.keyed decision projection, fun messageId => ?_⟩
    obtain ⟨-, hlive⟩ := counts_deliverTo h.keyed decision projection messageId
    rw [hbroker, hlive]
    split_ifs
    · exact Nat.le_refl 1
    · exact h.live_le messageId
  · refine ⟨hbroker ▸ h.keyed.setStatus _ _, fun messageId => ?_⟩
    rw [hbroker]
    exact (Broker.live_setStatus_le hjob hstatus status messageId).trans (h.live_le messageId)

/-- At any moment of any history a message has at most one live job. -/
theorem live_le_one (h : (machine setup).init s) {es : List RouteEvent}
    (hrun : (machine setup).Run s es t) (messageId : MessageId) :
    t.broker.live messageId ≤ 1 :=
  (hrun.invariant (I := LiveOnce) LiveOnce.step (.of_init h)).live_le messageId

/-! ### One job for each message -/

/-- Each requested message was enqueued at most once. -/
def EnqueuedOnce (setup : RouteSetup) (s : Routing) : Prop :=
  ∀ id ∈ setup.request.messages, s.broker.enqueued id ≤ 1

/-- A successful dispatch to the Worklane consumer finds no completed job of the message. -/
def DispatchesFresh (s : Routing) (e : RouteEvent) : Prop :=
  ∀ decision projection rest, e = .deliver → s.phase = .dispatching decision projection rest →
    decision.target = .worklaneJob → s.broker.completed decision.messageId = 0

/-- What is still to be done was requested. -/
def Requested (setup : RouteSetup) (s : Routing) : Prop :=
  match s.phase with
  | .idle => True
  | .running rest => rest ⊆ setup.request.messages
  | .dispatching decision _ rest =>
    decision.messageId ∈ setup.request.messages ∧ rest ⊆ setup.request.messages

theorem Requested.of_init (h : (machine setup).init s) : Requested setup s := by
  unfold Requested
  rw [h.1]
  trivial

theorem Requested.step (h : Requested setup s) (hmove : Move setup s e t) : Requested setup t := by
  unfold Requested at h ⊢
  cases hmove with
  | start => exact fun _ hid => hid
  | skip hphase =>
    rw [hphase] at h
    exact fun _ hid => h (List.mem_cons_of_mem _ hid)
  | @record id rest projection hphase hsome =>
    rw [hphase] at h
    -- the decision is about the message the projection is stored under
    have hid : (setup.router.route projection).1.messageId = id :=
      (setup.router.decision_messageId projection).trans (setup.projections.own hsome)
    have hmem : id ∈ setup.request.messages := h List.mem_cons_self
    have hrest : rest ⊆ setup.request.messages := fun _ hmem => h (List.mem_cons_of_mem _ hmem)
    exact ⟨hid ▸ hmem, hrest⟩
  | deliver hphase =>
    rw [hphase] at h
    exact h.2
  | fail | finish => trivial
  | reserve | complete => exact h

/-- No job is ever taken off the broker. -/
theorem enqueued_le_of_move (h : LiveOnce s) (hmove : Move setup s e t) (id : MessageId) :
    s.broker.enqueued id ≤ t.broker.enqueued id := by
  rcases broker_of_move hmove with ⟨-, hbroker⟩ | ⟨decision, projection, rest, -, -, hbroker⟩ |
    ⟨position, job, status, -, -, -, hbroker⟩
  · rw [hbroker]
  · obtain ⟨hcompleted, hlive⟩ := counts_deliverTo h.keyed decision projection id
    rw [hbroker, Broker.enqueued_eq, Broker.enqueued_eq, hcompleted, hlive]
    split_ifs <;> omega
  · rw [hbroker, Broker.enqueued_setStatus]

/-- A fresh dispatch enqueues no message for the second time. -/
theorem enqueued_le_one_of_move (h : LiveOnce s) (hle : ∀ id, s.broker.enqueued id ≤ 1)
    (hfresh : DispatchesFresh s e) (hmove : Move setup s e t) (id : MessageId) :
    t.broker.enqueued id ≤ 1 := by
  have hid : s.broker.enqueued id ≤ 1 := hle id
  rcases broker_of_move hmove with ⟨-, hbroker⟩ |
    ⟨decision, projection, rest, hdeliver, hphase, hbroker⟩ |
    ⟨position, job, status, -, -, -, hbroker⟩
  · rw [hbroker]
    exact hid
  · obtain ⟨hcompleted, hlive⟩ := counts_deliverTo h.keyed decision projection id
    rw [hbroker, Broker.enqueued_eq, hcompleted, hlive]
    rw [Broker.enqueued_eq] at hid
    split_ifs with hnew
    · -- the new job is the only one of its message
      have hnone : s.broker.completed id = 0 := by
        rw [← hnew.2.1]
        exact hfresh decision projection rest hdeliver hphase hnew.1
      omega
    · exact hid
  · rw [hbroker, Broker.enqueued_setStatus]
    exact hid

/-- A step into a state in which each message was enqueued once is a fresh one. -/
theorem dispatchesFresh_of_enqueuedOnce (h : LiveOnce s) (hrequested : Requested setup s)
    (hmove : Move setup s e t) (honce : EnqueuedOnce setup t) : DispatchesFresh s e := by
  intro decision projection rest hdeliver hphase htarget
  subst hdeliver
  have hmem : decision.messageId ∈ setup.request.messages := by
    unfold Requested at hrequested
    rw [hphase] at hrequested
    exact hrequested.1
  have hbroker : t.broker = deliverTo decision projection s.broker := by
    rcases broker_of_move hmove with ⟨hne, -⟩ |
      ⟨decision', projection', rest', -, hphase', hbroker⟩ | ⟨position, job, status, hne, -⟩
    · exact absurd rfl hne
    · rw [hphase] at hphase'
      injection hphase' with hdecision hprojection
      rw [hbroker, hdecision, hprojection]
    · exact absurd rfl hne
  -- the dispatch leaves a live job of the message, so it leaves no completed one
  have hle : t.broker.enqueued decision.messageId ≤ 1 := honce _ hmem
  have hpos := live_deliverTo_pos h.keyed htarget projection
  obtain ⟨hcompleted, -⟩ := counts_deliverTo h.keyed decision projection decision.messageId
  rw [hbroker, Broker.enqueued_eq, hcompleted] at hle
  omega

/-- **Over a history of attempts, interleaved in any way with a worker, each requested message is
enqueued at most once exactly when every successful dispatch to the Worklane consumer finds no
completed job of its message.** -/
theorem enqueuedOnce_iff (h : (machine setup).init s) {es : List RouteEvent}
    (hrun : (machine setup).Run s es t) :
    EnqueuedOnce setup t ↔ ((machine setup).guarded DispatchesFresh).Run s es t := by
  have hlive : LiveOnce s := .of_init h
  have hrequested : Requested setup s := .of_init h
  have hnone : ∀ id, s.broker.enqueued id ≤ 1 := fun id => by
    rw [h.2.1]
    exact Nat.zero_le 1
  constructor
  · -- backwards: counts never go down, so no state before had a message twice
    intro honce
    refine (hrun.guarded_of_backward (I := fun s => LiveOnce s ∧ Requested setup s)
      (P := EnqueuedOnce setup) ?_ ?_ ⟨hlive, hrequested⟩ honce).1
    · exact fun hs hmove => ⟨hs.1.step hmove, hs.2.step hmove⟩
    · intro s e t hs hmove ht
      have hfresh : DispatchesFresh s e := dispatchesFresh_of_enqueuedOnce hs.1 hs.2 hmove ht
      refine ⟨hfresh, fun id hid => ?_⟩
      exact (enqueued_le_of_move hs.1 hmove id).trans (ht id hid)
  · intro hguarded
    have hend : LiveOnce t ∧ ∀ id, t.broker.enqueued id ≤ 1 := by
      refine hguarded.invariant (I := fun s => LiveOnce s ∧ ∀ id, s.broker.enqueued id ≤ 1) ?_
        ⟨hlive, hnone⟩
      intro s e t hs hmove
      exact ⟨hs.1.step hmove.2, enqueued_le_one_of_move hs.1 hs.2 hmove.1 hmove.2⟩
    exact fun id _ => hend.2 id

/-! ### A retry next to a worker -/

/-- A task that the rule-based router routes to the Worklane consumer. -/
def task (id : String) : Projection :=
  ⟨⟨id⟩, .task, [⟨"auth"⟩], [⟨"sqlite"⟩], Confidence.new (9 / 10)⟩

/-- A request for two tasks. -/
def twoTasks : RouteSetup where
  projections := UpsertStore.empty.upsertAll [task "m1", task "m2"]
  router := RuleRouter.new.port
  request := ⟨[⟨"m1"⟩, ⟨"m2"⟩]⟩
  registered _ := false

/-- Nothing is routed yet. -/
def unrouted : Routing := ⟨⟨.empty, .empty⟩, .new, .idle, []⟩

theorem projections_twoTasks : twoTasks.projections ⟨"m1"⟩ = some (task "m1") ∧
    twoTasks.projections ⟨"m2"⟩ = some (task "m2") := by
  decide +kernel

/-- The routed work of the first task. -/
def firstWork (status : JobStatus) : QueuedJob :=
  ⟨uniqueKey ⟨"m1"⟩, ⟨⟨"m1"⟩, task "m1"⟩, status⟩

/-- The worker reserves it. -/
theorem reserve_firstWork (h : s.broker.jobs[0]? = some (firstWork .pending)) :
    Move setup s (.reserve 0) { s with broker := s.broker.setStatus 0 .reserved } :=
  .reserve h rfl

/-- The worker completes it. -/
theorem complete_firstWork (h : s.broker.jobs[0]? = some (firstWork .reserved)) :
    Move setup s (.complete 0) { s with broker := s.broker.setStatus 0 .completed } :=
  .complete h rfl

/-- The attempt fails at the second task, and the first task's job completes before the retry. -/
def retryAfterCompletion : List RouteEvent :=
  [.start, .record, .deliver, .record, .fail ⟨"broker is down"⟩, .reserve 0, .complete 0, .start,
    .record, .deliver]

/-- The retry enqueues the first task again. -/
theorem completed_work_is_enqueued_again :
    (machine twoTasks).init unrouted ∧
    ∃ t, (machine twoTasks).Run unrouted retryAfterCompletion t ∧ ¬ EnqueuedOnce twoTasks t := by
  obtain ⟨hfirst, hsecond⟩ := projections_twoTasks
  obtain ⟨t, hrun, htwo⟩ : ∃ t, (machine twoTasks).Run unrouted retryAfterCompletion t ∧
      t.broker.enqueued ⟨"m1"⟩ = 2 := by
    refine ⟨_, .cons (.start rfl) <| .cons (.record rfl hfirst) <| .cons (.deliver rfl) <|
      .cons (.record rfl hsecond) <| .cons (.fail rfl (by decide +kernel)) <|
      .cons (reserve_firstWork (by decide +kernel)) <|
      .cons (complete_firstWork (by decide +kernel)) <|
      .cons (.start rfl) <| .cons (.record rfl hfirst) <| .cons (.deliver rfl) <| .nil _, ?_⟩
    decide +kernel
  refine ⟨⟨rfl, rfl, rfl⟩, t, hrun, fun honce => ?_⟩
  have hle : t.broker.enqueued ⟨"m1"⟩ ≤ 1 := honce ⟨"m1"⟩ List.mem_cons_self
  omega

/-- The two attempts as `RouteJob.run`, with the worker in between. -/
example :
    let first := twoTasks.job.run twoTasks.request ⟨.empty, .empty⟩
      ⟨.new, [none, some ⟨"broker is down"⟩]⟩
    let worked := (first.2.2.broker.setStatus 0 .reserved).setStatus 0 .completed
    let second := twoTasks.job.run twoTasks.request first.2.1 ⟨worked, []⟩
    first.1 = .error ⟨"broker is down"⟩ ∧ second.1 = .ok () ∧
      second.2.2.broker.enqueued ⟨"m1"⟩ = 2 := by
  decide +kernel

/-- The attempt is retried while the job of the first task is only reserved. -/
def retryBeforeCompletion : List RouteEvent :=
  [.start, .record, .deliver, .record, .fail ⟨"broker is down"⟩, .reserve 0, .start, .record,
    .deliver, .record, .deliver, .finish, .complete 0]

theorem enqueuedOnce_iff_twoTasks :
    ∃ t, ((machine twoTasks).guarded DispatchesFresh).Run unrouted retryBeforeCompletion t ∧
      EnqueuedOnce twoTasks t := by
  obtain ⟨hfirst, hsecond⟩ := projections_twoTasks
  obtain ⟨t, hrun, honce⟩ : ∃ t, (machine twoTasks).Run unrouted retryBeforeCompletion t ∧
      ∀ id ∈ twoTasks.request.messages, t.broker.enqueued id ≤ 1 := by
    refine ⟨_, .cons (.start rfl) <| .cons (.record rfl hfirst) <| .cons (.deliver rfl) <|
      .cons (.record rfl hsecond) <| .cons (.fail rfl (by decide +kernel)) <|
      .cons (reserve_firstWork (by decide +kernel)) <|
      .cons (.start rfl) <| .cons (.record rfl hfirst) <| .cons (.deliver rfl) <|
      .cons (.record rfl hsecond) <| .cons (.deliver rfl) <| .cons (.finish rfl) <|
      .cons (complete_firstWork (by decide +kernel)) <| .nil _, ?_⟩
    decide +kernel
  exact ⟨t, (enqueuedOnce_iff ⟨rfl, rfl, rfl⟩ hrun).mp honce, honce⟩

end Routing

end Mirrorlane
