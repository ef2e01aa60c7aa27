import Mirrorlane.Cli.Equiv.ProducerReader
import Mirrorlane.Cli.Equiv.Reclaimed
import Mirrorlane.Cli.Work

/-!
# What becomes of a submitted run

An executed submission of the default strategy is served: a later `warmup` of a conversation that
was left alone hits, and returns what a run since the submission derived for it, as the cache reads
it back.

## Main results

* `published_step`: nothing that happens meanwhile takes a published derivation away
* `executed_submission_is_served`
-/

namespace Mirrorlane

open DerivedOutputCache

variable {κ : Type} [DerivedOutputCache κ] [LawfulDerivedOutputCache κ]
  {digest : List UInt8 → String} {ports : StrategyContext} {router : RuleRouter}

/-- The derivation of a conversation, as a cache reads it back. -/
def servedDerivation (κ : Type) [DerivedOutputCache κ] [LawfulDerivedOutputCache κ]
    (ports : StrategyContext) (source : MessageLog) (c : ConversationId) :
    ConversationDerivation :=
  (derivationOf ports source c).mapNumbers (LawfulDerivedOutputCache.number κ)

/-! ### A published derivation -/

/-- After a run over the log, every conversation hits. -/
theorem get_populateCache_runPhases {log : MessageLog} {cache : κ} {c : ConversationId}
    (hc : c ∈ log.conversationIds) :
    get (populateCache digest log (runPhases ports log) cache (projectionVersion ports)).1
        (projectionVersion ports) c (contentHashOf digest (log.messagesFor c)) =
      some (servedDerivation κ ports log c) := by
  have hd : derivationFor log (runPhases ports log) c = some (derivationOf ports log c) := by
    rw [derivationFor_runPhases, if_pos hc]
  have hderived : (derivationFor log (runPhases ports log) c).isSome := by rw [hd]; rfl
  have hget : get _ (projectionVersion ports) c _ = _ :=
    @get_after_populateCache _ _ digest log (ProjectionStrategy ports) _ cache c _ hc hderived
  refine hget.trans ?_
  show (derivationFor log (runPhases ports log) c).map _ = _
  rw [hd]
  rfl

/-- What `warmup` makes of a derivation from other messages of the log. -/
theorem warmup_of_derivation {log source : MessageLog} {cache : κ} {c : ConversationId}
    (hget : get cache (projectionVersion ports) c (contentHashOf digest (log.messagesFor c)) =
      some (servedDerivation κ ports source c))
    (hsame : source.messagesFor c = log.messagesFor c) (reader : ReplayStrategy)
    (router : RuleRouter) :
    warmup digest log c reader cache (projectionVersion ports) router =
      (cache,
        { context := some (sessionContextFrom (servedDerivation κ ports source c)
            (projectionVersion ports).val router)
          unprojected := ((log.messagesFor c).filter fun message =>
            (ports.projector.run message).isNone).map MessageEnvelope.id }) := by
  rw [warmup_of_hit hget]
  have hprojections : (servedDerivation κ ports source c).projections.map Projection.messageId =
      (projectionsOf ports (log.messagesFor c)).map Projection.messageId := by
    rw [servedDerivation, ConversationDerivation.map_messageId_mapNumbers, derivationOf, hsame]
  rw [hprojections, filter_unprojected]

namespace LaneWorld

/-- The log grew out of `old`, and the messages of `c` are still those of `old`. -/
structure Keeps (old : MessageLog) (c : ConversationId) (world : LaneWorld κ) : Prop where
  grows : world.log.Extends old
  messages : world.log.messagesFor c = old.messagesFor c

/-- The cache answers the derivation of `c` in a log between `old` and the current one. -/
def Published (digest : List UInt8 → String) (ports : StrategyContext) (old : MessageLog)
    (c : ConversationId) (world : LaneWorld κ) : Prop :=
  ∃ source : MessageLog, source.Extends old ∧ world.log.Extends source ∧
    source.messagesFor c = old.messagesFor c ∧
    get world.cache (projectionVersion ports) c (contentHashOf digest (old.messagesFor c)) =
      some (servedDerivation κ ports source c)

variable {old : MessageLog} {c : ConversationId} {world : LaneWorld κ}

/-- A run over the log publishes the derivation of `c`. -/
theorem published_populateCache (hc : c ∈ old.conversationIds)
    (h : world.Keeps old c) :
    Published digest ports old c { world with
      cache := (populateCache digest world.log (runPhases ports world.log) world.cache
        (projectionVersion ports)).1 } := by
  have hc' : c ∈ world.log.conversationIds := by
    rw [MessageLog.mem_conversationIds] at hc ⊢
    rwa [h.messages]
  refine ⟨world.log, h.grows, .refl _, h.messages, ?_⟩
  rw [← h.messages]
  exact get_populateCache_runPhases hc'

/-- What an event does to the log leaves `c` alone: no message is appended to it, and none of its
messages is replaced. -/
def LeavesAlone (old : MessageLog) (c : ConversationId) : LaneEvent → Prop
  | .append message =>
    message.conversation.id ≠ c ∧ message.id ∉ (old.messagesFor c).map MessageEnvelope.id
  | .command _ | .execute _ => True

instance (old : MessageLog) (c : ConversationId) : DecidablePred (LeavesAlone old c)
  | .append message => inferInstanceAs
    (Decidable (message.conversation.id ≠ c ∧ message.id ∉ (old.messagesFor c).map _))
  | .command _ | .execute _ => inferInstanceAs (Decidable True)

omit [LawfulDerivedOutputCache κ] in
/-- What leaves `c` alone keeps its messages. -/
theorem Keeps.step (router : RuleRouter) (e : LaneEvent) (hkeeps : world.Keeps old c)
    (halone : LeavesAlone old c e) :
    (e.apply digest ports router world).Keeps old c := by
  cases e with
  | command command => exact ⟨hkeeps.grows, hkeeps.messages⟩
  | execute request =>
    show (executeSubmission digest ports request world).Keeps old c
    rw [executeSubmission_eq]
    split_ifs
    · exact ⟨hkeeps.grows, hkeeps.messages⟩
    · exact hkeeps
  | append message =>
    obtain ⟨hc, hid⟩ := halone
    refine ⟨hkeeps.grows.append message, ?_⟩
    show (world.log.append message).messagesFor c = _
    rw [MessageLog.messagesFor_append_of_ne hc (by rwa [hkeeps.messages]), hkeeps.messages]

/-- **No event takes a published derivation away**: it publishes `c` again, or nothing. -/
theorem published_step {e : LaneEvent} (hc : c ∈ old.conversationIds)
    (hkeeps : world.Keeps old c) (h : Published digest ports old c world) :
    Published digest ports old c (e.apply digest ports router world) := by
  cases e with
  | append message =>
    obtain ⟨source, hold, hnew, hmessages, hget⟩ := h
    exact ⟨source, hold, hnew.append message, hmessages, hget⟩
  | command command =>
    show Published digest ports old c
      { world with cache := command.apply digest ports router world.log world.cache }
    rw [Command.apply_eq]
    split_ifs
    · exact published_populateCache hc hkeeps
    · exact h
  | execute request =>
    show Published digest ports old c (executeSubmission digest ports request world)
    rw [executeSubmission_eq]
    split_ifs
    · exact published_populateCache hc hkeeps
    · exact h

/-- Neither do some events. -/
theorem published_after (router : RuleRouter) {events : List LaneEvent}
    (hc : c ∈ old.conversationIds) (halone : ∀ e ∈ events, LeavesAlone old c e)
    (hkeeps : world.Keeps old c) (h : Published digest ports old c world) :
    (world.after digest ports router events).Keeps old c ∧
      Published digest ports old c (world.after digest ports router events) := by
  induction events generalizing world with
  | nil => exact ⟨hkeeps, h⟩
  | cons e events ih =>
    exact ih (fun e' he' => halone e' (List.mem_cons_of_mem _ he'))
      (hkeeps.step router e (halone e List.mem_cons_self)) (published_step hc hkeeps h)

end LaneWorld

/-! ### Executed submissions -/

open LaneWorld

/-- A published derivation is what `warmup` serves. -/
theorem warmup_of_published {old : MessageLog} {c : ConversationId} {world : LaneWorld κ}
    (hkeeps : world.Keeps old c) (h : Published digest ports old c world) :
    ∃ source : MessageLog, source.Extends old ∧ world.log.Extends source ∧
      source.messagesFor c = world.log.messagesFor c ∧
      ∀ (reader : ReplayStrategy) (router : RuleRouter),
        warmup digest world.log c reader world.cache (projectionVersion ports) router =
          (world.cache,
            { context := some (sessionContextFrom (servedDerivation κ ports source c)
                (projectionVersion ports).val router)
              unprojected := ((world.log.messagesFor c).filter fun message =>
                (ports.projector.run message).isNone).map MessageEnvelope.id }) := by
  obtain ⟨source, hold, hnew, hmessages, hget⟩ := h
  have hsame : source.messagesFor c = world.log.messagesFor c := by rw [hmessages, hkeeps.messages]
  rw [← hkeeps.messages] at hget
  exact ⟨source, hold, hnew, hsame, warmup_of_derivation hget hsame⟩

/-- **An executed submission is served.** After a worker has executed a submission of the default
strategy, let anything happen that leaves a conversation `c` of the log alone: messages of other
conversations, commands that read or write the cache, other submissions, and the same one delivered
again.  Then `warmup` of `c` hits, whatever strategy the reader brings: it returns the context of
what a run since the submission derived from the current messages of `c`, as the cache reads it
back, and the ids of those the projector fails on. -/
theorem executed_submission_is_served (router : RuleRouter) {world : LaneWorld κ}
    {events : List LaneEvent} {c : ConversationId} (hc : c ∈ world.log.conversationIds)
    (halone : ∀ e ∈ events, LeavesAlone world.log c e) :
    let after := world.after digest ports router (.execute ⟨StrategyRegistry.default⟩ :: events)
    ∃ source : MessageLog, source.Extends world.log ∧ after.log.Extends source ∧
      source.messagesFor c = after.log.messagesFor c ∧
      ∀ (reader : ReplayStrategy) (router : RuleRouter),
        warmup digest after.log c reader after.cache (projectionVersion ports) router =
          (after.cache,
            { context := some (sessionContextFrom (servedDerivation κ ports source c)
                (projectionVersion ports).val router)
              unprojected := ((after.log.messagesFor c).filter fun message =>
                (ports.projector.run message).isNone).map MessageEnvelope.id }) := by
  have hpublished : Published digest ports world.log c
      (executeSubmission digest ports ⟨StrategyRegistry.default⟩ world) := by
    rw [executeSubmission_eq, if_pos rfl]
    exact published_populateCache hc ⟨.refl _, rfl⟩
  have hkeeps : (executeSubmission digest ports ⟨StrategyRegistry.default⟩ world).Keeps
      world.log c :=
    Keeps.step router (.execute ⟨StrategyRegistry.default⟩) ⟨.refl _, rfl⟩ trivial
  obtain ⟨hend, hserved⟩ := published_after router hc halone hkeeps hpublished
  exact warmup_of_published hend hserved

/-- One question is logged, and the cache is empty. -/
def oneQuestionLogged : LaneWorld InMemoryDerivedOutputCache :=
  ⟨MessageLog.empty.append (Producers.question "m-1" "c-1"), ⟨.empty⟩⟩

/-- A message of another conversation comes in, an unknown strategy is executed, and the run is
executed again. -/
def redeliveredRun : List LaneEvent :=
  [.append (Producers.question "m-2" "c-2"), .execute ⟨"unknown"⟩,
    .execute ⟨StrategyRegistry.default⟩]

theorem executed_submission_is_served_redelivered :
    let after := oneQuestionLogged.after plainDigest mockPorts .new
      (.execute ⟨StrategyRegistry.default⟩ :: redeliveredRun)
    (warmup plainDigest after.log ⟨"c-1"⟩ EmptyStrategy after.cache
      (projectionVersion mockPorts) .new).2.context.isSome := by
  have hmem : (⟨"c-1"⟩ : ConversationId) ∈ oneQuestionLogged.log.conversationIds := by
    decide +kernel
  obtain ⟨source, -, -, -, hserved⟩ :=
    @executed_submission_is_served _ _ _ plainDigest mockPorts .new oneQuestionLogged
      redeliveredRun _ hmem (by decide +kernel)
  show (warmup plainDigest _ ⟨"c-1"⟩ EmptyStrategy _ _ .new).2.context.isSome
  rw [hserved EmptyStrategy .new]
  rfl

end Mirrorlane
