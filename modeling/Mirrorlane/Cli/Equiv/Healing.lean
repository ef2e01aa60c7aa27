import Mirrorlane.Cli.History
import Mirrorlane.Provider.Context
import Mirrorlane.Worker.Equiv.Derived

/-!
# What a failing projection leaves behind

A history of completed commands over one log and one version, each with the set of messages the
projector failed on while it ran.  A command that runs the strategy stores the derivations it got,
complete or not, and a later `warmup` that hits serves them without projecting anything.

`lastProducer` reads off a history which failures the cache holds: those of the last command that
ran the strategy.  `warmup_heals_iff` says that a later `warmup` with a projector that succeeds on
everything is complete exactly when that command did not fail on a message of the conversation.
-/

namespace Mirrorlane

/-- A completed command, and the messages the projector failed on while it ran. -/
structure CompletedRun where
  command : Command
  fails : MessageEnvelope → Bool

section Histories

open DerivedOutputCache

variable {κ : Type} [DerivedOutputCache κ] (digest : List UInt8 → String) (ports : StrategyContext)
  (router : RuleRouter) (log : MessageLog)

/-- The cache after a completed command. -/
def CompletedRun.apply (cache : κ) (run : CompletedRun) : κ :=
  run.command.apply digest (ports.failing run.fails) router log cache

/-- The failures of the last command that ran the strategy: a `warmup` runs it when nothing is
cached for its conversation yet. -/
def producerStep (last : Option (MessageEnvelope → Bool)) (run : CompletedRun) :
    Option (MessageEnvelope → Bool) :=
  match run.command with
  | .replay => some run.fails
  | .warmup c => if last.isSome ∧ c ∈ log.conversationIds then last else some run.fails
  | .strategyRun => some run.fails

/-- What the failures of the derivations in the cache are, if any were produced. -/
def lastProducer (history : List CompletedRun) : Option (MessageEnvelope → Bool) :=
  history.foldl (producerStep log) none

/-- A complete answer: nothing unprojected, and one routing decision for every message. -/
def Complete (c : ConversationId) (output : WarmupOutput) : Prop :=
  output.unprojected = [] ∧ ∃ context, output.context = some context ∧
    context.decisions.map RoutingDecision.messageId = (log.messagesFor c).map MessageEnvelope.id

/-! ### The cache along a history -/

/-- The cache answers the derivations of the last run of the strategy, with the numbers it reads
back, for exactly the conversations of the log. -/
def HoldsLast [LawfulDerivedOutputCache κ] (cache : κ) (last : Option (MessageEnvelope → Bool)) :
    Prop :=
  ∀ c, get cache (projectionVersion ports) c (contentHashOf digest (log.messagesFor c)) =
    if c ∈ log.conversationIds then last.map fun fails =>
      (derivationOf (ports.failing fails) log c).mapNumbers (LawfulDerivedOutputCache.number κ)
    else none

variable {digest ports router log} [LawfulDerivedOutputCache κ]

/-- A run of the strategy replaces the derivations of every conversation. -/
theorem holdsLast_populateCache {cache : κ} {last : Option (MessageEnvelope → Bool)}
    (h : HoldsLast digest ports log cache last) (fails : MessageEnvelope → Bool) :
    HoldsLast digest ports log
      (populateCache digest log (runPhases (ports.failing fails) log) cache
        (projectionVersion ports)).1 (some fails) := by
  intro c
  show get ((cacheEntries digest log _).foldl _ cache) _ _ _ = _
  have hnodup := nodup_cacheEntries digest log (runPhases (ports.failing fails) log)
  rw [cacheEntries_runPhases] at hnodup ⊢
  split_ifs with hc
  · exact get_putEntries_of_mem cache hnodup (List.mem_map_of_mem hc)
  · -- a conversation outside the log is not written
    rw [get_putEntries_of_notMem, h c, if_neg hc]
    rw [List.map_map]
    exact fun hmem => hc (by simpa using hmem)

/-- **One command.** -/
theorem holdsLast_apply {cache : κ} {last : Option (MessageEnvelope → Bool)}
    (h : HoldsLast digest ports log cache last) (run : CompletedRun) :
    HoldsLast digest ports log (run.apply digest ports router log cache)
      (producerStep log last run) := by
  obtain ⟨command, fails⟩ := run
  have hproduced := holdsLast_populateCache h fails
  have hversion : projectionVersion (ports.failing fails) = projectionVersion ports := rfl
  unfold CompletedRun.apply
  rw [Command.apply_eq, hversion]
  cases command with
  | replay => exact hproduced
  | strategyRun => exact hproduced
  | warmup c =>
    have hget : DerivedOutputCache.get cache (projectionVersion ports) c
        (contentHashOf digest (log.messagesFor c)) = _ := h c
    -- a `warmup` hits when a run of the strategy came before and its conversation is in the log
    show HoldsLast digest ports log _
      (if last.isSome ∧ c ∈ log.conversationIds then last else some fails)
    by_cases hhit : last.isSome ∧ c ∈ log.conversationIds
    · obtain ⟨previous, rfl⟩ := Option.isSome_iff_exists.mp hhit.1
      rw [if_pos hhit.2, Option.map_some] at hget
      rw [if_pos hhit, if_neg]
      · exact h
      · show ¬DerivedOutputCache.get cache (projectionVersion ports) c _ = none
        rw [hget]
        simp
    · rw [if_neg hhit, if_pos]
      · exact hproduced
      · show DerivedOutputCache.get cache (projectionVersion ports) c _ = none
        rw [hget]
        split_ifs with hc
        · cases last with
          | none => rfl
          | some previous => exact absurd ⟨rfl, hc⟩ hhit
        · rfl

/-- **A whole history.** -/
theorem holdsLast_foldl {cache : κ} (hempty : ∀ v c content, get cache v c content = none)
    (history : List CompletedRun) :
    HoldsLast digest ports log (history.foldl (CompletedRun.apply digest ports router log) cache)
      (lastProducer log history) := by
  induction history using List.reverseRecOn with
  | nil =>
    intro c
    show get cache _ _ _ = _
    rw [hempty]
    split_ifs <;> rfl
  | append_singleton history run ih =>
    unfold lastProducer
    rw [List.foldl_append, List.foldl_append]
    exact holdsLast_apply ih run

/-! ### Complete answers -/

/-- The ids of the messages that were projected. -/
theorem map_messageId_projectionsOf (ports : StrategyContext) (messages : List MessageEnvelope) :
    (projectionsOf ports messages).map Projection.messageId =
      (messages.filter fun message => (ports.projector.run message).isSome).map
        MessageEnvelope.id := by
  induction messages with
  | nil => rfl
  | cons message messages ih =>
    unfold projectionsOf
    rw [List.filterMap_cons]
    cases hrun : ports.projector.run message with
    | none => rw [List.filter_cons_of_neg (by simp [hrun]), ← ih, projectionsOf]
    | some projection =>
      rw [List.filter_cons_of_pos (by simp [hrun]), List.map_cons, List.map_cons, ← ih,
        ports.projector.run_messageId hrun, projectionsOf]

/-- The decisions of a context are about the projected messages. -/
theorem decisions_sessionContextFrom (derivation : ConversationDerivation) (version : String) :
    (sessionContextFrom derivation version router).decisions.map RoutingDecision.messageId =
      derivation.projections.map Projection.messageId := by
  simp [sessionContextFrom]

variable (router) in
/-- What a hit serves is complete exactly when every message was projected: only the ids of the
cached projections matter. -/
theorem complete_of_hit (ports : StrategyContext) (c : ConversationId) (version : String)
    {derivation : ConversationDerivation}
    (hderivation : derivation.projections.map Projection.messageId =
      (derivationOf ports log c).projections.map Projection.messageId) :
    Complete log c
      { context := some (sessionContextFrom derivation version router)
        unprojected := (messagesIn log c).filter fun id =>
          id ∉ derivation.projections.map Projection.messageId } ↔
      ∀ message ∈ log.messagesFor c, (ports.projector.run message).isSome := by
  have hids : derivation.projections.map Projection.messageId =
      ((log.messagesFor c).filter fun message => (ports.projector.run message).isSome).map
        MessageEnvelope.id := hderivation.trans (map_messageId_projectionsOf ports _)
  constructor
  · rintro ⟨hnil, -⟩ message hm
    rw [List.filter_eq_nil_iff] at hnil
    have hmem : message.id ∈ derivation.projections.map Projection.messageId := by
      have hid : message.id ∈ messagesIn log c := List.mem_map_of_mem hm
      simpa using hnil message.id hid
    rw [hids] at hmem
    obtain ⟨other, hother, hid⟩ := List.mem_map.mp hmem
    obtain ⟨hotherm, hsome⟩ := List.mem_filter.mp hother
    rw [← List.inj_on_of_nodup_map (log.nodup_messagesFor c) hotherm hm hid]
    exact hsome
  · intro hall
    have hfilter : (log.messagesFor c).filter (fun message =>
        (ports.projector.run message).isSome) = log.messagesFor c :=
      List.filter_eq_self.mpr hall
    rw [hfilter] at hids
    refine ⟨?_, _, rfl, ?_⟩
    · rw [List.filter_eq_nil_iff, hids]
      intro id hid
      rw [messagesIn] at hid
      exact fun hnot => absurd hid (by simpa using hnot)
    · rw [decisions_sessionContextFrom, hids]

/-- What a miss serves for a conversation of the log is complete when every message was
projected. -/
theorem complete_of_miss {ports : StrategyContext} (htotal : ports.projector.Total)
    {c : ConversationId} (hc : c ∈ log.conversationIds) (version : String) :
    Complete log c
      { context := (derivationFor log (runPhases ports log) c).map fun derivation =>
          sessionContextFrom derivation version router
        unprojected := unprojected (runPhases ports log) (messagesIn log c) } := by
  have hall : ∀ message ∈ log.messagesFor c, (ports.projector.run message).isSome :=
    fun message _ => htotal message
  obtain ⟨-, context, hcontext, hdecisions⟩ :=
    (complete_of_hit router ports c version rfl).mpr hall
  refine ⟨?_, context, ?_, hdecisions⟩
  · show List.filter _ _ = []
    rw [List.filter_eq_nil_iff]
    intro id hid
    obtain ⟨message, hm, rfl⟩ := List.mem_map.mp hid
    have hlog : message ∈ log.all := (MessageLog.mem_messagesFor.mp hm).1
    rw [runPhases_eq, derivedStores_projections hlog]
    obtain ⟨projection, hrun⟩ := Option.isSome_iff_exists.mp (htotal message)
    simp [hrun]
  · rw [derivationFor_runPhases, if_pos hc]
    exact hcontext

/-- **When re-running heals.** After any history, a `warmup` whose projector succeeds on everything
is complete if and only if the conversation is in the log and the last command that ran the strategy
did not fail on one of its messages. -/
theorem warmup_heals_iff (htotal : ports.projector.Total) {cache : κ}
    (hempty : ∀ v c content, get cache v c content = none) (history : List CompletedRun)
    (c : ConversationId) :
    Complete log c (warmup digest log c (ProjectionStrategy ports)
        (history.foldl (CompletedRun.apply digest ports router log) cache)
        (projectionVersion ports) router).2 ↔
      c ∈ log.conversationIds ∧ ∀ fails, lastProducer log history = some fails →
        ∀ message ∈ log.messagesFor c, fails message = false := by
  have hholds : HoldsLast digest ports log
      (history.foldl (CompletedRun.apply digest ports router log) cache)
      (lastProducer log history) := holdsLast_foldl hempty history
  have hget := hholds c
  unfold warmup
  by_cases hc : c ∈ log.conversationIds
  · rw [if_pos hc] at hget
    cases hlast : lastProducer log history with
    | none =>
      rw [hlast, Option.map_none] at hget
      simp only [hget]
      exact iff_of_true (complete_of_miss htotal hc _) ⟨hc, by simp⟩
    | some fails =>
      rw [hlast, Option.map_some] at hget
      simp only [hget]
      rw [complete_of_hit router (ports.failing fails) c _
        (ConversationDerivation.map_messageId_mapNumbers _ _)]
      constructor
      · rintro hall
        refine ⟨hc, ?_⟩
        rintro _ ⟨⟩ message hm
        exact htotal.isSome_run_failing.mp (hall message hm)
      · rintro ⟨-, hnone⟩ message hm
        exact htotal.isSome_run_failing.mpr (hnone fails rfl message hm)
  · -- nothing is ever served for a conversation that is not in the log
    rw [if_neg hc] at hget
    simp only [hget]
    refine iff_of_false ?_ fun h => hc h.1
    rintro ⟨-, context, hcontext, -⟩
    have hnone : derivationFor log (ProjectionStrategy ports log) c = none := by
      show derivationFor log (runPhases ports log) c = none
      rw [derivationFor_runPhases, if_neg hc]
    simp [hnone] at hcontext

end Histories

/-- One question in one conversation. -/
def oneQuestion : MessageLog where
  all := [⟨⟨"m-1"⟩, .manual, ⟨⟨"alice"⟩, "Alice"⟩, ⟨⟨"c-1"⟩, none⟩, "rust?"⟩]
  nodup := by decide

theorem warmup_heals_after_replay :
    Complete oneQuestion ⟨"c-1"⟩ (warmup plainDigest oneQuestion ⟨"c-1"⟩
      (ProjectionStrategy mockPorts)
      ([⟨.warmup ⟨"c-1"⟩, fun _ => true⟩, ⟨.replay, fun _ => false⟩].foldl
        (CompletedRun.apply plainDigest mockPorts .new oneQuestion)
        (⟨.empty⟩ : InMemoryDerivedOutputCache))
      (projectionVersion mockPorts) .new).2 :=
  (warmup_heals_iff (MockProjector.total_projector _) (fun _ _ _ => rfl) _ _).mpr
    ⟨by decide, by rintro _ ⟨⟩ message -; rfl⟩

/-- A `warmup` during which the projector failed freezes the incomplete derivation: the next one
hits and still reports the message, although the projector would succeed on it. -/
theorem warmup_frozen :
    ¬Complete oneQuestion ⟨"c-1"⟩ (warmup plainDigest oneQuestion ⟨"c-1"⟩
      (ProjectionStrategy mockPorts)
      ([⟨.warmup ⟨"c-1"⟩, fun _ => true⟩].foldl
        (CompletedRun.apply plainDigest mockPorts .new oneQuestion)
        (⟨.empty⟩ : InMemoryDerivedOutputCache))
      (projectionVersion mockPorts) .new).2 := by
  rintro ⟨hunprojected, -⟩
  revert hunprojected
  decide +kernel

end Mirrorlane
