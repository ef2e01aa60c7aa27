import Mirrorlane.Cli.Commands
import Mirrorlane.Worker.Equiv.Independence
import Mirrorlane.Worker.Submission

/-!
# Replaying an independent part

Whether the other conversations are in the log makes no difference to an independent part: `replay`
prints the contexts of the part as a `replay` of the part alone does, in the same order.
-/

namespace Mirrorlane

variable {κ : Type} [DerivedOutputCache κ] {digest : List UInt8 → String}

/-- What a replay prints: the contexts of the derivations of its conversations. -/
theorem contexts_replay (ports : StrategyContext) (log : MessageLog) (cache : κ)
    (version : StepVersion) (router : RuleRouter) :
    (replay digest log (ProjectionStrategy ports) cache version router).2.contexts =
      log.conversationIds.map fun c =>
        sessionContextFrom (derivationOf ports log c) version.val router := by
  show ((cacheEntries digest log (runPhases ports log)).map CacheEntry.derivation).map _ = _
  rw [cacheEntries_runPhases, List.map_map, List.map_map]
  rfl

/-- **Independent parts replay alone.** -/
theorem replay_independent_part (r : Rounding) (toLowercase : String → String)
    {projector : Projector}
    {log : MessageLog} {p : ConversationId → Bool} (h : Independent projector log p)
    (cache cache' : κ) (version : StepVersion) (router : RuleRouter) :
    let strategy := ProjectionStrategy (providerPorts r toLowercase projector)
    (replay digest (log.restrict p) strategy cache version router).2.contexts =
      (replay digest log strategy cache' version router).2.contexts.filter fun context =>
        p context.conversation := by
  intro strategy
  rw [contexts_replay, contexts_replay, MessageLog.conversationIds_restrict, List.filter_map]
  -- the context of a conversation is under its own id
  show _ = (log.conversationIds.filter p).map _
  refine List.map_congr_left fun c hc => ?_
  rw [derivationOf_restrict h (List.mem_filter.mp hc).2]

/-- Two conversations about different things, interleaved. -/
def interleavedLog : MessageLog where
  all := [⟨⟨"m-1"⟩, .manual, ⟨⟨"u-1"⟩, "Alice"⟩, ⟨⟨"c-1"⟩, none⟩, "rust?"⟩,
    ⟨⟨"m-2"⟩, .manual, ⟨⟨"u-1"⟩, "Alice"⟩, ⟨⟨"c-2"⟩, none⟩, "sqlite?"⟩,
    ⟨⟨"m-3"⟩, .manual, ⟨⟨"u-2"⟩, "Bob"⟩, ⟨⟨"c-1"⟩, none⟩, "rust!"⟩]
  nodup := by decide

theorem replay_independent_part_interleaved :
    let part := interleavedLog.restrict fun c => c = ⟨"c-1"⟩
    let strategy := ProjectionStrategy mockPorts
    let cache : InMemoryDerivedOutputCache := ⟨.empty⟩
    (replay plainDigest part strategy cache (projectionVersion mockPorts) .new).2.contexts =
      (replay plainDigest interleavedLog strategy cache (projectionVersion mockPorts)
        .new).2.contexts.filter fun context => context.conversation = ⟨"c-1"⟩ := by
  intro part strategy cache
  have h : Independent (MockProjector.projector fun s => s) interleavedLog
      fun c => c = ⟨"c-1"⟩ :=
    ⟨by decide +kernel, by decide +kernel⟩
  exact replay_independent_part .binary64 (fun s => s) h _ _ _ _

end Mirrorlane
