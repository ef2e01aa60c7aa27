import Mirrorlane.Cli.Commands
import Mirrorlane.Worker.Submission

/-!
# The commands that read or write the derived-output cache

What a completed command leaves in the cache.  Whatever the command, it either ran the strategy and
populated the cache (`Produces`), or it was a `warmup` that hit and left the cache alone.
-/

namespace Mirrorlane

/-- A command over the projection strategy. -/
inductive Command where
  | replay
  | warmup (c : ConversationId)
  | strategyRun
  deriving DecidableEq

namespace Command

variable {κ : Type} [DerivedOutputCache κ] (digest : List UInt8 → String) (ports : StrategyContext)
  (router : RuleRouter) (log : MessageLog) (cache : κ)

/-- The cache after a completed command. -/
def apply (command : Command) : κ :=
  match command with
  | .replay =>
    (Mirrorlane.replay digest log (ProjectionStrategy ports) cache (projectionVersion ports)
      router).1
  | .warmup c =>
    (Mirrorlane.warmup digest log c (ProjectionStrategy ports) cache (projectionVersion ports)
      router).1
  | .strategyRun =>
    match StrategyRunJob.run digest ⟨ports, .withBuiltins⟩ log cache ⟨StrategyRegistry.default⟩ with
    | .ok cache => cache
    | .error _ => cache

/-- The command runs the strategy: a `warmup` does when it misses. -/
def Produces (command : Command) : Prop :=
  match command with
  | .replay => True
  | .warmup c => DerivedOutputCache.get cache (projectionVersion ports) c
      (contentHashOf digest (log.messagesFor c)) = none
  | .strategyRun => True

instance : DecidablePred (Produces digest ports log cache)
  | .replay => inferInstanceAs (Decidable True)
  | .warmup _ => inferInstanceAs (Decidable (_ = _))
  | .strategyRun => inferInstanceAs (Decidable True)

variable {digest ports router log cache}

/-- **What a command leaves.** -/
theorem apply_eq (command : Command) :
    command.apply digest ports router log cache =
      if command.Produces digest ports log cache then
        (populateCache digest log (runPhases ports log) cache (projectionVersion ports)).1
      else cache := by
  cases command with
  | replay => rfl
  | strategyRun =>
    have hrun := StrategyRunJob.run_default digest ports log cache
    rw [if_pos (show Produces digest ports log cache .strategyRun from trivial)]
    simp only [apply, hrun]
  | warmup c =>
    cases hget : DerivedOutputCache.get cache (projectionVersion ports) c
        (contentHashOf digest (log.messagesFor c)) with
    | some derivation =>
      have hhit : ¬Produces digest ports log cache (.warmup c) := by
        show ¬DerivedOutputCache.get _ _ _ _ = none
        rw [hget]
        simp
      rw [if_neg hhit]
      simp only [apply, Mirrorlane.warmup, hget]
    | none =>
      have hmiss : Produces digest ports log cache (.warmup c) := hget
      rw [if_pos hmiss]
      simp only [apply, Mirrorlane.warmup, hget]
      rfl

end Command

end Mirrorlane
