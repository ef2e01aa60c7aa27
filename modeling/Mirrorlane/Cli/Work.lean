import Mirrorlane.Cli.History

/-!
# Submitted runs next to other commands

A submitted run is executed by a worker over the durable log and publishes its output to the
derived-output cache; when the broker delivers it again, it is executed again.  Meanwhile other
commands append messages and read or write the same cache.
-/

namespace Mirrorlane

/-- The durable log and the derived-output cache. -/
structure LaneWorld (κ : Type) where
  log : MessageLog
  cache : κ

/-- What happens to them. -/
inductive LaneEvent where
  | append (message : MessageEnvelope)
  /-- A `replay` or `warmup` over the same ports. -/
  | command (command : Command)
  /-- A worker executes a submission, perhaps again. -/
  | execute (request : StrategyRunRequest)
  deriving DecidableEq

section Lanes

variable {κ : Type} [DerivedOutputCache κ] (digest : List UInt8 → String) (ports : StrategyContext)
  (router : RuleRouter)

/-- The world after an execution of a submission.  An unknown strategy is a failed job. -/
def executeSubmission (request : StrategyRunRequest) (world : LaneWorld κ) : LaneWorld κ :=
  match StrategyRunJob.run digest ⟨ports, .withBuiltins⟩ world.log world.cache request with
  | .ok cache => { world with cache }
  | .error _ => world

/-- What an execution leaves. -/
theorem executeSubmission_eq (id : String) (world : LaneWorld κ) :
    executeSubmission digest ports ⟨id⟩ world =
      if id = StrategyRegistry.default then
        { world with cache := (populateCache digest world.log (runPhases ports world.log)
          world.cache (projectionVersion ports)).1 }
      else world := by
  rw [executeSubmission, StrategyRunJob.run_withBuiltins]
  split_ifs <;> rfl

/-- The world after an event. -/
def LaneEvent.apply (world : LaneWorld κ) : LaneEvent → LaneWorld κ
  | .append message => { world with log := world.log.append message }
  | .command issued =>
    { world with cache := issued.apply digest ports router world.log world.cache }
  | .execute request => executeSubmission digest ports request world

/-- The world after some events. -/
def LaneWorld.after (world : LaneWorld κ) (events : List LaneEvent) : LaneWorld κ :=
  events.foldl (LaneEvent.apply digest ports router) world

end Lanes

end Mirrorlane
