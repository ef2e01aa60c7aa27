import Mirrorlane.Worker.Derived
import Mirrorlane.Worker.Registry

/-!
# The inbound submission surface

A submitted strategy run: build the strategy, run it over the durable log and publish its output to
the derived-output cache.  An unknown id is a failed job, which publishes nothing.
-/

namespace Mirrorlane

/-- The payload of a submission. -/
structure StrategyRunRequest where
  strategy : String
  deriving DecidableEq

/-- What a strategy-run job carries. -/
structure StrategyRunJob where
  context : StrategyContext
  registry : StrategyRegistry

/-- Run a submission over the log. -/
def StrategyRunJob.run {κ : Type} [DerivedOutputCache κ] (digest : List UInt8 → String)
    (job : StrategyRunJob) (store : MessageLog) (cache : κ) (request : StrategyRunRequest) :
    Except UnknownStrategy κ :=
  match job.registry.build request.strategy job.context with
  | .error unknown => .error unknown
  | .ok strategy =>
    let stores := strategy store
    let version := derivationVersion request.strategy job.context.projector.version
    .ok (populateCache digest store stores cache version).1

/-- The version of the reference strategy over some ports. -/
def projectionVersion (ports : StrategyContext) : StepVersion :=
  derivationVersion StrategyRegistry.default ports.projector.version

/-- A submission of the reference strategy publishes the run over the log it is given. -/
theorem StrategyRunJob.run_default {κ : Type} [DerivedOutputCache κ]
    (digest : List UInt8 → String) (ports : StrategyContext) (log : MessageLog) (cache : κ) :
    run digest ⟨ports, .withBuiltins⟩ log cache ⟨StrategyRegistry.default⟩ =
      .ok (populateCache digest log (runPhases ports log) cache (projectionVersion ports)).1 := by
  rw [run, StrategyRegistry.build_default]
  rfl

/-- A submission of an unknown strategy fails and names it. -/
theorem StrategyRunJob.run_unknown {κ : Type} [DerivedOutputCache κ]
    (digest : List UInt8 → String) (job : StrategyRunJob) (log : MessageLog) (cache : κ)
    {request : StrategyRunRequest} (h : job.registry.factories request.strategy = none) :
    run digest job log cache request = .error ⟨request.strategy⟩ := by
  rw [run, StrategyRegistry.build, h]

/-- The ids that are not built in are unknown. -/
theorem StrategyRegistry.factories_withBuiltins {id : String} (hdefault : id ≠ default)
    (hempty : id ≠ "empty") : withBuiltins.factories id = none := by
  simp [withBuiltins, register, hdefault, hempty]

/-- **What an id selects.** -/
theorem StrategyRegistry.build_withBuiltins (id : String) (ports : StrategyContext) :
    withBuiltins.build id ports =
      if id = default then .ok (ProjectionStrategy ports)
      else if id = "empty" then .ok EmptyStrategy
      else .error ⟨id⟩ := by
  split_ifs with hdefault hempty
  · rw [hdefault, build_default]
  · subst hempty
    rfl
  · rw [build, factories_withBuiltins hdefault hempty]

/-- **What a submitted run leaves**: the default strategy publishes its run over the log, the empty
one publishes nothing, and any other id is unknown. -/
theorem StrategyRunJob.run_withBuiltins {κ : Type} [DerivedOutputCache κ]
    (digest : List UInt8 → String) (ports : StrategyContext) (log : MessageLog) (cache : κ)
    (id : String) :
    run digest ⟨ports, .withBuiltins⟩ log cache ⟨id⟩ =
      if id = StrategyRegistry.default then
        .ok (populateCache digest log (runPhases ports log) cache (projectionVersion ports)).1
      else if id = "empty" then .ok cache
      else .error ⟨id⟩ := by
  split_ifs with hdefault hempty
  · rw [hdefault, run_default]
  · subst hempty
    -- empty stores have no warm-up, so there is nothing to publish
    have hentries : cacheEntries digest log (EmptyStrategy log) = [] :=
      List.filterMap_eq_nil_iff.mpr fun _ _ => rfl
    show Except.ok (populateCache digest log (EmptyStrategy log) cache _).1 = _
    rw [populateCache, hentries]
    rfl
  · exact run_unknown digest _ log cache
      (StrategyRegistry.factories_withBuiltins hdefault hempty)

end Mirrorlane
