import Mirrorlane.Worker.Replay

/-!
# Selecting a strategy by id

A registry maps a data-supplied id to a factory that builds a runnable strategy from the resolved
ports.
-/

namespace Mirrorlane

/-- The erased shape of a strategy over the projection domain: a message log to stores. -/
abbrev ReplayStrategy := MessageLog → ReplayStores

/-- The reference strategy. -/
def ProjectionStrategy (ports : StrategyContext) : ReplayStrategy := runPhases ports

/-- A second built-in strategy: no stage, empty stores. -/
def EmptyStrategy : ReplayStrategy :=
  fun _ => ⟨.empty, .empty, .empty, .empty, .empty, .empty⟩

/-- A requested strategy id that was never registered. -/
structure UnknownStrategy where
  id : String
  deriving DecidableEq

/-- The factories by id. -/
structure StrategyRegistry where
  factories : KeyedStore String (StrategyContext → ReplayStrategy)

namespace StrategyRegistry

/-- The id of the reference strategy. -/
def default : String := "projection"

/-- Register a factory under an id. -/
def register (registry : StrategyRegistry) (id : String)
    (factory : StrategyContext → ReplayStrategy) : StrategyRegistry :=
  ⟨registry.factories.insert id factory⟩

/-- The registry of the built-in strategies. -/
def withBuiltins : StrategyRegistry :=
  ((⟨.empty⟩ : StrategyRegistry).register default ProjectionStrategy).register "empty" fun _ =>
    EmptyStrategy

/-- Build the strategy an id names. -/
def build (registry : StrategyRegistry) (id : String) (ports : StrategyContext) :
    Except UnknownStrategy ReplayStrategy :=
  match registry.factories id with
  | some factory => .ok (factory ports)
  | none => .error ⟨id⟩

@[simp] theorem build_default (ports : StrategyContext) :
    withBuiltins.build default ports = .ok (ProjectionStrategy ports) := by
  have hne : default ≠ "empty" := by decide
  simp [build, withBuiltins, register, hne]

end StrategyRegistry

end Mirrorlane
