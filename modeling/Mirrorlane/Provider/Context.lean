import Mirrorlane.Provider.Developer
import Mirrorlane.Provider.Hint
import Mirrorlane.Provider.Mock
import Mirrorlane.Provider.Scope
import Mirrorlane.Provider.Warmup

/-!
# The provider ports

The ports every command wires a strategy from: only the projector varies.  The arithmetic of the
ports is rounded by `r`; the program's is that of doubles.
-/

namespace Mirrorlane

/-- The provider's ports around a projector. -/
def providerPorts (r : Rounding) (toLowercase : String → String) (projector : Projector) :
    StrategyContext where
  projector
  scoper := MockScopeProjector.scoper toLowercase r
  builder := MockWarmupBuilder.builder
  skillBuilder := MessageSkillBuilder.skillBuilder r
  hinter := SkillRoutingHinter.hinter r
  snapshotter := SkillDeveloperSnapshotter.snapshotter

/-- The provider's ports around the mock projector. -/
def mockPorts : StrategyContext :=
  providerPorts .binary64 (fun s => s) (MockProjector.projector fun s => s)

end Mirrorlane
