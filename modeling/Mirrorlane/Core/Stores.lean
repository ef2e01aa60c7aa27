import Mirrorlane.Core.Projection
import Mirrorlane.Core.Routing
import Mirrorlane.Foundation.UpsertStore

/-!
# The in-memory artifact stores

Each store keeps one artifact per key and `upsert` replaces the artifact of its key.
-/

namespace Mirrorlane

/-- Projections, keyed by message. -/
abbrev InMemoryProjectionStore := UpsertStore Projection.messageId

/-- Scopes, keyed by conversation. -/
abbrev InMemoryScopeStore := UpsertStore Scope.conversation

/-- Warm-up documents, keyed by conversation. -/
abbrev InMemoryWarmupStore := UpsertStore WarmupDocument.conversation

/-- Topic ownerships, keyed by topic. -/
abbrev InMemorySkillStore := UpsertStore TopicOwnership.topic

/-- Routing decisions, keyed by message. -/
abbrev InMemoryRoutingStore := UpsertStore RoutingDecision.messageId

/-- Routing traces, keyed by message. -/
abbrev InMemoryRoutingTraceStore := UpsertStore RoutingTrace.messageId

/-- Routing hints, keyed by message. -/
abbrev InMemoryRoutingHintStore := UpsertStore RoutingHint.messageId

/-- Developer snapshots, keyed by conversation. -/
abbrev InMemoryDeveloperSnapshotStore := UpsertStore SessionDevelopers.conversation

end Mirrorlane
