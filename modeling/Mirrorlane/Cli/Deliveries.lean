import Mirrorlane.Cli.Commands
import Mirrorlane.Storage.SqliteDerivedOutputCache

/-!
# Delivery cycles on one SQLite table

A cycle populates the `derived_output_cache` table from the stores of a run, under the version of
the strategy and the provider that were selected for the command.  Reclaiming is best-effort, so a
cycle also says for which conversations the `DELETE` succeeds.  A `Delivery` is a log that evolves
next to the table; a `warmup` is a cycle when it misses.
-/

namespace Mirrorlane

/-- What a delivery cycle is run with. -/
structure Cycle where
  version : StepVersion
  /-- What the strategy left. -/
  stores : ReplayStores
  /-- The conversations whose prune succeeds. -/
  prunes : ConversationId → Bool

namespace Cycle

variable {τ : Type} {json : CacheJson τ} (digest : List UInt8 → String) (cycle : Cycle)

/-- Put one entry and reclaim what it supersedes; a failed prune is swallowed. -/
def putEntry (t : DerivedRows json) (entry : CacheEntry) : DerivedRows json :=
  let t' := DerivedOutputCache.put t cycle.version entry.conversation entry.content entry.derivation
  if cycle.prunes entry.conversation then
    t'.pruneSuperseded entry.conversation cycle.version entry.content
  else t'

/-- The table after the cycle over a log. -/
def populate (log : MessageLog) (t : DerivedRows json) : DerivedRows json :=
  (cacheEntries digest log cycle.stores).foldl cycle.putEntry t

/-- A cycle whose prunes all succeed is `populateCache`. -/
theorem populate_eq_populateCache (log : MessageLog) (t : DerivedRows json)
    (h : ∀ c, cycle.prunes c = true) :
    cycle.populate digest log t = (populateCache digest log cycle.stores t cycle.version).1 := by
  have hput : (cycle.putEntry : DerivedRows json → CacheEntry → DerivedRows json) =
      Mirrorlane.putEntry cycle.version := by
    funext t entry
    unfold putEntry
    rw [if_pos (h entry.conversation)]
    rfl
  unfold populate
  rw [hput]
  rfl

/-- The cycle derives the conversation: it is in the log and has a warm-up document. -/
def Derives (log : MessageLog) (c : ConversationId) : Prop :=
  c ∈ conversations log ∧ (cycle.stores.warmups c).isSome

instance (log : MessageLog) : DecidablePred (cycle.Derives log) := fun c =>
  inferInstanceAs (Decidable (c ∈ conversations log ∧ (cycle.stores.warmups c).isSome = true))

/-- The key the cycle has for a conversation. -/
def key (log : MessageLog) (c : ConversationId) : DerivedKey :=
  (cycle.version, c, contentHash digest log c)

end Cycle

/-- A message log and the table of one database.  `written` lists the keys that cycles have written:
no command reads it. -/
structure Delivery {τ : Type} (json : CacheJson τ) where
  log : MessageLog
  table : DerivedRows json
  written : List DerivedKey

/-- What happens to the database. -/
inductive DeliveryEvent where
  | append (message : MessageEnvelope)
  /-- A `replay` or a submitted run. -/
  | produce (cycle : Cycle)
  /-- A `warmup` of a conversation, which runs the cycle if it misses. -/
  | warmup (c : ConversationId) (cycle : Cycle)

namespace Delivery

variable {τ : Type} {json : CacheJson τ} (digest : List UInt8 → String)

/-- Nothing was appended or cached yet. -/
def new : Delivery json := ⟨.empty, ⟨.empty⟩, []⟩

/-- A cycle over the log. -/
def publish (s : Delivery json) (cycle : Cycle) : Delivery json where
  log := s.log
  table := cycle.populate digest s.log s.table
  written := s.written ++
    ((conversations s.log).filter fun c => cycle.Derives s.log c).map (cycle.key digest s.log)

/-- The key a `warmup` looks up. -/
def lookup (s : Delivery json) : DeliveryEvent → Option DerivedKey
  | .append _ | .produce _ => none
  | .warmup c cycle => some (cycle.version, c, contentHashOf digest (s.log.messagesFor c))

/-- The cycle an event runs. -/
def cycle (s : Delivery json) : DeliveryEvent → Option Cycle
  | .append _ => none
  | .produce cycle => some cycle
  | .warmup c cycle =>
    match DerivedOutputCache.get s.table cycle.version c
        (contentHashOf digest (s.log.messagesFor c)) with
    | some _ => none
    | none => some cycle

/-- What an event does to the log. -/
def appended (s : Delivery json) : DeliveryEvent → Delivery json
  | .append message => { s with log := s.log.append message }
  | .produce _ | .warmup _ _ => s

/-- One event. -/
def apply (s : Delivery json) (e : DeliveryEvent) : Delivery json :=
  match s.cycle digest e with
  | some cycle => s.publish digest cycle
  | none => s.appended e

/-- A history from a new database. -/
def after (json : CacheJson τ) (digest : List UInt8 → String) (events : List DeliveryEvent) :
    Delivery json :=
  events.foldl (apply digest) new

theorem after_concat (events : List DeliveryEvent) (e : DeliveryEvent) :
    after json digest (events ++ [e]) = (after json digest events).apply digest e :=
  List.foldl_concat ..

/-! ### The commands -/

variable {digest} {s : Delivery json} {cycle : Cycle} {strategy : ReplayStrategy}
  {router : RuleRouter}

theorem apply_of_cycle {e : DeliveryEvent} (h : s.cycle digest e = some cycle) :
    s.apply digest e = s.publish digest cycle := by
  unfold apply
  rw [h]

theorem apply_of_none {e : DeliveryEvent} (h : s.cycle digest e = none) :
    s.apply digest e = s.appended e := by
  unfold apply
  rw [h]

/-- With every prune succeeding, the event of a `replay` leaves the table the command leaves. -/
theorem table_replay (hprunes : ∀ c, cycle.prunes c = true)
    (hstores : cycle.stores = strategy s.log) :
    (s.apply digest (.produce cycle)).table =
      (replay digest s.log strategy s.table cycle.version router).1 := by
  rw [apply_of_cycle rfl]
  show cycle.populate digest s.log s.table = (populateCache digest s.log (strategy s.log) _ _).1
  rw [cycle.populate_eq_populateCache digest s.log s.table hprunes, hstores]

/-- With every prune succeeding, the event of a `warmup` leaves the table the command leaves. -/
theorem table_warmup (hprunes : ∀ c, cycle.prunes c = true)
    (hstores : cycle.stores = strategy s.log) (c : ConversationId) :
    (s.apply digest (.warmup c cycle)).table =
      (warmup digest s.log c strategy s.table cycle.version router).1 := by
  cases hget : DerivedOutputCache.get s.table cycle.version c
      (contentHashOf digest (s.log.messagesFor c)) with
  | some derivation =>
    have hnone : s.cycle digest (.warmup c cycle) = none := by simp only [Delivery.cycle, hget]
    rw [apply_of_none hnone]
    simp only [warmup, hget]
    rfl
  | none =>
    have hsome : s.cycle digest (.warmup c cycle) = some cycle := by
      simp only [Delivery.cycle, hget]
    rw [apply_of_cycle hsome]
    simp only [warmup, hget]
    show cycle.populate digest s.log s.table = _
    rw [cycle.populate_eq_populateCache digest s.log s.table hprunes, hstores]

end Delivery

end Mirrorlane
