import Mirrorlane.Foundation.Machine
import Mirrorlane.Worker.Derived
import Mathlib.Logic.Function.Basic

/-!
# Producing runs over a log that others append to

`replay`, the miss path of `warmup` and a consumed strategy run all do the same to the shared state:
the strategy reads the log, the keying pass reads it again, and then the entries are put one by one.
Between any two of these steps other processes may append or re-append messages, and other producing
runs may move.

An entry is put together with the messages its key was computed from.
-/

namespace Mirrorlane

/-- An entry of the keying pass, and the messages it hashed. -/
structure KeyedEntry where
  messages : List MessageEnvelope
  entry : CacheEntry
  deriving DecidableEq

/-- Where a producing run stands. -/
inductive Producer where
  | idle
  /-- The strategy ran over the log it read. -/
  | ran (read : MessageLog)
  /-- The entries that are still to be put. -/
  | putting (pending : List KeyedEntry)

/-- The shared log and cache, the producing runs, and what was put so far. -/
structure Producers (ι κ : Type) where
  log : MessageLog
  cache : κ
  producers : ι → Producer
  puts : List KeyedEntry

/-- What happens next. -/
inductive ProducerEvent (ι : Type) where
  | append (message : MessageEnvelope)
  | run (i : ι)
  | key (i : ι)
  | put (i : ι)
  | finish (i : ι)

namespace Producers

variable {ι κ : Type} (digest : List UInt8 → String) (ports : StrategyContext)
  (version : StepVersion)

/-- What a run over `read` puts when it keys `log`. -/
def keyedEntries (read log : MessageLog) : List KeyedEntry :=
  (messageGroups log).filterMap fun group =>
    (entryFor digest (runPhases ports read) group).map (KeyedEntry.mk group.2)

/-- The entries are those of the keying pass. -/
theorem map_entry_keyedEntries (read log : MessageLog) :
    (keyedEntries digest ports read log).map KeyedEntry.entry =
      cacheEntries digest log (runPhases ports read) := by
  unfold keyedEntries
  rw [List.map_filterMap, cacheEntries]
  refine List.filterMap_congr fun group _ => ?_
  rw [Option.map_map]
  exact Option.map_id' (x := entryFor digest (runPhases ports read) group)

section Moves

variable [DecidableEq ι]

/-- The producing run `i` moves to `p`. -/
def moved (s : Producers ι κ) (i : ι) (p : Producer) : Producers ι κ where
  log := s.log
  cache := s.cache
  producers := Function.update s.producers i p
  puts := s.puts

@[simp] theorem moved_log (s : Producers ι κ) (i : ι) (p : Producer) :
    (s.moved i p).log = s.log := rfl

@[simp] theorem moved_cache (s : Producers ι κ) (i : ι) (p : Producer) :
    (s.moved i p).cache = s.cache := rfl

@[simp] theorem moved_puts (s : Producers ι κ) (i : ι) (p : Producer) :
    (s.moved i p).puts = s.puts := rfl

@[simp] theorem moved_self (s : Producers ι κ) (i : ι) (p : Producer) :
    (s.moved i p).producers i = p :=
  Function.update_self ..

@[simp] theorem moved_of_ne (s : Producers ι κ) {i j : ι} (h : j ≠ i) (p : Producer) :
    (s.moved i p).producers j = s.producers j :=
  Function.update_of_ne h ..

end Moves

variable [DerivedOutputCache κ]

/-- An entry is put. -/
def stored (s : Producers ι κ) (e : KeyedEntry) : Producers ι κ where
  log := s.log
  cache := putEntry version s.cache e.entry
  producers := s.producers
  puts := s.puts ++ [e]

variable [DecidableEq ι]

/-- One atomic step. -/
inductive Move : Producers ι κ → ProducerEvent ι → Producers ι κ → Prop
  | append {s : Producers ι κ} (message : MessageEnvelope) :
      Move s (.append message) { s with log := s.log.append message }
  | run {s : Producers ι κ} {i : ι} (h : s.producers i = .idle) :
      Move s (.run i) (s.moved i (.ran s.log))
  -- `populate_cache` reads the log again: the stores are of `read`, the keys of `s.log`
  | key {s : Producers ι κ} {i : ι} {read : MessageLog} (h : s.producers i = .ran read) :
      Move s (.key i) (s.moved i (.putting (keyedEntries digest ports read s.log)))
  | put {s : Producers ι κ} {i : ι} {e : KeyedEntry} {rest : List KeyedEntry}
      (h : s.producers i = .putting (e :: rest)) :
      Move s (.put i) ((s.stored version e).moved i (.putting rest))
  | finish {s : Producers ι κ} {i : ι} (h : s.producers i = .putting []) :
      Move s (.finish i) (s.moved i .idle)

/-- The producing runs over one log and one cache, which may hold anything when they start. -/
def machine (ι κ : Type) [DecidableEq ι] [DerivedOutputCache κ] (digest : List UInt8 → String)
    (ports : StrategyContext) (version : StepVersion) :
    Machine (Producers ι κ) (ProducerEvent ι) where
  init s := (∀ i, s.producers i = .idle) ∧ s.puts = []
  step := Move digest ports version

/-! ### A run that is not interleaved -/

/-- The puts of one run, one after the other. -/
theorem run_of_putting {i : ι} (pending : List KeyedEntry) :
    ∀ {s : Producers ι κ}, s.producers i = .putting pending →
      ∃ es t, (machine ι κ digest ports version).Run s es t ∧ t.producers i = .idle ∧
        t.cache = (pending.map KeyedEntry.entry).foldl (putEntry version) s.cache ∧
        t.puts = s.puts ++ pending := by
  induction pending with
  | nil =>
    intro s hi
    exact ⟨_, _, .cons (.finish hi) (.nil _), moved_self s i _, rfl, by simp⟩
  | cons e rest ih =>
    intro s hi
    have hrest : ((s.stored version e).moved i (.putting rest)).producers i = .putting rest :=
      moved_self _ i _
    -- the induction hypothesis runs on from the state after this put
    obtain ⟨es, t, hrun, hidle, hcache, hputs⟩ := ih hrest
    refine ⟨_, t, .cons (.put hi) hrun, hidle, hcache, ?_⟩
    rw [hputs]
    simp [stored]

/-- **A producing run that is not interleaved with others leaves what `populateCache` leaves.** -/
theorem run_of_populateCache {i : ι} {s : Producers ι κ} (hi : s.producers i = .idle) :
    ∃ es t, (machine ι κ digest ports version).Run s es t ∧ t.producers i = .idle ∧
      t.cache = (populateCache digest s.log (runPhases ports s.log) s.cache version).1 := by
  have hran : (s.moved i (.ran s.log)).producers i = .ran s.log := moved_self s i _
  have hputting := moved_self (s.moved i (.ran s.log)) i
    (.putting (keyedEntries digest ports s.log s.log))
  obtain ⟨es, t, hrun, hidle, hcache, -⟩ := run_of_putting digest ports version _ hputting
  refine ⟨_, t, .cons (.run hi) (.cons (.key hran) hrun), hidle, ?_⟩
  rw [hcache, map_entry_keyedEntries]
  rfl

end Producers

end Mirrorlane
