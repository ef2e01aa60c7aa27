import Mirrorlane.Runtime.Cache

/-!
# Decorators that share one cache

A `Cached` decorator looks an input up under the kind of the step it wraps, its own version and the
key of the input.  `history` runs any calls of any decorators over one in-memory cache, one complete
call after the other.  What an inner step returns belongs to the call and not to the input: it may
be another value each time, or a panic.
-/

namespace Mirrorlane

/-- A `Cached` decorator over a step with inputs `α`. -/
structure Decorator (α : Type) where
  /-- The kind of the inner step. -/
  kind : String
  version : StepVersion
  cacheKey : α → String

/-- What `run` looks up for an input. -/
def Decorator.request {α : Type} (decorator : Decorator α) (input : α) : CacheRequest where
  kind := decorator.kind
  version := decorator.version
  key := decorator.cacheKey input

namespace Decorators

variable {ι : Type} {In : ι → Type} {ν : Type}

/-- A call of one of the decorators. -/
structure Call (In : ι → Type) (ν : Type) where
  decorator : ι
  input : In decorator
  /-- What the inner step returns if this call runs it; `none` is a panic. -/
  inner : Option ν

variable (decorators : (i : ι) → Decorator (In i))

/-- What a call looks up. -/
def Call.request (call : Call In ν) : CacheRequest :=
  (decorators call.decorator).request call.input

/-- A call that was made: the cache it found and the cache it left. -/
structure Record (In : ι → Type) (ν : Type) where
  call : Call In ν
  before : InMemoryCache ν
  output : Option ν
  after : InMemoryCache ν
  /-- What the inner step returned, if the call ran it. -/
  called : Option (Option ν)

/-- What the inner step returned, if this call ran it and it did not panic. -/
def Record.completed (record : Record In ν) : Option ν := record.called.join

/-- The record of a call. -/
def Call.record (cache : InMemoryCache ν) (call : Call In ν) : Record In ν :=
  let result := Cached.runReporting cache (call.request decorators) call.inner
  ⟨call, cache, result.output, result.cache, result.called⟩

/-- The calls, one after the other. -/
def history (cache : InMemoryCache ν) : List (Call In ν) → List (Record In ν)
  | [] => []
  | call :: calls =>
    let record := call.record decorators cache
    record :: history record.after calls

variable {decorators}

/-- Every record of a history is one `Cached::run`. -/
theorem run_of_mem_history {cache : InMemoryCache ν} {calls : List (Call In ν)}
    {record : Record In ν} (h : record ∈ history decorators cache calls) :
    Cached.run record.before (record.call.request decorators) record.call.inner =
      (record.output, record.after) := by
  induction calls generalizing cache with
  | nil => exact absurd h List.not_mem_nil
  | cons call calls ih =>
    rcases List.mem_cons.mp h with rfl | h
    · rfl
    · exact ih h

/-- On a hit the inner step is not run. -/
theorem Call.completed_of_hit {cache : InMemoryCache ν} {call : Call In ν} {out : ν}
    (h : Cache.get cache (call.request decorators) = some out) :
    (call.record decorators cache).completed = none := by
  simp [record, Record.completed, Cached.runReporting_of_hit h]

/-- On a miss it is. -/
theorem Call.completed_of_miss {cache : InMemoryCache ν} {call : Call In ν}
    (h : Cache.get cache (call.request decorators) = none) :
    (call.record decorators cache).completed = call.inner := by
  simp [record, Record.completed, Cached.called_of_miss h]

end Decorators

end Mirrorlane
