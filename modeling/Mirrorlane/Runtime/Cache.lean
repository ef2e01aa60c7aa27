import Mirrorlane.Core.Derivation

/-!
# The semantic cache and the `Cached` decorator

`Cache` memoizes step outputs under a kind, a version and a key.  An adapter may drop a part of the
request (the durable projection cache drops the kind), so `LawfulCache` says what it keys by: the
`slot` of a request.  Requests of one slot share an entry and requests of different slots do not.
An adapter that keeps text may also answer another value than was put: `readBack` of it.
-/

namespace Mirrorlane

/-- What a cached step looks up. -/
structure CacheRequest where
  kind : String
  version : StepVersion
  key : String
  deriving DecidableEq

/-- Memoizes step output. -/
class Cache (κ : Type) (ν : outParam Type) where
  /-- Fetch a cached value for a request. -/
  get : κ → CacheRequest → Option ν
  /-- Cache a value under a request. -/
  put : κ → CacheRequest → ν → κ

/-- What the callers of a cache rely on. -/
class LawfulCache (κ : Type) {ν : outParam Type} [Cache κ ν] where
  /-- The part of a request the adapter keys by. -/
  slot : CacheRequest → CacheRequest
  /-- What a value is read back as. -/
  readBack : ν → ν
  /-- A put answers its own slot and leaves every other slot alone. -/
  get_put : ∀ (cache : κ) (r r' : CacheRequest) (out : ν),
    Cache.get (Cache.put cache r out) r' =
      if slot r' = slot r then some (readBack out) else Cache.get cache r'
  /-- Requests of one slot have one answer. -/
  get_congr : ∀ (cache : κ) {r r' : CacheRequest}, slot r = slot r' →
    Cache.get cache r = Cache.get cache r'

/-- An in-memory cache: a map with a tuple key. -/
structure InMemoryCache (ν : Type) where
  inner : KeyedStore CacheRequest ν

/-- A cache that holds nothing. -/
def InMemoryCache.new {ν : Type} : InMemoryCache ν := ⟨.empty⟩

instance {ν : Type} : Cache (InMemoryCache ν) ν where
  get cache r := cache.inner r
  put cache r out := ⟨cache.inner.insert r out⟩

instance {ν : Type} : LawfulCache (InMemoryCache ν) where
  slot r := r
  readBack out := out
  get_put _ _ _ _ := rfl
  get_congr _ _ _ h := by rw [h]

/-- A run of a cached step: what it returns, the cache it leaves, and what the inner step returned
if it was called. -/
structure ReportedRun (κ ν : Type) where
  output : Option ν
  cache : κ
  /-- `none` when the inner step was not called, `some none` when it panicked. -/
  called : Option (Option ν)

/-- `Cached::run`, step by step: a hit returns the cached output; a miss runs the inner step and
caches its output.  A panic of the inner step, `none`, caches nothing. -/
def Cached.runReporting {κ ν : Type} [Cache κ ν] (cache : κ) (r : CacheRequest)
    (inner : Option ν) : ReportedRun κ ν :=
  match Cache.get cache r with
  | some hit => ⟨some hit, cache, none⟩
  | none =>
    match inner with
    | none => ⟨none, cache, some none⟩
    | some out => ⟨some out, Cache.put cache r out, some (some out)⟩

/-- What `Cached::run` returns, and the cache it leaves. -/
def Cached.run {κ ν : Type} [Cache κ ν] (cache : κ) (r : CacheRequest) (inner : Option ν) :
    Option ν × κ :=
  ((runReporting cache r inner).output, (runReporting cache r inner).cache)

namespace Cached

variable {κ ν : Type} [Cache κ ν] {cache : κ} {r r' : CacheRequest} {inner : Option ν} {out : ν}

theorem runReporting_of_hit (h : Cache.get cache r = some out) :
    runReporting cache r inner = ⟨some out, cache, none⟩ := by
  rw [runReporting.eq_def, h]

theorem runReporting_of_panic (h : Cache.get cache r = none) :
    runReporting cache r (none : Option ν) = ⟨none, cache, some none⟩ := by
  rw [runReporting.eq_def, h]

theorem runReporting_of_miss (h : Cache.get cache r = none) :
    runReporting cache r (some out) = ⟨some out, Cache.put cache r out, some (some out)⟩ := by
  rw [runReporting.eq_def, h]

/-- A miss calls the inner step. -/
theorem called_of_miss (h : Cache.get cache r = none) :
    (runReporting cache r inner).called = some inner := by
  cases inner with
  | none => rw [runReporting_of_panic h]
  | some out => rw [runReporting_of_miss h]

theorem run_of_hit (h : Cache.get cache r = some out) : run cache r inner = (some out, cache) := by
  rw [run, runReporting_of_hit h]

theorem run_of_panic (h : Cache.get cache r = none) :
    run cache r (none : Option ν) = (none, cache) := by
  rw [run, runReporting_of_panic h]

theorem run_of_miss (h : Cache.get cache r = none) :
    run cache r (some out) = (some out, Cache.put cache r out) := by
  rw [run, runReporting_of_miss h]

/-- **What a cached run does to the cache**: nothing, or it puts the inner output where nothing
was. -/
theorem run_cases (cache : κ) (r : CacheRequest) (inner : Option ν) :
    (run cache r inner).2 = cache ∨ ∃ out, inner = some out ∧ Cache.get cache r = none ∧
      (run cache r inner).2 = Cache.put cache r out := by
  cases hget : Cache.get cache r with
  | some hit =>
    left
    rw [run_of_hit hget]
  | none =>
    cases inner with
    | none =>
      left
      rw [run_of_panic hget]
    | some out =>
      right
      rw [run_of_miss hget]
      exact ⟨out, rfl, rfl, rfl⟩

/-- A run whose inner step does not panic returns. -/
theorem isSome_run (h : inner.isSome) : (run cache r inner).1.isSome := by
  obtain ⟨out, rfl⟩ := Option.isSome_iff_exists.mp h
  cases hget : Cache.get cache r with
  | some hit => rw [run_of_hit hget]; rfl
  | none => rw [run_of_miss hget]; rfl

variable [LawfulCache κ]

/-- **A cached run keeps every entry.** -/
theorem get_run (h : Cache.get cache r' = some out) :
    Cache.get (run cache r inner).2 r' = some out := by
  rcases run_cases cache r inner with hsame | ⟨new, -, hfree, hput⟩
  · rwa [hsame]
  · rw [hput, LawfulCache.get_put, if_neg, h]
    -- the entry is in another slot, since the slot of `r` was empty
    intro hslot
    rw [LawfulCache.get_congr cache hslot, hfree] at h
    exact absurd h (by simp)

/-- After a miss the cache answers what the inner step returned, as it is read back. -/
theorem get_run_of_miss (h : Cache.get cache r = none) :
    Cache.get (run cache r inner).2 r = inner.map (LawfulCache.readBack κ) := by
  cases inner with
  | none => rwa [run_of_panic h]
  | some new =>
    rw [run_of_miss h, LawfulCache.get_put, if_pos rfl]
    rfl

/-- What a cached run returns is what the cache then holds, when what the inner step returned is
read back as it was. -/
theorem get_run_self (hinner : ∀ out ∈ inner, LawfulCache.readBack κ out = out) :
    Cache.get (run cache r inner).2 r = (run cache r inner).1 := by
  cases hget : Cache.get cache r with
  | some hit => rwa [run_of_hit hget]
  | none =>
    rw [get_run_of_miss hget]
    cases inner with
    | none => rw [run_of_panic hget]; rfl
    | some new => rw [run_of_miss hget, Option.map_some, hinner new rfl]

/-- A cached run leaves every other slot alone. -/
theorem get_run_of_ne (cache : κ) (inner : Option ν)
    (h : LawfulCache.slot κ r' ≠ LawfulCache.slot κ r) :
    Cache.get (run cache r inner).2 r' = Cache.get cache r' := by
  rcases run_cases cache r inner with hsame | ⟨new, -, -, hput⟩
  · rw [hsame]
  · rw [hput, LawfulCache.get_put, if_neg h]

/-- An entry after a cached run was there before, or is read back from what the inner step
returned. -/
theorem of_get_run (h : Cache.get (run cache r inner).2 r' = some out) :
    Cache.get cache r' = some out ∨ ∃ new ∈ inner, LawfulCache.readBack κ new = out := by
  rcases run_cases cache r inner with hsame | ⟨new, hinner, -, hput⟩
  · rw [hsame] at h
    exact Or.inl h
  · rw [hput, LawfulCache.get_put] at h
    split_ifs at h
    · exact Or.inr ⟨new, hinner, Option.some.inj h⟩
    · exact Or.inl h

end Cached

end Mirrorlane
