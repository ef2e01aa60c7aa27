import Mirrorlane.Foundation.Machine
import Mirrorlane.Runtime.Cache

/-!
# Many callers of one cache

A call of `Cached::run` is not atomic: it gets, on a miss runs the inner step, and then puts, and
other calls move in between.  `Calls.machine` interleaves any number of calls; the inner step may
return any value, and another one each time.

A call that runs alone is `Cached.run` (`run_of_cachedRun`).
-/

namespace Mirrorlane

/-- Where a call stands. -/
inductive Call (ν : Type) where
  | idle
  /-- It missed, and its inner step is running. -/
  | missed
  /-- The inner step returned, and the output is not put yet. -/
  | computed (out : ν)
  | done (out : ν)
  | panicked

/-- The call missed and has not put yet. -/
def Call.InFlight {ν : Type} : Call ν → Prop
  | .missed | .computed _ => True
  | .idle | .done _ | .panicked => False

/-- The cache and the calls that use it. -/
structure Calls (ι κ ν : Type) where
  cache : κ
  calls : ι → Call ν

/-- What a call does next. -/
inductive CallEvent (ι ν : Type) where
  | get (i : ι)
  | inner (i : ι) (out : ν)
  | panic (i : ι)
  | put (i : ι)

namespace Calls

variable {ι κ ν : Type}

section Moves

variable [DecidableEq ι]

/-- The call `i` moves to `c`. -/
def moved (s : Calls ι κ ν) (i : ι) (c : Call ν) : Calls ι κ ν where
  cache := s.cache
  calls := Function.update s.calls i c

@[simp] theorem moved_cache (s : Calls ι κ ν) (i : ι) (c : Call ν) :
    (s.moved i c).cache = s.cache := rfl

@[simp] theorem moved_self (s : Calls ι κ ν) (i : ι) (c : Call ν) : (s.moved i c).calls i = c :=
  Function.update_self ..

@[simp] theorem moved_of_ne (s : Calls ι κ ν) {i j : ι} (h : j ≠ i) (c : Call ν) :
    (s.moved i c).calls j = s.calls j :=
  Function.update_of_ne h ..

/-- When no call of some has computed an output after a step of `i`, none had before, unless `i` is
one of them and had. -/
theorem not_computed_of_moved {s : Calls ι κ ν} {i : ι} {c : Call ν} {P : ι → Prop}
    (hi : P i → ∀ out, s.calls i ≠ .computed out)
    (h : ∀ j out, P j → (s.moved i c).calls j ≠ .computed out) (j : ι) (out : ν) (hj : P j) :
    s.calls j ≠ .computed out := by
  by_cases hji : j = i
  · subst hji
    exact hi hj out
  · rw [← moved_of_ne s hji c]
    exact h j out hj

end Moves

variable [Cache κ ν]

/-- An output is put for a request. -/
def stored (s : Calls ι κ ν) (r : CacheRequest) (out : ν) : Calls ι κ ν where
  cache := Cache.put s.cache r out
  calls := s.calls

@[simp] theorem stored_calls (s : Calls ι κ ν) (r : CacheRequest) (out : ν) :
    (s.stored r out).calls = s.calls := rfl

@[simp] theorem stored_cache (s : Calls ι κ ν) (r : CacheRequest) (out : ν) :
    (s.stored r out).cache = Cache.put s.cache r out := rfl

variable [DecidableEq ι]

/-- One atomic step of one call; `req` is what each call was made for. -/
inductive Move (req : ι → CacheRequest) : Calls ι κ ν → CallEvent ι ν → Calls ι κ ν → Prop
  | hit {s : Calls ι κ ν} {i : ι} {out : ν} (h : s.calls i = .idle)
      (hget : Cache.get s.cache (req i) = some out) :
      Move req s (.get i) (s.moved i (.done out))
  -- the cache is left as it is: nothing marks the slot as being worked on
  | miss {s : Calls ι κ ν} {i : ι} (h : s.calls i = .idle)
      (hget : Cache.get s.cache (req i) = none) :
      Move req s (.get i) (s.moved i .missed)
  | inner {s : Calls ι κ ν} {i : ι} (out : ν) (h : s.calls i = .missed) :
      Move req s (.inner i out) (s.moved i (.computed out))
  | panic {s : Calls ι κ ν} {i : ι} (h : s.calls i = .missed) :
      Move req s (.panic i) (s.moved i .panicked)
  -- the cache is not looked at again, so a put overwrites what is there
  | put {s : Calls ι κ ν} {i : ι} {out : ν} (h : s.calls i = .computed out) :
      Move req s (.put i) ((s.stored (req i) out).moved i (.done out))

/-- The calls over one cache, which may hold anything when they start. -/
def machine (ι κ ν : Type) [DecidableEq ι] [Cache κ ν] (req : ι → CacheRequest) :
    Machine (Calls ι κ ν) (CallEvent ι ν) where
  init s := ∀ i, s.calls i = .idle
  step := Move req

/-- What a call that returned or panicked with `inner` returned. -/
def ended : Option ν → Call ν
  | some out => .done out
  | none => .panicked

/-- **A call that is not interleaved with others is `Cached.run`.** -/
theorem run_of_cachedRun (req : ι → CacheRequest) {s : Calls ι κ ν} {i : ι}
    (h : s.calls i = .idle) (inner : Option ν) :
    ∃ es s', (machine ι κ ν req).Run s es s' ∧
      s'.cache = (Cached.run s.cache (req i) inner).2 ∧
      s'.calls i = ended (Cached.run s.cache (req i) inner).1 := by
  cases hget : Cache.get s.cache (req i) with
  | some hit =>
    rw [Cached.run_of_hit hget]
    exact ⟨_, _, .cons (.hit h hget) (.nil _), rfl, moved_self s i _⟩
  | none =>
    cases inner with
    | none =>
      rw [Cached.run_of_panic hget]
      exact ⟨_, _, .cons (.miss h hget) (.cons (.panic (moved_self s i _)) (.nil _)), rfl,
        moved_self _ i _⟩
    | some out =>
      rw [Cached.run_of_miss hget]
      exact ⟨_, _, .cons (.miss h hget) (.cons (.inner out (moved_self s i _))
        (.cons (.put (moved_self _ i _)) (.nil _))), rfl, moved_self _ i _⟩

end Calls

end Mirrorlane
