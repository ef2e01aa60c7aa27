import Mirrorlane.Runtime.Decorators

/-!
# One answer per key

The first call for a request whose inner step returns decides what every later call for that request
returns: the entry it puts is never replaced (`Cached.get_run`), so from then on every call hits it.

## Main results

* `hits_of_get`: what is cached is returned, and no inner step runs for it
* `exists_frozen`: the induction over the calls
* `answers_frozen`
-/

namespace Mirrorlane

namespace Decorators

variable {ι : Type} {In : ι → Type} {ν : Type} (decorators : (i : ι) → Decorator (In i))

/-- The inner step of the call returned, for the request `r`. -/
def completedFor (r : CacheRequest) (record : Record In ν) : Bool :=
  record.call.request decorators = r ∧ record.completed.isSome

variable {decorators} {cache : InMemoryCache ν} {calls : List (Call In ν)} {r : CacheRequest}

/-- While an entry is there, every call for it returns it. -/
theorem hits_of_get {v : ν} (h : Cache.get cache r = some v) :
    ∀ record ∈ history decorators cache calls, record.call.request decorators = r →
      record.completed = none ∧ record.output = some v := by
  induction calls generalizing cache with
  | nil => exact fun _ hmem => absurd hmem List.not_mem_nil
  | cons call calls ih =>
    intro record hmem hr
    rcases List.mem_cons.mp hmem with rfl | hmem
    · have hget : Cache.get cache (call.request decorators) = some v := by
        rw [← h]
        exact congrArg (Cache.get cache) hr
      refine ⟨Call.completed_of_hit hget, ?_⟩
      show (Cached.run cache (call.request decorators) call.inner).1 = some v
      rw [Cached.run_of_hit hget]
    · exact ih (Cached.get_run h) record hmem hr

theorem countP_of_get {v : ν} (h : Cache.get cache r = some v) :
    (history decorators cache calls).countP (completedFor decorators r) = 0 := by
  rw [List.countP_eq_zero]
  intro record hmem hcompleted
  obtain ⟨hr, hsome⟩ := of_decide_eq_true hcompleted
  rw [(hits_of_get h record hmem hr).1] at hsome
  exact absurd hsome Bool.false_ne_true

/-- In these calls the request `r` has one answer, which is `none` if its inner step never
returned. -/
structure Frozen (decorators : (i : ι) → Decorator (In i)) (r : CacheRequest)
    (hist : List (Record In ν)) (answer : Option ν) : Prop where
  completes_once : hist.countP (completedFor decorators r) ≤ 1
  completed : ∀ out, answer = some out → ∃ first ∈ hist,
    first.call.request decorators = r ∧ first.completed = some out
  output : ∀ record ∈ hist, record.call.request decorators = r → ∀ out,
    record.output = some out → answer = some out

/-- A call that neither completes its inner step for `r` nor returns anything for `r`. -/
theorem Frozen.cons {hist : List (Record In ν)} {head : Record In ν} {answer : Option ν}
    (h : Frozen decorators r hist answer) (hhead : completedFor decorators r head = false)
    (hout : head.call.request decorators = r → head.output = none) :
    Frozen decorators r (head :: hist) answer where
  completes_once := by
    rw [List.countP_cons, hhead]
    exact h.completes_once
  completed out hanswer := by
    obtain ⟨first, hfirst, heq⟩ := h.completed out hanswer
    exact ⟨first, List.mem_cons_of_mem _ hfirst, heq⟩
  output record hmem hr out hrec := by
    rcases List.mem_cons.mp hmem with rfl | hmem
    · rw [hout hr] at hrec
      exact absurd hrec.symm (Option.some_ne_none out)
    · exact h.output record hmem hr out hrec

/-- From a cache without an entry for `r`, the first inner step that returns for it decides. -/
theorem exists_frozen (h : Cache.get cache r = none) :
    ∃ answer, Frozen decorators r (history decorators cache calls) answer := by
  induction calls generalizing cache with
  | nil => exact ⟨none, Nat.zero_le _, by simp, fun _ hmem => absurd hmem List.not_mem_nil⟩
  | cons call calls ih =>
    let head := call.record decorators cache
    show ∃ answer, Frozen decorators r (head :: history decorators head.after calls) answer
    by_cases hr : call.request decorators = r
    · have hcompleted : head.completed = call.inner :=
        Call.completed_of_miss (by rw [← h]; exact congrArg (Cache.get cache) hr)
      cases hinner : call.inner with
      | none =>
        -- a panic: nothing is returned, and the cache is as it was
        have hpanic : Cached.run cache (call.request decorators) call.inner = (none, cache) := by
          rw [hinner, hr]
          exact Cached.run_of_panic h
        have hafter : head.after = cache := congrArg Prod.snd hpanic
        have hhead : completedFor decorators r head = false := by
          unfold completedFor
          rw [hcompleted, hinner]
          exact decide_eq_false fun hc => absurd hc.2 Bool.false_ne_true
        obtain ⟨answer, hanswer⟩ := ih h
        rw [hafter]
        exact ⟨answer, hanswer.cons hhead fun _ => congrArg Prod.fst hpanic⟩
      | some out =>
        -- the first success: every later call is a hit
        have hmiss : Cached.run cache (call.request decorators) call.inner =
            (some out, Cache.put cache (call.request decorators) out) := by
          rw [hinner, hr]
          exact Cached.run_of_miss h
        have hget : Cache.get head.after r = some out := by
          show Cache.get (Cached.run cache (call.request decorators) call.inner).2 r = some out
          rw [← hr, Cached.get_run_self fun _ _ => rfl, hmiss]
        refine ⟨some out, ?_, fun v hv => ?_, fun record hmem hreq v hv => ?_⟩
        · rw [List.countP_cons, countP_of_get hget]
          split_ifs <;> omega
        · exact ⟨head, List.mem_cons_self, hr, by rw [hcompleted, hinner, hv]⟩
        · rcases List.mem_cons.mp hmem with rfl | hmem
          · rw [← hv]
            exact (congrArg Prod.fst hmiss).symm
          · rw [← hv, (hits_of_get hget record hmem hreq).2]
    · -- a call for another request
      have hget : Cache.get head.after r = none := by
        rw [← h]
        exact Cached.get_run_of_ne cache call.inner (Ne.symm hr)
      have hhead : completedFor decorators r head = false :=
        decide_eq_false fun hc => absurd hc.1 hr
      obtain ⟨answer, hanswer⟩ := ih hget
      exact ⟨answer, hanswer.cons hhead fun hreq => absurd hreq hr⟩

/-- A call that panics leaves the cache as it was. -/
theorem after_of_panic {record : Record In ν} (h : record ∈ history decorators cache calls)
    (hout : record.output = none) : record.after = record.before := by
  have hrun := run_of_mem_history h
  cases hget : Cache.get record.before (record.call.request decorators) with
  | some hit =>
    rw [Cached.run_of_hit hget] at hrun
    exact (congrArg Prod.snd hrun).symm
  | none =>
    cases hinner : record.call.inner with
    | none =>
      rw [hinner, Cached.run_of_panic hget] at hrun
      exact (congrArg Prod.snd hrun).symm
    | some out =>
      rw [hinner, Cached.run_of_miss hget] at hrun
      have hsome : some out = record.output := congrArg Prod.fst hrun
      rw [hout] at hsome
      exact absurd hsome (Option.some_ne_none out)

/-- **The cache freezes one answer per key.** Whatever the decorators, the calls and what the inner
steps return: for each kind, version and key the inner step completes at most once; what calls for
it return is what a decorator of that kind and version got for an input with that key, so it is the
same each time; a call that panics leaves the cache as it was, and no call changes an entry of
another kind, version or key. -/
theorem answers_frozen (decorators : (i : ι) → Decorator (In i)) (calls : List (Call In ν)) :
    let hist := history decorators InMemoryCache.new calls
    (∀ r, hist.countP (completedFor decorators r) ≤ 1) ∧
    (∀ record ∈ hist, ∀ out, record.output = some out → ∃ first ∈ hist,
      (decorators first.call.decorator).kind = (decorators record.call.decorator).kind ∧
      (decorators first.call.decorator).version = (decorators record.call.decorator).version ∧
      (decorators first.call.decorator).cacheKey first.call.input =
        (decorators record.call.decorator).cacheKey record.call.input ∧
      first.completed = some out) ∧
    (∀ record ∈ hist, ∀ record' ∈ hist, ∀ out out',
      record.call.request decorators = record'.call.request decorators →
      record.output = some out → record'.output = some out' → out = out') ∧
    (∀ record ∈ hist, record.output = none → record.after = record.before) ∧
    (∀ record ∈ hist, ∀ r, r ≠ record.call.request decorators →
      Cache.get record.after r = Cache.get record.before r) := by
  intro hist
  have hfrozen : ∀ r, ∃ answer, Frozen decorators r hist answer := fun r => exists_frozen rfl
  refine ⟨fun r => ?_, fun record hmem out hout => ?_,
    fun record hmem record' hmem' out out' hreq hout hout' => ?_,
    fun record hmem => after_of_panic hmem, fun record hmem r hne => ?_⟩
  · obtain ⟨answer, hanswer⟩ := hfrozen r
    exact hanswer.completes_once
  · obtain ⟨answer, hanswer⟩ := hfrozen (record.call.request decorators)
    obtain ⟨first, hfirst, hreq, hcompleted⟩ :=
      hanswer.completed out (hanswer.output record hmem rfl out hout)
    exact ⟨first, hfirst, congrArg CacheRequest.kind hreq, congrArg CacheRequest.version hreq,
      congrArg CacheRequest.key hreq, hcompleted⟩
  · obtain ⟨answer, hanswer⟩ := hfrozen (record.call.request decorators)
    have hsome : answer = some out := hanswer.output record hmem rfl out hout
    rw [hanswer.output record' hmem' hreq.symm out' hout'] at hsome
    exact (Option.some.inj hsome).symm
  · have hafter : record.after =
        (Cached.run record.before (record.call.request decorators) record.call.inner).2 := by
      rw [run_of_mem_history hmem]
    rw [hafter]
    exact Cached.get_run_of_ne record.before record.call.inner hne

end Decorators

end Mirrorlane
