import Mirrorlane.Runtime.Calls
import Mirrorlane.Core.Projection

/-!
# When concurrent callers agree on one answer

Two calls that miss one slot at the same time both run the inner step, and the second put overwrites
what the first returned.  A cache that keeps text may also answer another value than was put.  As
long as no call misses a slot that another call is working on (`Exclusive`), and every output is
read back as it was (`ReadsBack`), the calls of a slot agree.  The invariant `Settled` says why: the
cache misses a slot exactly until its one completed inner step is put.

## Main results

* `settled_of_run`
* `agrees_of_exclusive_run`
* `calls_disagree`: two overlapping misses
-/

namespace Mirrorlane

namespace Calls

variable {ι κ ν : Type} [Cache κ ν] [LawfulCache κ] (req : ι → CacheRequest)

/-- The two requests share a cache entry. -/
def SameSlot (κ : Type) {ν : Type} [Cache κ ν] [LawfulCache κ] (r r' : CacheRequest) : Prop :=
  LawfulCache.slot κ r = LawfulCache.slot κ r'

instance (r r' : CacheRequest) : Decidable (SameSlot κ r r') :=
  inferInstanceAs (Decidable (LawfulCache.slot κ r = LawfulCache.slot κ r'))

/-- The inner step of a call for `r` returned. -/
def completesFor (κ : Type) {ν : Type} [Cache κ ν] [LawfulCache κ] (req : ι → CacheRequest)
    (r : CacheRequest) : CallEvent ι ν → Bool
  | .inner i _ => SameSlot κ (req i) r
  | .get _ | .panic _ | .put _ => false

/-- How many inner steps for `r` returned in a run. -/
def completions (κ : Type) {ν : Type} [Cache κ ν] [LawfulCache κ] (req : ι → CacheRequest)
    (r : CacheRequest) (events : List (CallEvent ι ν)) : ℕ :=
  events.countP (completesFor κ req r)

/-- All completed calls for one request have one output, it is what a get returns, and the inner
step completed at most once for it. -/
structure Agrees (events : List (CallEvent ι ν)) (s : Calls ι κ ν) : Prop where
  same_output : ∀ i j out out', SameSlot κ (req i) (req j) → s.calls i = .done out →
    s.calls j = .done out' → out = out'
  get_eq : ∀ i out r, SameSlot κ (req i) r → s.calls i = .done out →
    Cache.get s.cache r = some out
  completes_once : ∀ r, completions κ req r events ≤ 1

/-- A call only misses a slot no other call is in flight on. -/
def Exclusive (s : Calls ι κ ν) : CallEvent ι ν → Prop
  | .get i => Cache.get s.cache (req i) = none →
    ∀ j, SameSlot κ (req i) (req j) → ¬(s.calls j).InFlight
  | .inner _ _ | .panic _ | .put _ => True

/-- What the inner step returns is read back as it was. -/
def ReadsBack (κ : Type) {ν : Type} [Cache κ ν] [LawfulCache κ] : CallEvent ι ν → Prop
  | .inner _ out => LawfulCache.readBack κ out = out
  | .get _ | .panic _ | .put _ => True

/-- What exclusive runs keep. -/
structure Settled (events : List (CallEvent ι ν)) (s : Calls ι κ ν) : Prop where
  one_inFlight : ∀ i j, SameSlot κ (req i) (req j) → (s.calls i).InFlight → (s.calls j).InFlight →
    i = j
  inFlight_get : ∀ i, (s.calls i).InFlight → Cache.get s.cache (req i) = none
  computed_readBack : ∀ i out, s.calls i = .computed out → LawfulCache.readBack κ out = out
  done_get : ∀ i out, s.calls i = .done out → Cache.get s.cache (req i) = some out
  completes_once : ∀ r, completions κ req r events ≤ 1
  completes_none : ∀ r, Cache.get s.cache r = none →
    (∀ i out, SameSlot κ (req i) r → s.calls i ≠ .computed out) → completions κ req r events = 0

variable {req} {events : List (CallEvent ι ν)} {s : Calls ι κ ν}

theorem completions_concat (r : CacheRequest) (e : CallEvent ι ν) :
    completions κ req r (events ++ [e]) =
      completions κ req r events + if completesFor κ req r e then 1 else 0 := by
  rw [completions, List.countP_append, List.countP_singleton]
  rfl

theorem sameSlot_get {r r' : CacheRequest} (cache : κ) (h : SameSlot κ r r') :
    Cache.get cache r = Cache.get cache r' :=
  LawfulCache.get_congr cache h

/-- **What the invariant gives.** -/
theorem Settled.agrees (h : Settled req events s) : Agrees req events s where
  same_output i j out out' hslot hi hj := by
    have hget := h.done_get i out hi
    rw [sameSlot_get s.cache hslot, h.done_get j out' hj] at hget
    exact (Option.some.inj hget).symm
  get_eq i out r hslot hi := by rw [← sameSlot_get s.cache hslot, h.done_get i out hi]
  completes_once := h.completes_once

section Steps

variable [DecidableEq ι] {i : ι}

/-- A call that is not in flight stays out of the way: it hits, or it panics. -/
theorem Settled.leave (h : Settled req events s) {e : CallEvent ι ν} {c : Call ν}
    (he : ∀ r, completesFor κ req r e = false) (hc : ¬c.InFlight)
    (hdone : ∀ out, c = .done out → Cache.get s.cache (req i) = some out)
    (hi : ∀ out, s.calls i ≠ .computed out) :
    Settled req (events ++ [e]) (s.moved i c) where
  one_inFlight a b hab ha hb := by
    have hai : a ≠ i := fun heq => hc (by rwa [heq, moved_self] at ha)
    have hbi : b ≠ i := fun heq => hc (by rwa [heq, moved_self] at hb)
    rw [moved_of_ne s hai] at ha
    rw [moved_of_ne s hbi] at hb
    exact h.one_inFlight a b hab ha hb
  inFlight_get a ha := by
    have hai : a ≠ i := fun heq => hc (by rwa [heq, moved_self] at ha)
    rw [moved_of_ne s hai] at ha
    exact h.inFlight_get a ha
  computed_readBack a out ha := by
    have hai : a ≠ i := fun heq => hc (by rw [heq, moved_self] at ha; rw [ha]; trivial)
    rw [moved_of_ne s hai] at ha
    exact h.computed_readBack a out ha
  done_get a out ha := by
    by_cases hai : a = i
    · subst hai
      rw [moved_self] at ha
      exact hdone out ha
    · rw [moved_of_ne s hai] at ha
      exact h.done_get a out ha
  completes_once r := by
    rw [completions_concat, he r]
    simpa using h.completes_once r
  completes_none r hget hnone := by
    rw [completions_concat, he r]
    -- the call had not computed an output before it left either
    have hnone' : ∀ a out, SameSlot κ (req a) r → s.calls a ≠ .computed out :=
      not_computed_of_moved (fun _ => hi) hnone
    simpa using h.completes_none r hget hnone'

/-- A call misses a slot no other call is in flight on. -/
theorem Settled.miss (h : Settled req events s) (hi : s.calls i = .idle)
    (hget : Cache.get s.cache (req i) = none)
    (hexcl : ∀ j, SameSlot κ (req i) (req j) → ¬(s.calls j).InFlight) :
    Settled req (events ++ [.get i]) (s.moved i .missed) where
  one_inFlight a b hab ha hb := by
    by_cases hai : a = i <;> by_cases hbi : b = i
    · rw [hai, hbi]
    · -- another call on the slot would contradict the guard
      rw [moved_of_ne s hbi] at hb
      exact absurd hb (hexcl b (hai ▸ hab))
    · rw [moved_of_ne s hai] at ha
      exact absurd ha (hexcl a (hbi ▸ hab).symm)
    · rw [moved_of_ne s hai] at ha
      rw [moved_of_ne s hbi] at hb
      exact h.one_inFlight a b hab ha hb
  inFlight_get a ha := by
    by_cases hai : a = i
    · rw [hai]
      exact hget
    · rw [moved_of_ne s hai] at ha
      exact h.inFlight_get a ha
  computed_readBack a out ha := by
    by_cases hai : a = i
    · subst hai
      rw [moved_self] at ha
      exact absurd ha (by simp)
    · rw [moved_of_ne s hai] at ha
      exact h.computed_readBack a out ha
  done_get a out ha := by
    by_cases hai : a = i
    · subst hai
      rw [moved_self] at ha
      exact absurd ha (by simp)
    · rw [moved_of_ne s hai] at ha
      exact h.done_get a out ha
  completes_once r := by
    rw [completions_concat]
    simpa [completesFor] using h.completes_once r
  completes_none r hr hnone := by
    have hidle : ∀ out, s.calls i ≠ .computed out := by simp [hi]
    have hnone' : ∀ a out, SameSlot κ (req a) r → s.calls a ≠ .computed out :=
      not_computed_of_moved (fun _ => hidle) hnone
    rw [completions_concat]
    simpa [completesFor] using h.completes_none r hr hnone'

/-- The one call in flight on its slot completes its inner step. -/
theorem Settled.inner (h : Settled req events s) (hi : s.calls i = .missed) {out : ν}
    (hout : LawfulCache.readBack κ out = out) :
    Settled req (events ++ [.inner i out]) (s.moved i (.computed out)) := by
  have hflight : (s.calls i).InFlight := by rw [hi]; trivial
  -- being in flight is as before for every call
  have hsame : ∀ a, ((s.moved i (.computed out)).calls a).InFlight ↔ (s.calls a).InFlight := by
    intro a
    by_cases hai : a = i
    · rw [hai, moved_self]
      exact ⟨fun _ => hflight, fun _ => trivial⟩
    · rw [moved_of_ne s hai]
  refine ⟨fun a b hab ha hb => h.one_inFlight a b hab ((hsame a).mp ha) ((hsame b).mp hb),
    fun a ha => h.inFlight_get a ((hsame a).mp ha), fun a out' ha => ?_, fun a out' ha => ?_,
    fun r => ?_, fun r hr hnone => ?_⟩
  · by_cases hai : a = i
    · subst hai
      rw [moved_self, Call.computed.injEq] at ha
      rwa [← ha]
    · rw [moved_of_ne s hai] at ha
      exact h.computed_readBack a out' ha
  · by_cases hai : a = i
    · subst hai
      rw [moved_self] at ha
      exact absurd ha (by simp)
    · rw [moved_of_ne s hai] at ha
      exact h.done_get a out' ha
  · rw [completions_concat]
    by_cases hslot : SameSlot κ (req i) r
    · -- no inner step completed for this slot before
      have hzero : completions κ req r events = 0 := by
        refine h.completes_none r ?_ fun a out' ha hcomputed => ?_
        · rw [← sameSlot_get s.cache hslot]
          exact h.inFlight_get i hflight
        · have haflight : (s.calls a).InFlight := by rw [hcomputed]; trivial
          have hai : a = i := h.one_inFlight a i (ha.trans hslot.symm) haflight hflight
          rw [hai, hi] at hcomputed
          exact absurd hcomputed (by simp)
      simp [completesFor, hslot, hzero]
    · simpa [completesFor, hslot] using h.completes_once r
  · have hslot : ¬SameSlot κ (req i) r := fun hslot => hnone i out hslot (moved_self s i _)
    have hnone' : ∀ a out', SameSlot κ (req a) r → s.calls a ≠ .computed out' :=
      not_computed_of_moved (fun hi => absurd hi hslot) hnone
    rw [completions_concat]
    simpa [completesFor, hslot] using h.completes_none r hr hnone'

/-- The output is put, and the slot is settled for good. -/
theorem Settled.put (h : Settled req events s) {out : ν} (hi : s.calls i = .computed out) :
    Settled req (events ++ [.put i]) ((s.stored (req i) out).moved i (.done out)) := by
  have hflight : (s.calls i).InFlight := by rw [hi]; trivial
  -- the calls that stay in flight are on other slots, which the put leaves alone
  have hleft : ∀ a, (((s.stored (req i) out).moved i (.done out)).calls a).InFlight →
      (s.calls a).InFlight ∧ ¬SameSlot κ (req a) (req i) := by
    intro a ha
    have hai : a ≠ i := fun heq => by rw [heq, moved_self] at ha; exact ha
    rw [moved_of_ne _ hai] at ha
    exact ⟨ha, fun hslot => hai (h.one_inFlight a i hslot ha hflight)⟩
  have hother : ∀ {r}, ¬SameSlot κ r (req i) →
      Cache.get (Cache.put s.cache (req i) out) r = Cache.get s.cache r := fun {r} hslot => by
    rw [LawfulCache.get_put]
    exact if_neg hslot
  have hown : ∀ {r}, SameSlot κ r (req i) →
      Cache.get (Cache.put s.cache (req i) out) r = some out := fun {r} hslot => by
    rw [LawfulCache.get_put, h.computed_readBack i out hi]
    exact if_pos hslot
  refine ⟨fun a b hab ha hb => h.one_inFlight a b hab (hleft a ha).1 (hleft b hb).1,
    fun a ha => ?_, fun a out' ha => ?_, fun a out' ha => ?_, fun r => ?_, fun r hr hnone => ?_⟩
  · exact (hother (hleft a ha).2).trans (h.inFlight_get a (hleft a ha).1)
  · have hai : a ≠ i := fun heq => by rw [heq, moved_self] at ha; exact absurd ha (by simp)
    rw [moved_of_ne _ hai] at ha
    exact h.computed_readBack a out' ha
  · by_cases hai : a = i
    · subst hai
      rw [moved_self, Call.done.injEq] at ha
      rw [← ha]
      exact hown rfl
    · rw [moved_of_ne _ hai] at ha
      have hget := h.done_get a out' ha
      -- a completed call on this slot would have made call `i` hit
      have hslot : ¬SameSlot κ (req a) (req i) := fun hslot => by
        rw [sameSlot_get s.cache hslot, h.inFlight_get i hflight] at hget
        exact absurd hget (by simp)
      exact (hother hslot).trans hget
  · rw [completions_concat]
    simpa [completesFor] using h.completes_once r
  · -- the cache misses `r`, so the put was for another slot
    have hslot : ¬SameSlot κ r (req i) := fun hslot => by
      rw [moved_cache, stored_cache, hown hslot] at hr
      exact absurd hr (by simp)
    have hnone' : ∀ a out', SameSlot κ (req a) r → s.calls a ≠ .computed out' :=
      not_computed_of_moved (s := s.stored (req i) out) (fun hi => absurd hi.symm hslot) hnone
    rw [completions_concat]
    simpa [completesFor] using h.completes_none r ((hother hslot).symm.trans hr) hnone'

/-- **One exclusive step keeps the invariant.** -/
theorem settled_step {s' : Calls ι κ ν} {e : CallEvent ι ν} (h : Settled req events s)
    (hexcl : Exclusive req s e) (hback : ReadsBack κ e) (hmove : Move req s e s') :
    Settled req (events ++ [e]) s' := by
  cases hmove with
  | hit hi hget =>
    refine h.leave (fun _ => rfl) (by simp [Call.InFlight]) (fun out hout => ?_) (by simp [hi])
    rw [Call.done.injEq] at hout
    rw [hget, hout]
  | miss hi hget => exact h.miss hi hget (hexcl hget)
  | inner out hi => exact h.inner hi hback
  | panic hi => exact h.leave (fun _ => rfl) (by simp [Call.InFlight]) (by simp) (by simp [hi])
  | put hi => exact h.put hi

/-- **An exclusive run is settled in every state it reaches.** -/
theorem settled_of_run {s₀ : Calls ι κ ν} (h₀ : ∀ i, s₀.calls i = .idle)
    (hrun : ((machine ι κ ν req).guarded fun s e => Exclusive req s e ∧ ReadsBack κ e).Run s₀
      events s) :
    Settled req events s := by
  have hinit : Settled req [] s₀ := by
    refine ⟨fun a b _ ha => ?_, fun a ha => ?_, fun a out ha => ?_, fun a out ha => ?_,
      fun r => Nat.zero_le _, fun r _ _ => rfl⟩
    · rw [h₀ a] at ha
      exact absurd ha (by simp [Call.InFlight])
    · rw [h₀ a] at ha
      exact absurd ha (by simp [Call.InFlight])
    · rw [h₀ a] at ha
      exact absurd ha (by simp)
    · rw [h₀ a] at ha
      exact absurd ha (by simp)
  exact hrun.historyInvariant (I := Settled req)
    (fun {_ _ _ _} h (hstep : _ ∧ _) => settled_step h hstep.1.1 hstep.1.2 hstep.2) hinit

/-- **Concurrent callers agree on one answer** in every state that is reached without a call missing
a slot another call is working on, and with outputs that are read back as they were. -/
theorem agrees_of_exclusive_run {s₀ : Calls ι κ ν} (h₀ : (machine ι κ ν req).init s₀)
    (hrun : ((machine ι κ ν req).guarded fun s e => Exclusive req s e ∧ ReadsBack κ e).Run s₀
      events s) :
    Agrees req events s :=
  (settled_of_run h₀ hrun).agrees

end Steps

/-! ### Two calls for one message -/

/-- What a model may answer for a message. -/
def answer (intent : Intent) : Projection := ⟨⟨"m-1"⟩, intent, [], [], .new 1⟩

/-- The request of a cached projection of the message. -/
def messageRequest : CacheRequest :=
  ⟨"mirrorlane.projection.llm", ⟨"ollama:qwen2.5:3b-instruct:v2:0123456789abcdef"⟩,
    "fedcba9876543210"⟩

/-- The second call starts after the first one put, and hits. -/
theorem agrees_second_call_hits :
    ∃ s : Calls (Fin 2) (InMemoryCache Projection) Projection,
      s.calls 1 = .done (answer .task) ∧
      Agrees (fun _ => messageRequest) [.get 0, .inner 0 (answer .task), .put 0, .get 1] s := by
  have hidle : ∀ {i : Fin 2} {s : Calls (Fin 2) (InMemoryCache Projection) Projection},
      Cache.get s.cache messageRequest = none → (∀ j, ¬(s.calls j).InFlight) →
      Exclusive (fun _ => messageRequest) s (.get i) := fun {_ _} _ h _ j _ => h j
  have hrun : ∃ s, ((machine (Fin 2) (InMemoryCache Projection) Projection
      fun _ => messageRequest).guarded fun s e => Exclusive (fun _ => messageRequest) s e ∧
        ReadsBack (InMemoryCache Projection) e).Run
      ⟨.new, fun _ => .idle⟩ [.get 0, .inner 0 (answer .task), .put 0, .get 1] s ∧
      s.calls 1 = .done (answer .task) :=
    ⟨_, .cons ⟨⟨hidle rfl fun _ h => h, trivial⟩, .miss rfl rfl⟩ <|
      .cons ⟨⟨trivial, rfl⟩, .inner _ rfl⟩ <| .cons ⟨⟨trivial, trivial⟩, .put rfl⟩ <|
      .cons ⟨⟨fun h => absurd h (by simp [Cache.get, Cache.put]), trivial⟩, .hit rfl rfl⟩ <|
      .nil _, rfl⟩
  obtain ⟨s, hrun, hdone⟩ := hrun
  exact ⟨s, hdone, agrees_of_exclusive_run (fun _ => rfl) hrun⟩

/-- Two overlapping misses: both inner steps complete, the calls return different projections, and a
later get returns the second one only. -/
theorem calls_disagree :
    ∃ s : Calls (Fin 2) (InMemoryCache Projection) Projection,
      (machine (Fin 2) (InMemoryCache Projection) Projection fun _ => messageRequest).Run
        ⟨.new, fun _ => .idle⟩ [.get 0, .get 1, .inner 0 (answer .task), .inner 1 (answer .issue),
          .put 0, .put 1] s ∧
      s.calls 0 = .done (answer .task) ∧ s.calls 1 = .done (answer .issue) ∧
      ¬Agrees (fun _ => messageRequest) [.get 0, .get 1, .inner 0 (answer .task),
        .inner 1 (answer .issue), .put 0, .put 1] s := by
  refine ⟨_, .cons (.miss rfl rfl) <| .cons (.miss rfl rfl) <| .cons (.inner _ rfl) <|
    .cons (.inner _ rfl) <| .cons (.put rfl) <| .cons (.put rfl) <| .nil _, rfl, rfl, fun h => ?_⟩
  have houtput := h.same_output 0 1 (answer .task) (answer .issue) rfl rfl rfl
  have hintent := congrArg Projection.intent houtput
  exact absurd hintent (by decide)

end Calls

end Mirrorlane
