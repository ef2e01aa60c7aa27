import Mathlib.Data.List.Dedup
import Mathlib.Data.List.Perm.Basic

/-!
# Executing payloads under at-least-once delivery

A worker executes `act s p` for each delivered payload `p`.  `Delivers payloads deliveries` says the
deliveries contain every payload at least once and nothing else: any order, any number of
redeliveries.

When, on the payloads of the stage, executing twice is executing once and two executions commute,
every such delivery sequence ends in the same state (`foldl_eq_of_delivers`).
-/

namespace Mirrorlane

variable {σ π : Type*}

/-- `deliveries` executes every payload at least once, in any order, and nothing else. -/
def Delivers (payloads deliveries : List π) : Prop :=
  ∀ p, p ∈ deliveries ↔ p ∈ payloads

theorem Delivers.refl (payloads : List π) : Delivers payloads payloads := fun _ => Iff.rfl

/-- Every payload twice, the first time in the opposite order. -/
theorem Delivers.reverse_append (payloads : List π) :
    Delivers payloads (payloads.reverse ++ payloads) := by
  intro p
  rw [List.mem_append, List.mem_reverse, or_self]

/-- A stage's executions are idempotent and commute on the payloads `S`. -/
structure Redeliverable (act : σ → π → σ) (S : List π) : Prop where
  /-- Executing a payload again changes nothing. -/
  idem : ∀ p ∈ S, ∀ s, act (act s p) p = act s p
  /-- Two executions can be exchanged. -/
  comm : ∀ p ∈ S, ∀ q ∈ S, ∀ s, act (act s p) q = act (act s q) p

namespace Redeliverable

variable {act : σ → π → σ} {S : List π}

theorem mono (h : Redeliverable act S) {T : List π} (hT : ∀ p ∈ T, p ∈ S) :
    Redeliverable act T where
  idem p hp s := h.idem p (hT p hp) s
  comm p hp q hq s := h.comm p (hT p hp) q (hT q hq) s

/-- A payload that is executed later may be executed once more before. -/
theorem foldl_absorb (h : Redeliverable act S) {p : π} (hp : p ∈ S) (s : σ) :
    S.foldl act (act s p) = S.foldl act s := by
  suffices key : ∀ (T : List π), (∀ q ∈ T, q ∈ S) → p ∈ T → ∀ s,
      T.foldl act (act s p) = T.foldl act s from key S (fun _ hq => hq) hp s
  intro T
  -- move the early execution of `p` along `T` until it meets the later one
  induction T with
  | nil => intro _ hpT; simp at hpT
  | cons q T ih =>
    intro hT hpT s
    have hq : q ∈ S := hT q List.mem_cons_self
    rcases List.mem_cons.mp hpT with rfl | hpT'
    · rw [List.foldl_cons, h.idem p hp, List.foldl_cons]
    · rw [List.foldl_cons, h.comm p hp q hq,
        ih (fun r hr => hT r (List.mem_cons_of_mem _ hr)) hpT', List.foldl_cons]

/-- Redeliveries do not matter: a sequence ends where its payloads, once each, end. -/
theorem foldl_dedup [DecidableEq π] (h : Redeliverable act S) (s : σ) :
    S.dedup.foldl act s = S.foldl act s := by
  induction S generalizing s with
  | nil => rfl
  | cons p S ih =>
    have hS : Redeliverable act S := h.mono fun q hq => List.mem_cons_of_mem _ hq
    by_cases hp : p ∈ S
    · rw [List.dedup_cons_of_mem hp, ih hS, List.foldl_cons, hS.foldl_absorb hp]
    · rw [List.dedup_cons_of_notMem hp, List.foldl_cons, ih hS, List.foldl_cons]

/-- Neither does the order. -/
theorem foldl_perm (h : Redeliverable act S) {T : List π} (hp : S.Perm T) (s : σ) :
    S.foldl act s = T.foldl act s :=
  hp.foldl_eq' (fun p hp' q hq' s => h.comm p hp' q hq' s) s

end Redeliverable

/-- **At-least-once confluence.** On idempotent, commuting executions every delivery sequence of a
stage ends in the state of executing each payload exactly once, in order. -/
theorem foldl_eq_of_delivers [DecidableEq π] {act : σ → π → σ} {payloads deliveries : List π}
    (h : Redeliverable act payloads) (hd : Delivers payloads deliveries) (s : σ) :
    deliveries.foldl act s = payloads.foldl act s := by
  have hd' : Redeliverable act deliveries := h.mono fun p hp => (hd p).mp hp
  have hperm : deliveries.dedup.Perm payloads.dedup := by
    rw [List.perm_ext_iff_of_nodup (List.nodup_dedup _) (List.nodup_dedup _)]
    intro p
    rw [List.mem_dedup, List.mem_dedup, hd p]
  have hdedup : Redeliverable act deliveries.dedup := hd'.mono fun p hp => List.mem_dedup.mp hp
  calc deliveries.foldl act s
      = deliveries.dedup.foldl act s := (hd'.foldl_dedup s).symm
    _ = payloads.dedup.foldl act s := hdedup.foldl_perm hperm s
    _ = payloads.foldl act s := h.foldl_dedup s

end Mirrorlane
