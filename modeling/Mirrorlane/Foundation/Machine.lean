import Mathlib.Logic.Basic
import Mathlib.Data.List.Basic

/-!
# Labelled transition systems

`Machine σ ε` is a set of initial states and a step relation labelled by events.  `Run s es t`
says the events `es` lead from `s` to `t`; `Reachable s` that some run from an initial state ends
in `s`.  Every invariant argument goes through `Run.invariant` (what one step preserves, a run
preserves) and `Reachable.invariant` (what also holds initially, holds of every reachable state).

`guarded C` restricts a machine to the steps that meet a condition on the state *before* the step,
so that "in every run whose steps all meet `C`" is a statement about the runs of `M.guarded C`.
`checked Q` restricts it to the steps whose outcome meets `Q`; a condition that decides the outcome
of every step decides it for whole runs (`Run.guarded_iff_checked`).
-/

namespace Mirrorlane

/-- A labelled transition system over states `σ` and events `ε`. -/
structure Machine (σ : Type*) (ε : Type*) where
  /-- The states a run may start in. -/
  init : σ → Prop
  /-- `step s e t`: in state `s` the event `e` may lead to `t`. -/
  step : σ → ε → σ → Prop

namespace Machine

variable {σ ε : Type*} {M : Machine σ ε}

/-- `M.Run s es t`: the events `es`, in order, lead from `s` to `t`. -/
inductive Run (M : Machine σ ε) : σ → List ε → σ → Prop
  | nil (s : σ) : Run M s [] s
  | cons {s t u : σ} {e : ε} {es : List ε} : M.step s e t → Run M t es u → Run M s (e :: es) u

/-- The states a run from some initial state ends in. -/
def Reachable (M : Machine σ ε) (s : σ) : Prop :=
  ∃ s₀ es, M.init s₀ ∧ M.Run s₀ es s

/-! ### Composing and splitting runs -/

theorem Run.append {s t u : σ} {es es' : List ε} (h : M.Run s es t) (h' : M.Run t es' u) :
    M.Run s (es ++ es') u := by
  induction h with
  | nil => exact h'
  | cons hst _ ih => exact .cons hst (ih h')

/-- A run over two lists of events stops in between. -/
theorem Run.exists_of_append {s u : σ} {es es' : List ε} (h : M.Run s (es ++ es') u) :
    ∃ t, M.Run s es t ∧ M.Run t es' u := by
  induction es generalizing s with
  | nil => exact ⟨s, .nil s, h⟩
  | cons e es ih =>
    cases h with
    | cons hst hrun =>
      obtain ⟨t, hfirst, hrest⟩ := ih hrun
      exact ⟨t, .cons hst hfirst, hrest⟩

/-- The run of a machine whose events determine the next state. -/
theorem Run.of_foldl {next : σ → ε → σ} (hstep : ∀ s e, M.step s e (next s e)) (s : σ)
    (es : List ε) : M.Run s es (es.foldl next s) := by
  induction es generalizing s with
  | nil => exact .nil s
  | cons e es ih => exact .cons (hstep s e) (ih _)

/-- A run that is computed step by step. -/
theorem Run.of_foldlM {next : σ → ε → Option σ}
    (hstep : ∀ {s e t}, next s e = some t → M.step s e t) {s t : σ} {es : List ε}
    (h : es.foldlM next s = some t) : M.Run s es t := by
  induction es generalizing s with
  | nil =>
    have hst : s = t := Option.some.inj h
    exact hst ▸ .nil s
  | cons e es ih =>
    rw [List.foldlM_cons] at h
    obtain ⟨u, hnext, hrest⟩ := Option.bind_eq_some_iff.mp h
    exact .cons (hstep hnext) (ih hrest)

/-! ### Invariants -/

/-- **The run rule.** What every step preserves, every run preserves. -/
theorem Run.invariant {I : σ → Prop} (hstep : ∀ {s e t}, I s → M.step s e t → I t)
    {s t : σ} {es : List ε} (h : M.Run s es t) (hs : I s) : I t := by
  induction h with
  | nil => exact hs
  | cons hst _ ih => exact ih (hstep hs hst)

/-- **The run rule with a history.** An invariant that also speaks of the events so far: each step
extends the history by its event. -/
theorem Run.historyInvariant {I : List ε → σ → Prop}
    (hstep : ∀ {hist s e t}, I hist s → M.step s e t → I (hist ++ [e]) t)
    {s t : σ} {es : List ε} (h : M.Run s es t) :
    ∀ {hist : List ε}, I hist s → I (hist ++ es) t := by
  induction h with
  | nil => intro hist hs; simpa using hs
  | cons hst _ ih =>
    intro hist hs
    simpa using ih (hstep hs hst)

/-- **The reachability rule.** -/
theorem Reachable.invariant {I : σ → Prop} (hinit : ∀ {s}, M.init s → I s)
    (hstep : ∀ {s e t}, I s → M.step s e t → I t) {s : σ} (h : M.Reachable s) : I s := by
  obtain ⟨s₀, es, h₀, hrun⟩ := h
  exact hrun.invariant hstep (hinit h₀)

/-! ### Conditions on steps -/

/-- `M` restricted to the steps whose source state and event meet `C`. -/
def guarded (M : Machine σ ε) (C : σ → ε → Prop) : Machine σ ε where
  init := M.init
  step s e t := C s e ∧ M.step s e t

@[simp] theorem guarded_init (C : σ → ε → Prop) (s : σ) : (M.guarded C).init s ↔ M.init s :=
  Iff.rfl

@[simp] theorem guarded_step (C : σ → ε → Prop) (s t : σ) (e : ε) :
    (M.guarded C).step s e t ↔ C s e ∧ M.step s e t :=
  Iff.rfl

/-- A run that meets the condition is a run. -/
theorem Run.of_guarded {C : σ → ε → Prop} {s t : σ} {es : List ε} (h : (M.guarded C).Run s es t) :
    M.Run s es t := by
  induction h with
  | nil => exact .nil _
  | cons hst _ ih => exact .cons hst.2 ih

/-- A run meets the condition when it ends in `P`, no step leads into `P` from outside it, and each
step into `P` meets the condition. -/
theorem Run.guarded_of_backward {C : σ → ε → Prop} {I P : σ → Prop}
    (hstep : ∀ {s e t}, I s → M.step s e t → I t)
    (hback : ∀ {s e t}, I s → M.step s e t → P t → C s e ∧ P s) {s t : σ} {es : List ε}
    (h : M.Run s es t) (hs : I s) (ht : P t) : (M.guarded C).Run s es t ∧ P s := by
  induction h with
  | nil => exact ⟨.nil _, ht⟩
  | cons hst _ ih =>
    obtain ⟨hrun, hmid⟩ := ih (hstep hs hst) ht
    obtain ⟨hcond, hpre⟩ := hback hs hst hmid
    exact ⟨.cons ⟨hcond, hst⟩ hrun, hpre⟩

/-- A run whose events all meet a condition. -/
theorem Run.guarded_of_forall {C : ε → Prop} {s t : σ} {es : List ε} (h : M.Run s es t)
    (hes : ∀ e ∈ es, C e) : (M.guarded fun _ e => C e).Run s es t := by
  induction h with
  | nil => exact .nil _
  | @cons s t u e es hst hrun ih =>
    refine .cons ⟨hes e List.mem_cons_self, hst⟩ (ih fun e' he' => ?_)
    exact hes e' (List.mem_cons_of_mem _ he')

/-! ### Checks on outcomes -/

/-- `M` restricted to the steps whose event and target state meet `Q`. -/
def checked (M : Machine σ ε) (Q : ε → σ → Prop) : Machine σ ε where
  init := M.init
  step s e t := M.step s e t ∧ Q e t

/-- **The condition rule.** Where the condition on each step decides its outcome, the runs that meet
the condition throughout are the runs whose outcomes are all as they should be. -/
theorem Run.guarded_iff_checked {C Q : _ → _ → Prop} {I : σ → Prop}
    (hiff : ∀ {s e t}, I s → M.step s e t → (C s e ↔ Q e t))
    (hstep : ∀ {s e t}, I s → M.step s e t → C s e → I t) {s t : σ} {es : List ε} (hs : I s) :
    (M.guarded C).Run s es t ↔ (M.checked Q).Run s es t := by
  constructor
  · intro h
    induction h with
    | nil => exact .nil _
    | cons hst _ ih =>
      have hnext := hstep hs hst.2 hst.1
      exact .cons ⟨hst.2, (hiff hs hst.2).mp hst.1⟩ (ih hnext)
  · intro h
    induction h with
    | nil => exact .nil _
    | cons hst _ ih =>
      have hcond := (hiff hs hst.1).mpr hst.2
      exact .cons ⟨hcond, hst.1⟩ (ih (hstep hs hst.1 hcond))

end Machine

end Mirrorlane
