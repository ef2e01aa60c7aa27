import Mathlib.Data.List.Basic

/-!
# Programs on a state that outlives them

A program reads and writes a state and ends with a value or an error; what it has written stays in
both cases.  `exec` runs a program, and `serve` runs programs one after another: an error ends one
of them, and the next one starts from what it left.

`Simulates` compares two levels of one design: related states give the same answer and are related
afterwards.  `Simulates.serve` is the rule for whole histories, and `EndsIn.bind` the rule for the
statements of one program.
-/

namespace Mirrorlane

/-! ### One program -/

section Exec

variable {ε σ α β : Type}

/-- How a program ends, and the state it leaves. -/
def exec (x : EStateM ε σ α) (s : σ) : Except ε α × σ :=
  match x s with
  | .ok a s' => (.ok a, s')
  | .error e s' => (.error e, s')

@[simp] theorem exec_pure (a : α) (s : σ) : exec (pure a : EStateM ε σ α) s = (.ok a, s) := rfl

@[simp] theorem exec_throw (e : ε) (s : σ) :
    exec (throw e : EStateM ε σ α) s = (.error e, s) := rfl

/-- The rest of a program starts where its beginning ends. -/
theorem exec_bind (x : EStateM ε σ α) (f : α → EStateM ε σ β) (s : σ) :
    exec (x >>= f) s =
      match exec x s with
      | (.ok a, s') => exec (f a) s'
      | (.error e, s') => (.error e, s') := by
  show exec (EStateM.bind x f) s = _
  unfold exec EStateM.bind
  cases x s <;> rfl

/-- Run a program and go on, however it ends. -/
def attempt (x : EStateM ε σ α) : EStateM ε σ (Except ε α) := fun s =>
  match x s with
  | .ok a s' => .ok (.ok a) s'
  | .error e s' => .ok (.error e) s'

theorem exec_attempt (x : EStateM ε σ α) (s : σ) :
    exec (attempt x) s = (.ok (exec x s).1, (exec x s).2) := by
  unfold exec attempt
  cases x s <;> rfl

/-- The program ends with `r`, in a state of which `P` holds. -/
def EndsIn (x : EStateM ε σ α) (s : σ) (r : Except ε α) (P : σ → Prop) : Prop :=
  ∃ s', exec x s = (r, s') ∧ P s'

variable {x : EStateM ε σ α} {f : α → EStateM ε σ β} {s : σ} {P Q : σ → Prop}

theorem EndsIn.pure (a : α) (h : P s) : EndsIn (pure a : EStateM ε σ α) s (.ok a) P :=
  ⟨s, rfl, h⟩

theorem EndsIn.throw (e : ε) (h : P s) : EndsIn (throw e : EStateM ε σ α) s (.error e) P :=
  ⟨s, rfl, h⟩

/-- **The rule for sequences.** -/
theorem EndsIn.bind {a : α} {r : Except ε β} (h : EndsIn x s (.ok a) P)
    (hrest : ∀ s', P s' → EndsIn (f a) s' r Q) : EndsIn (x >>= f) s r Q := by
  obtain ⟨s', hexec, hP⟩ := h
  obtain ⟨s'', hexec', hQ⟩ := hrest s' hP
  refine ⟨s'', ?_, hQ⟩
  rw [exec_bind, hexec]
  exact hexec'

/-- An error ends a sequence. -/
theorem EndsIn.bind_error {e : ε} (h : EndsIn x s (.error e) P) :
    EndsIn (x >>= f) s (.error e) P := by
  obtain ⟨s', hexec, hP⟩ := h
  refine ⟨s', ?_, hP⟩
  rw [exec_bind, hexec]

theorem EndsIn.attempt {r : Except ε α} (h : EndsIn x s r P) :
    EndsIn (attempt x) s (.ok r) P := by
  obtain ⟨s', hexec, hP⟩ := h
  refine ⟨s', ?_, hP⟩
  rw [exec_attempt, hexec]

end Exec

/-! ### Histories -/

section Serve

variable {σ ω ι ρ : Type}

/-- Answer some requests, one after another. -/
def serve (step : ι → σ → ρ × σ) : List ι → σ → List ρ × σ
  | [], s => ([], s)
  | request :: requests, s =>
    let answer := step request s
    let rest := serve step requests answer.2
    (answer.1 :: rest.1, rest.2)

@[simp] theorem serve_nil (step : ι → σ → ρ × σ) (s : σ) : serve step [] s = ([], s) := rfl

theorem serve_cons (step : ι → σ → ρ × σ) (request : ι) (requests : List ι) (s : σ) :
    serve step (request :: requests) s =
      ((step request s).1 :: (serve step requests (step request s).2).1,
        (serve step requests (step request s).2).2) := rfl

/-- What requests leave, the further ones start from. -/
theorem serve_append_snd (step : ι → σ → ρ × σ) (requests requests' : List ι) (s : σ) :
    (serve step (requests ++ requests') s).2 =
      (serve step requests' (serve step requests s).2).2 := by
  induction requests generalizing s with
  | nil => rfl
  | cons request requests ih =>
    rw [List.cons_append, serve_cons, serve_cons]
    exact ih _

/-- On related states the two levels answer alike, and their states are related afterwards. -/
def Simulates (R : σ → ω → Prop) (step : ι → σ → ρ × σ) (step' : ι → ω → ρ × ω) : Prop :=
  ∀ request s w, R s w →
    (step request s).1 = (step' request w).1 ∧ R (step request s).2 (step' request w).2

/-- **The rule for histories.** -/
theorem Simulates.serve {R : σ → ω → Prop} {step : ι → σ → ρ × σ} {step' : ι → ω → ρ × ω}
    (h : Simulates R step step') (requests : List ι) {s : σ} {w : ω} (hR : R s w) :
    (serve step requests s).1 = (serve step' requests w).1 ∧
      R (serve step requests s).2 (serve step' requests w).2 := by
  induction requests generalizing s w with
  | nil => exact ⟨rfl, hR⟩
  | cons request requests ih =>
    obtain ⟨hanswer, hnext⟩ := h request s w hR
    obtain ⟨hanswers, hlast⟩ := ih hnext
    rw [serve_cons, serve_cons]
    refine ⟨?_, hlast⟩
    rw [hanswer, hanswers]

/-- **The rule for states of one form**: a step keeps the form, so a history does. -/
theorem serve_of_form {γ : Type} {step : ι → σ → ρ × σ} {form : γ → σ} {next : γ → ι → γ}
    (h : ∀ request c, (step request (form c)).2 = form (next c request)) (requests : List ι)
    (c : γ) : (serve step requests (form c)).2 = form (requests.foldl next c) := by
  induction requests generalizing c with
  | nil => rfl
  | cons request requests ih =>
    rw [serve_cons, List.foldl_cons, h]
    exact ih _

end Serve

end Mirrorlane
