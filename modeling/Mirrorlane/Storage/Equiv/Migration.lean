import Mirrorlane.Storage.Migration

/-!
# A migration is crash-consistent

The header version always tells how many steps the file has been through: `Applied j` says the file
is the first `j` steps applied to the base state, under version `j`.  While a call runs, the version
is the larger of the one it read and the step it stands at, and what is left of an open transaction
does to the working copy what the whole batch does to the file (`CallOk`).

## Main results

* `trace_of_run`: every run commits the next steps, each once and in order
* `migrate_crash_consistent`
-/

namespace Mirrorlane

open Versioned

variable {σ : Type} [Versioned σ]

/-! ### Steps do not see the version -/

theorem stepEffect_setUserVersion (step : List (Statement σ)) (n : ℕ) (file : σ) :
    stepEffect step (setUserVersion n file) = (stepEffect step file).map (setUserVersion n) := by
  unfold stepEffect
  induction step generalizing file with
  | nil => rfl
  | cons statement step ih =>
    rw [List.foldlM_cons, List.foldlM_cons, statement.run_setUserVersion]
    cases statement.run file with
    | none => rfl
    | some file' => exact ih file'

/-- The file is the first `j` steps applied to `base`, under the header version `j`. -/
def Applied (steps : List (List (Statement σ))) (base : σ) (j : ℕ) (file : σ) : Prop :=
  j ≤ steps.length ∧ (stepsEffect (steps.take j) base).map (setUserVersion j) = some file

theorem Applied.userVersion_eq {steps : List (List (Statement σ))} {base file : σ} {j : ℕ}
    (h : Applied steps base j file) : userVersion file = j := by
  obtain ⟨applied, -, rfl⟩ := Option.map_eq_some_iff.mp h.2
  exact userVersion_setUserVersion j applied

/-- A batch that succeeds takes the file one step further. -/
theorem Applied.succ {steps : List (List (Statement σ))} {base file file' : σ} {j : ℕ}
    {step : List (Statement σ)} (h : Applied steps base j file) (hstep : steps[j]? = some step)
    (hbatch : executeBatch (stepBatch step (j + 1)) file = some file') :
    Applied steps base (j + 1) file' := by
  obtain ⟨applied, happlied, rfl⟩ := Option.map_eq_some_iff.mp h.2
  have hlt : j < steps.length := (List.getElem?_eq_some_iff.mp hstep).1
  -- the first `j + 1` steps are the first `j` and this one
  have htake : stepsEffect (steps.take (j + 1)) base = stepEffect step applied := by
    have hsnoc : steps.take (j + 1) = steps.take j ++ [step] := by
      rw [List.take_add_one, hstep]
      rfl
    unfold stepsEffect at happlied ⊢
    rw [hsnoc, List.foldlM_append, happlied]
    show (stepEffect step applied).bind some = stepEffect step applied
    exact Option.bind_fun_some _
  refine ⟨hlt, ?_⟩
  rw [executeBatch_stepBatch, stepEffect_setUserVersion] at hbatch
  rw [htake, ← hbatch]
  cases stepEffect step applied with
  | none => rfl
  | some file₁ => exact congrArg some (setUserVersion_setUserVersion j (j + 1) file₁).symm

namespace Migration

/-! ### The invariant -/

/-- The step an event commits. -/
def committed : MigrationEvent → Option ℕ
  | .commit next => some next
  | .readVersion | .skip | .begin | .statement | .fail | .interrupt | .finish => none

/-- The steps a run commits, in order. -/
def commits (events : List MigrationEvent) : List ℕ := events.filterMap committed

theorem commits_concat (events : List MigrationEvent) (event : MigrationEvent) :
    commits (events ++ [event]) = commits events ++ (committed event).toList := by
  unfold commits
  rw [List.filterMap_append, List.filterMap_cons]
  cases committed event <;> rfl

/-- Where a call stands when `j` steps are committed. -/
structure CallOk (steps : List (List (Statement σ))) (j : ℕ) (file : σ)
    (call : MigrationCall σ) : Prop where
  le : call.next ≤ steps.length
  eq_max : j = max call.current call.next
  transaction : ∀ tx, call.transaction = some tx → call.current ≤ call.next ∧
    ∃ step, steps[call.next]? = some step ∧
      executeBatch tx.remaining tx.working = executeBatch (stepBatch step (call.next + 1)) file

/-- What holds after the events `hist` of a run that began at version `k`. -/
structure Trace (steps : List (List (Statement σ))) (base : σ) (k j : ℕ)
    (hist : List MigrationEvent) (s : Migration σ) : Prop where
  le : k ≤ j
  applied : Applied steps base j s.file
  commits_eq : commits hist = List.range' k (j - k)
  call : ∀ call, s.call = some call → CallOk steps j s.file call
  finished : .finish ∈ hist → j = steps.length

variable {steps : List (List (Statement σ))} {base : σ} {k j : ℕ}

/-- An event that commits nothing and does not end the call with `Ok`. -/
theorem Trace.concat {hist : List MigrationEvent} {event : MigrationEvent} {file : σ}
    {call call' : Option (MigrationCall σ)} (h : Trace steps base k j hist ⟨file, call⟩)
    (hcommit : committed event = none) (hfinish : event ≠ .finish)
    (hcall : ∀ c, call' = some c → CallOk steps j file c) :
    Trace steps base k j (hist ++ [event]) ⟨file, call'⟩ where
  le := h.le
  applied := h.applied
  commits_eq := by
    rw [commits_concat, hcommit, Option.toList_none, List.append_nil]
    exact h.commits_eq
  call := hcall
  finished hmem := by
    rcases List.mem_append.mp hmem with hmem | hmem
    · exact h.finished hmem
    · exact absurd (List.mem_singleton.mp hmem).symm hfinish

theorem trace_step {hist : List MigrationEvent} {s t : Migration σ} {event : MigrationEvent}
    (h : ∃ j, Trace steps base k j hist s) (hstep : (machine steps).step s event t) :
    ∃ j, Trace steps base k j (hist ++ [event]) t := by
  obtain ⟨j, h⟩ := h
  cases hstep with
  | readVersion =>
    refine ⟨j, h.concat rfl (by simp) fun c hc => ?_⟩
    obtain rfl := Option.some.inj hc
    exact ⟨Nat.zero_le _, by simp [h.applied.userVersion_eq], by simp⟩
  | @skip file current next hnext hskip =>
    have hmax : j = max current next := (h.call _ rfl).eq_max
    refine ⟨j, h.concat rfl (by simp) fun c hc => ?_⟩
    obtain rfl := Option.some.inj hc
    have hmax' : j = max current (next + 1) := by omega
    exact ⟨hnext, hmax', by simp⟩
  | begin hget hskip =>
    have hc := h.call _ rfl
    refine ⟨j, h.concat rfl (by simp) fun c hc' => ?_⟩
    obtain rfl := Option.some.inj hc'
    refine ⟨hc.le, hc.eq_max, fun tx htx => ?_⟩
    obtain rfl := Option.some.inj htx
    exact ⟨not_lt.mp hskip, _, hget, rfl⟩
  | statement hrun =>
    have hc := h.call _ rfl
    obtain ⟨hle, step, hget, hbatch⟩ := hc.transaction _ rfl
    refine ⟨j, h.concat rfl (by simp) fun c hc' => ?_⟩
    obtain rfl := Option.some.inj hc'
    refine ⟨hc.le, hc.eq_max, fun tx htx => ⟨hle, step, hget, ?_⟩⟩
    obtain rfl := Option.some.inj htx
    -- the statement that ran is the first one of what was left
    rw [← hbatch]
    unfold executeBatch
    rw [List.foldlM_cons, hrun]
    rfl
  | @commit file working current next =>
    have hmax : j = max current next := (h.call _ rfl).eq_max
    obtain ⟨hle, step, hget, hbatch⟩ := (h.call _ rfl).transaction _ rfl
    have hle' : current ≤ next := hle
    have hj : j = next := by omega
    subst hj
    have hlt : j < steps.length := (List.getElem?_eq_some_iff.mp hget).1
    have hkj : k ≤ j := h.le
    refine ⟨j + 1, by omega, h.applied.succ hget hbatch.symm, ?_, fun c hc => ?_, fun hmem => ?_⟩
    · have hsub : j + 1 - k = j - k + 1 := by omega
      have hadd : k + (j - k) = j := by omega
      rw [commits_concat, h.commits_eq, hsub, List.range'_1_concat, hadd]
      rfl
    · obtain rfl := Option.some.inj hc
      have hmax' : j + 1 = max current (j + 1) := by omega
      exact ⟨hlt, hmax', by simp⟩
    · -- a finished run has no step left to commit
      have hfinished : .finish ∈ hist := by simpa using hmem
      have hall : j = steps.length := h.finished hfinished
      omega
  | fail => exact ⟨j, h.concat rfl (by simp) (by simp)⟩
  | interrupt => exact ⟨j, h.concat rfl (by simp) (by simp)⟩
  | @finish file current next hdone =>
    have hmax : j = max current next := (h.call _ rfl).eq_max
    have hle : j ≤ steps.length := h.applied.1
    refine ⟨j, h.le, h.applied, ?_, by simp, fun _ => by omega⟩
    rw [commits_concat, h.commits_eq]
    exact List.append_nil _

/-- **Every run commits the next steps, each once and in order.** -/
theorem trace_of_run {s t : Migration σ} {es : List MigrationEvent} (hcall : s.call = none)
    (happlied : Applied steps base k s.file) (hrun : (machine steps).Run s es t) :
    ∃ j, Trace steps base k j es t := by
  have hstart : ∃ j, Trace steps base k j [] s :=
    ⟨k, le_rfl, happlied, by simp [commits], by simp [hcall], by simp⟩
  simpa using hrun.historyInvariant
    (I := fun hist s => ∃ j, Trace steps base k j hist s) trace_step hstart

/-- A call that read a version at or past the last step begins no transaction. -/
theorem file_eq_of_run {s t : Migration σ} {es : List MigrationEvent} (hcall : s.call = none)
    (hversion : steps.length ≤ userVersion s.file) (hrun : (machine steps).Run s es t) :
    t.file = s.file := by
  have hinv : t.file = s.file ∧ ∀ c, t.call = some c →
      steps.length ≤ c.current ∧ c.transaction = none := by
    refine hrun.invariant (I := fun t => t.file = s.file ∧ ∀ c, t.call = some c →
      steps.length ≤ c.current ∧ c.transaction = none) (fun {u e v} hu hstep => ?_)
      ⟨rfl, by simp [hcall]⟩
    obtain ⟨hfile, hc⟩ := hu
    cases hstep with
    | @readVersion file =>
      refine ⟨hfile, fun c hc' => ?_⟩
      obtain rfl := Option.some.inj hc'
      have hle : steps.length ≤ userVersion file := by
        rw [show file = s.file from hfile]
        exact hversion
      exact ⟨hle, rfl⟩
    | skip hnext hskip =>
      refine ⟨hfile, fun c hc' => ?_⟩
      obtain rfl := Option.some.inj hc'
      exact ⟨(hc _ rfl).1, rfl⟩
    | @begin file current next step hget hskip =>
      have hlt : next < steps.length := (List.getElem?_eq_some_iff.mp hget).1
      have hle : steps.length ≤ current := (hc _ rfl).1
      omega
    | statement => exact absurd (hc _ rfl).2 (Option.some_ne_none _)
    | commit => exact absurd (hc _ rfl).2 (Option.some_ne_none _)
    | fail => exact ⟨hfile, by simp⟩
    | interrupt => exact ⟨hfile, by simp⟩
    | finish => exact ⟨hfile, by simp⟩
  exact hinv.1

/-- **Schema migration is crash-consistent.** From a file with the first `k` steps applied, whatever
the opens do and wherever they fail or stop: at every moment the file is the first `i` steps applied
to the base state, with its version saying `i`; `i` never goes back, the steps committed so far are
exactly those from `k` to `i`, each once and in order, and once an open has returned `Ok` there is
no step left.  A file at or past the last step is never written. -/
theorem migrate_crash_consistent (steps : List (List (Statement σ))) :
    (∀ (base : σ) (k : ℕ) (s u t : Migration σ) (pre post : List MigrationEvent),
      s.call = none → Applied steps base k s.file →
      (machine steps).Run s pre u → (machine steps).Run u post t →
      ∃ i j, k ≤ i ∧ i ≤ j ∧ Applied steps base i u.file ∧ Applied steps base j t.file ∧
        commits pre = List.range' k (i - k) ∧ commits (pre ++ post) = List.range' k (j - k) ∧
        (.finish ∈ pre → i = steps.length)) ∧
    ∀ (s t : Migration σ) (es : List MigrationEvent), s.call = none →
      steps.length ≤ userVersion s.file → (machine steps).Run s es t → t.file = s.file := by
  refine ⟨fun base k s u t pre post hcall happlied hpre hpost => ?_,
    fun s t es hcall hversion hrun => file_eq_of_run hcall hversion hrun⟩
  obtain ⟨i, hi⟩ := trace_of_run hcall happlied hpre
  obtain ⟨j, hj⟩ := trace_of_run hcall happlied (hpre.append hpost)
  -- the steps committed by `pre` are a prefix of all that are committed
  have hlen : i - k ≤ j - k := by
    have hprefix : (commits pre).length ≤ (commits (pre ++ post)).length := by
      unfold commits
      rw [List.filterMap_append, List.length_append]
      omega
    rwa [hi.commits_eq, hj.commits_eq, List.length_range', List.length_range'] at hprefix
  have hki : k ≤ i := hi.le
  have hkj : k ≤ j := hj.le
  have hij : i ≤ j := by omega
  exact ⟨i, j, hki, hij, hi.applied, hj.applied, hi.commits_eq, hj.commits_eq, hi.finished⟩

/-- A new message log, crashed in the middle of its rebuild and then opened again. -/
theorem migrate_crash_consistent_messages :
    let steps := SqliteMessageStore.statements .insertionSort String
    let new : Database String := Database.empty
    let crashed : Database String := { new with userVersion := 1, messages := some (.create false) }
    Applied steps new 1 crashed ∧
      Applied steps new 2 (SqliteMessageStore.init .insertionSort crashed).1 := by
  intro steps new crashed
  -- v1 is committed, and the connection goes away after the rebuild but before its commit
  have hpre : (machine steps).Run ⟨new, none⟩
      [.readVersion, .begin, .statement, .statement, .commit 0, .begin, .statement, .interrupt]
      ⟨crashed, none⟩ :=
    .cons .readVersion (.cons (.begin rfl (by decide)) (.cons (.statement rfl)
      (.cons (.statement rfl) (.cons .commit (.cons (.begin rfl (by decide))
        (.cons (.statement rfl) (.cons .interrupt (.nil _))))))))
  obtain ⟨es, -, hpost⟩ := SqliteMessageStore.run_of_init .insertionSort crashed
  obtain ⟨i, j, -, -, hi, hj, hcommits, -, -⟩ := (migrate_crash_consistent steps).1 new 0
    _ _ _ _ _ rfl ⟨Nat.zero_le _, rfl⟩ hpre hpost
  have hi' : i = 1 := hi.userVersion_eq.symm
  have hj' : j = 2 := hj.userVersion_eq.symm
  subst hi' hj'
  exact ⟨hi, hj⟩

end Migration

end Mirrorlane
