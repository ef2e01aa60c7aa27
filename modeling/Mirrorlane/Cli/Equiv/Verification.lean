import Mirrorlane.Cli.Commands
import Mirrorlane.Cli.Equiv.Healing
import Mirrorlane.Worker.Equiv.SinglePass

/-!
# What `verify` reports

`verify` lists the conversations its fresh run derived, not those of the log: a conversation whose
run left no warm-up has no record, whatever the durable cache holds for it (`verify_eq`).  It
detects every drift exactly when the run leaves a warm-up for every conversation of the log.

## Main results

* `verify_eq`
* `detectsDrift_iff`
* `verify_misses_dead_lettered`: a stored derivation that a fresh run no longer has
-/

namespace Mirrorlane

open DerivedOutputCache

/-- How what is stored compares with what a fresh run has, which may be nothing. -/
def driftOutcome (fresh : Option ConversationDerivation) :
    Option ConversationDerivation → VerifyOutcome
  | none => .notCached
  | some stored => if fresh = some stored then .verified else .diverged

theorem driftOutcome_some (fresh : ConversationDerivation)
    (stored : Option ConversationDerivation) :
    driftOutcome (some fresh) stored = verifyOutcome fresh stored := by
  cases stored with
  | none => rfl
  | some stored =>
    show (if some fresh = some stored then _ else _) = if stored = fresh then _ else _
    by_cases h : stored = fresh
    · rw [if_pos h, if_pos (congrArg some h.symm)]
    · rw [if_neg h, if_neg fun heq => h (Option.some.inj heq).symm]

section Verify

variable {κ : Type} [DerivedOutputCache κ] (digest : List UInt8 → String) (log : MessageLog)
  (strategy : ReplayStrategy) (durable : κ) (version : StepVersion)

/-- The record a conversation of the log should have. -/
def driftRecord (c : ConversationId) : VerifyRecord where
  conversation := c
  outcome := driftOutcome (derivationFor log (strategy log) c)
    (get durable version c (contentHashOf digest (log.messagesFor c)))

/-- `verify` finds every drift and changes nothing: one record for every conversation of the log, in
first-seen order, with the outcome that what is stored and what a fresh run derives call for. -/
structure DetectsDrift : Prop where
  records : (verifyCommand digest log strategy durable version none).2.records =
    log.conversationIds.map (driftRecord digest log strategy durable version)
  durable : (verifyCommand digest log strategy durable version none).1 = durable

theorem isSome_derivationFor (stores : ReplayStores) (c : ConversationId) :
    (derivationFor log stores c).isSome = (stores.warmups c).isSome :=
  Option.isSome_map

/-- **What `verify` reports**: a record for each conversation that the fresh run derived. -/
theorem verify_eq :
    verify digest log strategy durable version =
      (log.conversationIds.filter fun c => ((strategy log).warmups c).isSome).map
        (driftRecord digest log strategy durable version) := by
  have hrecords : ∀ cs : List ConversationId,
      (cs.filterMap (derivationFor log (strategy log))).map (fun fresh =>
        { conversation := fresh.conversation
          outcome := verifyOutcome fresh (get durable version fresh.conversation
            (contentHashOf digest (log.messagesFor fresh.conversation))) : VerifyRecord }) =
      (cs.filter fun c => ((strategy log).warmups c).isSome).map
        (driftRecord digest log strategy durable version) := by
    intro cs
    induction cs with
    | nil => rfl
    | cons c cs ih =>
      have hsome := isSome_derivationFor log (strategy log) c
      rw [List.filterMap_cons, List.filter_cons]
      cases hd : derivationFor log (strategy log) c with
      | none =>
        rw [hd, Option.isSome_none] at hsome
        rw [← hsome, if_neg Bool.false_ne_true]
        exact ih
      | some fresh =>
        rw [hd, Option.isSome_some] at hsome
        have hconversation := conversation_of_derivationFor log (strategy log) hd
        rw [← hsome, if_pos rfl, List.map_cons, List.map_cons, ih, hconversation,
          driftRecord, hd, driftOutcome_some]
  show ((populateCache digest log (strategy log) _ version).2.map _) = _
  rw [populateCache_snd, conversations_eq]
  exact hrecords log.conversationIds

/-- **When `verify` detects every drift.** Exactly when the run of the strategy leaves a warm-up
document for every conversation of the log. -/
theorem detectsDrift_iff :
    DetectsDrift digest log strategy durable version ↔
      ∀ c ∈ log.conversationIds, ((strategy log).warmups c).isSome := by
  have hrecords : (verifyCommand digest log strategy durable version none).2.records =
      (log.conversationIds.filter fun c => ((strategy log).warmups c).isSome).map
        (driftRecord digest log strategy durable version) :=
    verify_eq digest log strategy durable version
  constructor
  · intro h c hc
    have hlength := congrArg List.length (hrecords.symm.trans h.records)
    rw [List.length_map, List.length_map, List.length_filter_eq_length_iff] at hlength
    exact hlength c hc
  · intro h
    refine ⟨?_, rfl⟩
    rw [hrecords, List.filter_eq_self.mpr h]

end Verify

/-- The strategy of a run whose warm-up jobs were all dead-lettered. -/
def deadLetteredWarmups : ReplayStrategy :=
  fun log => { runPhases mockPorts log with warmups := .empty }

/-- A conversation whose derivation is stored, and whose warm-up job is dead-lettered in the fresh
run: `verify` reports nothing at all and does not fail. -/
theorem verify_misses_dead_lettered :
    let durable := (populateCache plainDigest oneQuestion (runPhases mockPorts oneQuestion)
      (⟨.empty⟩ : InMemoryDerivedOutputCache) (projectionVersion mockPorts)).1
    let report := (verifyCommand plainDigest oneQuestion deadLetteredWarmups durable
      (projectionVersion mockPorts) none).2
    report.records = [] ∧ ¬report.Failed ∧
      driftRecord plainDigest oneQuestion deadLetteredWarmups durable (projectionVersion mockPorts)
        ⟨"c-1"⟩ = ⟨⟨"c-1"⟩, .diverged⟩ ∧
      ¬DetectsDrift plainDigest oneQuestion deadLetteredWarmups durable
        (projectionVersion mockPorts) := by
  intro durable report
  refine ⟨by decide +kernel, by decide +kernel, by decide +kernel, fun h => ?_⟩
  have hrecords : report.records.length = oneQuestion.conversationIds.length := by
    rw [show report.records = _ from h.records, List.length_map]
  exact absurd hrecords (by decide +kernel)

end Mirrorlane
