import Mirrorlane.Cli.Commands
import Mirrorlane.Worker.Equiv.SinglePass
import Mirrorlane.Worker.Submission

/-!
# Producer and reader agree

A `replay`, a `warmup` that misses and a submitted run all populate the cache from the stores of one
run of the strategy.  A later `warmup` computes the key and the unprojected ids by other code: it
hits, and returns what the producing run derived.

## Main results

* `warmup_of_hit`, `warmup_of_miss`: the two branches of `warmup`
* `warmup_agrees`
-/

namespace Mirrorlane

open DerivedOutputCache

section Runs

variable {κ : Type} [DerivedOutputCache κ] (digest : List UInt8 → String) (log : MessageLog)

/-- A completed producing run over the log: the strategy it ran, the version it published under, and
the cache before and after. -/
inductive ProducingRun : ReplayStrategy → StepVersion → κ → κ → Prop
  | replay (strategy : ReplayStrategy) (version : StepVersion) (cache : κ) (router : RuleRouter) :
      ProducingRun strategy version cache
        (Mirrorlane.replay digest log strategy cache version router).1
  -- of any conversation, on its miss path
  | warmup (strategy : ReplayStrategy) (version : StepVersion) (cache : κ) (router : RuleRouter)
      (c : ConversationId)
      (hmiss : get cache version c (contentHashOf digest (log.messagesFor c)) = none) :
      ProducingRun strategy version cache
        (Mirrorlane.warmup digest log c strategy cache version router).1
  | strategyRun (job : StrategyRunJob) (request : StrategyRunRequest) (strategy : ReplayStrategy)
      (cache cache' : κ) (hbuild : job.registry.build request.strategy job.context = .ok strategy)
      (hrun : job.run digest log cache request = .ok cache') :
      ProducingRun strategy (derivationVersion request.strategy job.context.projector.version)
        cache cache'

variable {digest log} {strategy : ReplayStrategy} {version : StepVersion} {router : RuleRouter}
  {cache cache' : κ} {c : ConversationId}

/-! ### The two branches of `warmup` -/

theorem warmup_of_hit {derivation : ConversationDerivation}
    (h : get cache version c (contentHashOf digest (log.messagesFor c)) = some derivation) :
    warmup digest log c strategy cache version router =
      (cache,
        { context := some (sessionContextFrom derivation version.val router)
          unprojected := (messagesIn log c).filter fun id =>
            id ∉ derivation.projections.map Projection.messageId }) := by
  simp only [warmup, h]

theorem warmup_of_miss
    (h : get cache version c (contentHashOf digest (log.messagesFor c)) = none) :
    warmup digest log c strategy cache version router =
      ((populateCache digest log (strategy log) cache version).1,
        { context := (derivationFor log (strategy log) c).map fun derivation =>
            sessionContextFrom derivation version.val router
          unprojected := unprojected (strategy log) (messagesIn log c) }) := by
  simp only [warmup, h]

/-- **Every producing run populates the cache from the stores of its strategy.** -/
theorem ProducingRun.eq_populateCache (h : ProducingRun digest log strategy version cache cache') :
    cache' = (populateCache digest log (strategy log) cache version).1 := by
  cases h with
  | replay => rfl
  | warmup _ _ _ router c hmiss => rw [warmup_of_miss hmiss]
  | strategyRun job request strategy cache cache' hbuild hrun =>
    unfold StrategyRunJob.run at hrun
    rw [hbuild] at hrun
    exact (Except.ok.inj hrun).symm

/-! ### Unprojected ids -/

/-- The ids a cached derivation lacks are those the run stored no projection of. -/
theorem unprojected_of_derivationFor {stores : ReplayStores} {derivation : ConversationDerivation}
    (h : derivationFor log stores c = some derivation) :
    ((messagesIn log c).filter fun id => id ∉ derivation.projections.map Projection.messageId) =
      unprojected stores (messagesIn log c) := by
  obtain ⟨warmup, -, rfl⟩ := Option.map_eq_some_iff.mp h
  unfold unprojected
  refine List.filter_congr fun id hid => ?_
  have hmem : id ∈ ((messagesIn log c).filterMap stores.projections).map Projection.messageId ↔
      (stores.projections id).isSome := by
    rw [List.mem_map]
    constructor
    · rintro ⟨projection, hp, rfl⟩
      obtain ⟨id', -, hget⟩ := List.mem_filterMap.mp hp
      -- a stored projection is of the id it is stored under
      have hown : projection.messageId = id' := stores.projections.own hget
      rw [hown, hget]
      rfl
    · intro hsome
      obtain ⟨projection, hget⟩ := Option.isSome_iff_exists.mp hsome
      exact ⟨projection, List.mem_filterMap.mpr ⟨id, hid, hget⟩, stores.projections.own hget⟩
  rw [Bool.eq_iff_iff, decide_eq_true_iff, hmem, Option.not_isSome_iff_eq_none,
    Option.isNone_iff_eq_none]

/-- The derivation of a conversation among those of several. -/
theorem find?_derivations (log : MessageLog) (stores : ReplayStores) (c : ConversationId)
    (cs : List ConversationId) : (cs.filterMap (derivationFor log stores)).find?
        (fun derivation => derivation.conversation = c) =
      if c ∈ cs then derivationFor log stores c else none := by
  induction cs with
  | nil => rfl
  | cons c' cs ih =>
    rw [List.filterMap_cons]
    cases hd : derivationFor log stores c' with
    | none =>
      -- nothing is listed for `c'`, also when it is the one that is looked for
      by_cases hc : c = c'
      · subst hc
        simp [ih, hd]
      · simp [ih, hc]
    | some derivation =>
      have hconversation := conversation_of_derivationFor log stores hd
      by_cases hc : c = c'
      · subst hc
        simp [hconversation, hd]
      · have hne : ¬c' = c := fun h => hc h.symm
        simp [hconversation, hne, hc, ih]

/-- The context of a conversation among those of a replay. -/
theorem find?_contexts (hc : c ∈ log.conversationIds) :
    (replay digest log strategy cache version router).2.contexts.find?
        (fun context => context.conversation = c) =
      (derivationFor log (strategy log) c).map fun derivation =>
        sessionContextFrom derivation version.val router := by
  show ((populateCache digest log (strategy log) cache version).2.map fun derivation =>
    sessionContextFrom derivation version.val router).find? _ = _
  rw [populateCache_snd, List.find?_map]
  have hfind := find?_derivations log (strategy log) c (conversations log)
  rw [if_pos (by rw [conversations_eq]; exact hc)] at hfind
  exact congrArg _ hfind

/-! ### Agreement -/

variable [LawfulDerivedOutputCache κ]

/-- After a run of the strategy over the log, a conversation it derived hits. -/
theorem get_after_populateCache (hc : c ∈ log.conversationIds)
    (hd : (derivationFor log (strategy log) c).isSome) :
    get (populateCache digest log (strategy log) cache version).1 version c
        (contentHashOf digest (log.messagesFor c)) = (derivationFor log (strategy log) c).map
          (ConversationDerivation.mapNumbers (LawfulDerivedOutputCache.number κ)) := by
  rw [← contentHash_eq]
  exact get_populateCache digest log (strategy log) cache version
    (by rw [conversations_eq]; exact hc) hd

/-- A conversation that the run did not derive answers as before. -/
theorem get_after_populateCache_of_none {v : StepVersion} {content : String}
    (h : ¬(c ∈ log.conversationIds ∧ (derivationFor log (strategy log) c).isSome)) :
    get (populateCache digest log (strategy log) cache version).1 v c content =
      get cache v c content := by
  refine get_putEntries_of_notMem cache fun hmem => h ?_
  obtain ⟨entry, hentry, rfl⟩ := List.mem_map.mp hmem
  obtain ⟨hc, -, hd⟩ := mem_cacheEntries.mp hentry
  exact ⟨by rw [← conversations_eq]; exact hc, by rw [hd]; rfl⟩

/-- **The second `warmup` says what the first one said**, for every conversation id. -/
theorem warmup_twice (hround : ∀ d, LawfulDerivedOutputCache.ReadsBack κ d)
    (strategy : ReplayStrategy) (cache : κ) (version : StepVersion)
    (router : RuleRouter) (c : ConversationId) :
    (warmup digest log c strategy (warmup digest log c strategy cache version router).1 version
      router).2 = (warmup digest log c strategy cache version router).2 := by
  cases hget : get cache version c (contentHashOf digest (log.messagesFor c)) with
  | some derivation => rw [warmup_of_hit hget, warmup_of_hit hget]
  | none =>
    rw [warmup_of_miss hget]
    by_cases hderived : c ∈ log.conversationIds ∧ (derivationFor log (strategy log) c).isSome
    · -- the first one missed and filled the cache, so the second one hits
      obtain ⟨hc, hd⟩ := hderived
      have hafter : get (populateCache digest log (strategy log) cache version).1 version c
          (contentHashOf digest (log.messagesFor c)) = derivationFor log (strategy log) c :=
        (get_after_populateCache hc hd).trans (LawfulDerivedOutputCache.map_mapNumbers hround _)
      obtain ⟨derivation, hd⟩ := Option.isSome_iff_exists.mp hd
      rw [hd] at hafter
      rw [warmup_of_hit hafter, unprojected_of_derivationFor hd, hd]
      rfl
    · -- nothing was cached for it, so the second one runs the strategy again
      rw [warmup_of_miss]
      rw [get_after_populateCache_of_none hderived]
      exact hget

/-- **Producer and reader agree.** After any completed producing run, while the log is unchanged:
`warmup` of a conversation that received a warm-up document hits, whatever strategy the reader
brings; it leaves the cache alone and returns the context the producing run derived, which is the
conversation's entry in a `replay`; and its unprojected ids are those the run stored no projection
of, in log order.  And from any cache, a second `warmup` returns what the first one returned.  The
cache is one that reads derivations back as they were put. -/
theorem warmup_agrees (hround : ∀ d, LawfulDerivedOutputCache.ReadsBack κ d)
    (digest : List UInt8 → String) (log : MessageLog) (strategy : ReplayStrategy)
    (version : StepVersion) :
    (∀ cache cache' : κ, ProducingRun digest log strategy version cache cache' →
      ∀ c ∈ log.conversationIds, ((strategy log).warmups c).isSome →
      ∀ (reader : ReplayStrategy) (router : RuleRouter), ∃ derivation,
        derivationFor log (strategy log) c = some derivation ∧
        get cache' version c (contentHashOf digest (log.messagesFor c)) = some derivation ∧
        warmup digest log c reader cache' version router = (cache',
          { context := some (sessionContextFrom derivation version.val router)
            unprojected := (messagesIn log c).filter fun id =>
              ((strategy log).projections id).isNone }) ∧
        (replay digest log strategy cache version router).2.contexts.find?
          (fun context => context.conversation = c) =
            some (sessionContextFrom derivation version.val router)) ∧
    ∀ (cache : κ) (router : RuleRouter) (c : ConversationId),
      (warmup digest log c strategy (warmup digest log c strategy cache version router).1 version
        router).2 = (warmup digest log c strategy cache version router).2 := by
  refine ⟨fun cache cache' hrun c hc hwarmup reader router => ?_,
    fun cache router c => warmup_twice hround strategy cache version router c⟩
  obtain ⟨document, hdocument⟩ := Option.isSome_iff_exists.mp hwarmup
  obtain ⟨derivation, hd⟩ : ∃ derivation, derivationFor log (strategy log) c = some derivation := by
    unfold derivationFor
    rw [hdocument]
    exact ⟨_, rfl⟩
  have hget : get cache' version c (contentHashOf digest (log.messagesFor c)) =
      some derivation := by
    rw [hrun.eq_populateCache, get_after_populateCache hc (by rw [hd]; rfl),
      LawfulDerivedOutputCache.map_mapNumbers hround, hd]
  refine ⟨derivation, hd, hget, ?_, ?_⟩
  · rw [warmup_of_hit hget, unprojected_of_derivationFor hd]
    rfl
  · rw [find?_contexts hc, hd]
    rfl

end Runs

/-- A submitted run during which the projector failed on one message of two, over the SQLite table:
a reader with another strategy gets what that run derived, and the failed message is reported. -/
theorem warmup_agrees_strategyRun :
    let log := ((MessageLog.empty.append (Producers.question "m-1" "c-1")).append
      (Producers.question "m-2" "c-2")).append (Producers.question "m-3" "c-1")
    let ports := mockPorts.failing fun message => message.id = ⟨"m-3"⟩
    let cache := (populateCache plainDigest log (ProjectionStrategy ports log)
      (⟨.empty⟩ : DerivedRows (.decoded id)) (projectionVersion ports)).1
    let output := warmup plainDigest log ⟨"c-1"⟩ EmptyStrategy cache (projectionVersion ports) .new
    output.2.context.isSome ∧ output.2.unprojected = [⟨"m-3"⟩] := by
  intro log ports cache output
  have hrun : ProducingRun plainDigest log (ProjectionStrategy ports) (projectionVersion ports)
      (⟨.empty⟩ : DerivedRows (.decoded id)) cache :=
    .strategyRun ⟨ports, .withBuiltins⟩ ⟨StrategyRegistry.default⟩ (ProjectionStrategy ports) _
      cache (StrategyRegistry.build_default ports) (StrategyRunJob.run_default ..)
  obtain ⟨derivation, -, -, houtput, -⟩ := (warmup_agrees (DerivedRows.readsBack rfl) plainDigest
    log (ProjectionStrategy ports) (projectionVersion ports)).1 _ cache hrun ⟨"c-1"⟩
    (by decide +kernel) (by decide +kernel) EmptyStrategy .new
  have hwarmup : output = _ := houtput
  have hunprojected : ((messagesIn log ⟨"c-1"⟩).filter fun id =>
      ((ProjectionStrategy ports log).projections id).isNone) = [⟨"m-3"⟩] := by decide +kernel
  rw [hwarmup]
  exact ⟨rfl, hunprojected⟩

end Mirrorlane
