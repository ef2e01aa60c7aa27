import Mathlib.Logic.Relation
import Mirrorlane.Cli.Equiv.Process

/-!
# What a process does to the contents of its file

A process appends to the log, or it changes the other stores in steps of four kinds (`Change`):
building a projector prunes its cache, a projection is frozen, a run freezes what it projects, and a
run publishes its derivations.  Every answer is a chain of such changes (`answer_changes`), so what
each kind keeps, every process keeps.
-/

namespace Mirrorlane

variable {τ : Type} {json : CacheJson τ} {cacheKey : MessageId → String → String}
  {ports : StrategyContext} {digest : List UInt8 → String} {debug : String → String}

/-- A change of the stores that are not the log. -/
inductive Change (cacheKey : MessageId → String → String) (ports : StrategyContext)
    (digest : List UInt8 → String) (provider : SelectedProvider) :
    FileContents json → FileContents json → Prop where
  | prune (contents : FileContents json) :
    Change cacheKey ports digest provider contents (contents.projectorFor provider)
  | project (contents : FileContents json) {v : StepVersion} (hprovider : provider = .model v)
    (answers : Answers) (n : ℕ) {message : MessageEnvelope} (hm : message ∈ contents.log.all) :
    Change cacheKey ports digest provider contents
      (contents.project cacheKey v answers n message).2
  | run (contents : FileContents json) (calls : ModelCalls) {id : String}
    {strategy : ReplayStrategy}
    (hbuild : StrategyRegistry.withBuiltins.build id ports = .ok strategy) :
    Change cacheKey ports digest provider contents
      (contents.runStrategy cacheKey ports provider calls id strategy).2
  | produce (contents : FileContents json) (calls : ModelCalls) {id : String}
    {strategy : ReplayStrategy} {cache : DerivedRows json}
    (hbuild : StrategyRegistry.withBuiltins.build id ports = .ok strategy)
    (hcache : contents.derived = some cache) :
    Change cacheKey ports digest provider contents
      { (contents.runStrategy cacheKey ports provider calls id strategy).2 with
        derived := some (populateCache digest contents.log
          (contents.runStrategy cacheKey ports provider calls id strategy).1 cache
          (derivationVersion id (provider.version ports))).1 }

/-- A chain of changes. -/
abbrev Changes (cacheKey : MessageId → String → String) (ports : StrategyContext)
    (digest : List UInt8 → String) (provider : SelectedProvider) :
    FileContents json → FileContents json → Prop :=
  Relation.ReflTransGen (Change cacheKey ports digest provider)

section Answers

variable {provider : SelectedProvider} {contents contents' : FileContents json}

/-- Answering further only adds changes. -/
theorem Changes.andThen {α β : Type} {answered : Answered json α}
    {f : α → FileContents json → Answered json β}
    (h : Changes cacheKey ports digest provider contents answered.2)
    (hrest : ∀ a, answered.1 = .ok a →
      Changes cacheKey ports digest provider answered.2 (f a answered.2).2) :
    Changes cacheKey ports digest provider contents (answered.andThen f).2 := by
  obtain ⟨ended, left⟩ := answered
  cases ended with
  | ok a => exact h.trans (hrest a rfl)
  | error e => exact h

theorem ok_of_buildStrategy {id : String} {strategy : ReplayStrategy}
    (h : (contents.buildStrategy ports id).1 = .ok strategy) :
    StrategyRegistry.withBuiltins.build id ports = .ok strategy := by
  unfold FileContents.buildStrategy at h
  cases hbuild : StrategyRegistry.withBuiltins.build id ports with
  | ok built =>
    rw [hbuild] at h
    rw [← Except.ok.inj h]
  | error unknown =>
    rw [hbuild] at h
    cases h

theorem changes_answerPrepare (invocation : Invocation) (contents : FileContents json) :
    Changes cacheKey ports digest invocation.provider contents
      (invocation.answerPrepare ports contents).2 := by
  refine Changes.andThen ?_ fun strategy _ => .single (.prune _)
  rw [FileContents.buildStrategy_snd]
  exact .single (.prune contents)

/-- The strategy of a process that goes on is the one of its id. -/
theorem build_of_answerPrepare {invocation : Invocation} {strategy : ReplayStrategy}
    (h : (invocation.answerPrepare ports contents).1 = .ok strategy) :
    StrategyRegistry.withBuiltins.build invocation.strategy ports = .ok strategy := by
  unfold Invocation.answerPrepare Answered.andThen at h
  split at h
  · rename_i built hbuilt
    rw [← Except.ok.inj h]
    exact ok_of_buildStrategy hbuilt
  · cases h

variable {invocation : Invocation} {strategy : ReplayStrategy}

/-- A run that goes on to put its derivations into the cache. -/
theorem changes_produce {id : String}
    (hbuild : StrategyRegistry.withBuiltins.build id ports = .ok strategy) (calls : ModelCalls)
    {cache : DerivedRows json} :
    let ran := contents.runStrategy cacheKey ports provider calls id strategy
    ran.2.derived = some cache → Changes cacheKey ports digest provider contents
      { ran.2 with derived := some (populateCache digest contents.log ran.1 cache
        (derivationVersion id (provider.version ports))).1 } := by
  intro ran hcache
  rw [(contents.runStrategy_frame _ _ provider calls id strategy).2.1] at hcache
  exact .single (.produce contents calls hbuild hcache)

theorem changes_answerReplay
    (hbuild : StrategyRegistry.withBuiltins.build invocation.strategy ports = .ok strategy) :
    Changes cacheKey ports digest invocation.provider contents
      (invocation.answerReplay cacheKey ports digest contents strategy).2 := by
  unfold Invocation.answerReplay FileContents.onCache
  dsimp only
  split
  · rename_i cache hcache
    exact changes_produce hbuild invocation.calls hcache
  · split <;> exact .single (.run contents invocation.calls hbuild)

theorem changes_answerWarmup (c : ConversationId)
    (hbuild : StrategyRegistry.withBuiltins.build invocation.strategy ports = .ok strategy) :
    Changes cacheKey ports digest invocation.provider contents
      (invocation.answerWarmup cacheKey ports digest contents c strategy).2 := by
  unfold Invocation.answerWarmup Invocation.runOn
  obtain ⟨-, hframe, -⟩ := contents.runStrategy_frame cacheKey ports
    invocation.provider invocation.calls invocation.strategy strategy
  cases hderived : contents.derived with
  | none =>
    simp only [Option.any_none, Option.isNone_none, Bool.false_eq_true, or_true, if_true,
      FileContents.onCache, hderived]
    exact .refl
  | some cache =>
    simp only [Option.any_some, Option.isNone_some, Bool.false_eq_true, or_false]
    cases hget : DerivedOutputCache.get cache (invocation.version ports) c
        (contentHashOf digest (contents.log.messagesFor c)) with
    | some derivation =>
      -- a hit leaves the cache as it is
      simp only [Option.isSome_some, if_true, FileContents.onCache, hderived, warmup, hget]
      rw [← hderived]
    | none =>
      simp only [Option.isSome_none, Bool.false_eq_true, if_false, FileContents.onCache,
        hframe.trans hderived, warmup, hget]
      exact changes_produce hbuild invocation.calls (hframe.trans hderived)

theorem changes_answerVerify (c : Option ConversationId)
    (hbuild : StrategyRegistry.withBuiltins.build invocation.strategy ports = .ok strategy) :
    Changes cacheKey ports digest invocation.provider contents
      (invocation.answerVerify cacheKey ports digest contents c strategy).2 := by
  have hrun : Changes cacheKey ports digest invocation.provider contents
      (invocation.runOn cacheKey ports contents strategy).2 :=
    .single (.run contents invocation.calls hbuild)
  unfold Invocation.answerVerify FileContents.onCache
  dsimp only
  split
  · rename_i cache hcache
    -- a verification only reads the cache
    have hkept : { (invocation.runOn cacheKey ports contents strategy).2 with
        derived := some cache } = (invocation.runOn cacheKey ports contents strategy).2 := by
      rw [← hcache]
    exact hkept ▸ hrun
  · split <;> exact hrun

theorem changes_answerInspect (invocation : Invocation) (contents : FileContents json)
    (id : MessageId) :
    Changes cacheKey ports digest invocation.provider contents
      (invocation.answerInspect cacheKey ports contents id).2 := by
  unfold Invocation.answerInspect
  cases hget : contents.log.get id with
  | none => exact .refl
  | some message =>
    refine Changes.andThen ?_ fun projection _ => ?_
    · refine (Relation.ReflTransGen.single (.prune contents)).trans ?_
      have hframe : (contents.projectorFor invocation.provider).log = contents.log := by
        cases invocation.provider <;> rfl
      unfold Invocation.answerProject
      split
      · rename_i v hprovider
        refine .single (.project _ hprovider _ _ ?_)
        rw [hframe]
        exact (MessageLog.get_eq_some_iff.mp hget).1
      · split <;> exact .refl
    · unfold Invocation.answerTrace
      split <;> exact .refl

theorem changes_answerRun (contents : FileContents json)
    (delivered : StrategyRunRequest × ModelCalls) :
    Changes cacheKey ports digest provider contents
      (answerRun cacheKey ports digest provider contents delivered).2 := by
  refine Changes.andThen ?_ fun strategy hbuilt => ?_
  · rw [FileContents.buildStrategy_snd]
  · rw [FileContents.buildStrategy_snd]
    have hbuild := ok_of_buildStrategy hbuilt
    dsimp only
    split
    · rename_i cache hcache
      exact changes_produce hbuild delivered.2 hcache
    · split <;> exact .single (.run contents delivered.2 hbuild)

theorem changes_work (delivered : List (StrategyRunRequest × ModelCalls)) :
    ∀ contents : FileContents json, Changes cacheKey ports digest provider contents
      (serve (fun submission contents => answerRun cacheKey ports digest provider contents
        submission) delivered contents).2 := by
  induction delivered with
  | nil => exact fun contents => .refl
  | cons submission delivered ih =>
    intro contents
    exact (changes_answerRun contents submission).trans (ih _)

/-- **What a process leaves** is its log, and a chain of changes of the other stores. -/
theorem answer_changes (invocation : Invocation) (contents : FileContents json) :
    Changes cacheKey ports digest invocation.provider
      { contents with log := invocation.logs debug contents.log }
      (invocation.answer cacheKey ports digest debug contents).2 := by
  unfold Invocation.answer Invocation.logs
  cases invocation.subcommand with
  | ingest input => cases input <;> exact .refl
  | github client source spec => exact .refl
  | replay =>
    exact Changes.andThen (changes_answerPrepare invocation contents) fun strategy hbuilt =>
      changes_answerReplay (build_of_answerPrepare hbuilt)
  | warmup c =>
    exact Changes.andThen (changes_answerPrepare invocation contents) fun strategy hbuilt =>
      changes_answerWarmup c (build_of_answerPrepare hbuilt)
  | verify c =>
    exact Changes.andThen (changes_answerPrepare invocation contents) fun strategy hbuilt =>
      changes_answerVerify c (build_of_answerPrepare hbuilt)
  | inspect id =>
    exact Changes.andThen (changes_answerInspect invocation contents id) fun _ _ => .refl
  | work delivered =>
    exact (Relation.ReflTransGen.single (.prune contents)).trans (changes_work delivered _)
  | queue => exact .refl

end Answers

/-! ### What every process keeps -/

section Kept

variable {provider : SelectedProvider} {contents contents' : FileContents json}

theorem Change.log_eq (h : Change cacheKey ports digest provider contents contents') :
    contents'.log = contents.log := by
  cases h with
  | prune => cases provider <;> rfl
  | project hprovider answers n hm =>
    unfold FileContents.project
    split <;> rfl
  | run calls hbuild => exact (contents.runStrategy_frame _ _ provider calls _ _).1
  | produce calls hbuild hcache => exact (contents.runStrategy_frame _ _ provider calls _ _).1

theorem Changes.log_eq (h : Changes cacheKey ports digest provider contents contents') :
    contents'.log = contents.log := by
  induction h with
  | refl => rfl
  | tail _ hchange ih => rw [hchange.log_eq, ih]

/-- **A process changes the log by what it appends.** -/
theorem answer_log (invocation : Invocation) (contents : FileContents json) :
    (invocation.answer cacheKey ports digest debug contents).2.log =
      invocation.logs debug contents.log := by
  have hchanges : Changes cacheKey ports digest _ _
      (invocation.answer cacheKey ports digest debug contents).2 :=
    answer_changes invocation contents
  exact Changes.log_eq hchanges

/-- Both caches have a table, and the rows of the projection cache are the messages' own. -/
structure HasCaches (cacheKey : MessageId → String → String) (M : MessageEnvelope → Prop)
    (contents : FileContents json) : Prop where
  projections : ∃ rows, contents.projections = some rows ∧ WellKeyed cacheKey M rows
  derived : ∃ cache, contents.derived = some cache

namespace HasCaches

variable {M : MessageEnvelope → Prop}

theorem projectorFor (h : HasCaches cacheKey M contents) :
    HasCaches cacheKey M (contents.projectorFor provider) := by
  obtain ⟨⟨rows, hrows, hkeyed⟩, hderived⟩ := h
  cases provider with
  | mock => exact ⟨⟨rows, hrows, hkeyed⟩, hderived⟩
  | model v =>
    refine ⟨⟨rows.pruneSuperseded v, ?_, hkeyed.pruneSuperseded v⟩, hderived⟩
    show contents.projections.map _ = _
    rw [hrows, Option.map_some]

theorem project (hapart : KeyedApart cacheKey M) (h : HasCaches cacheKey M contents)
    (v : StepVersion) (answers : Answers) (n : ℕ) {message : MessageEnvelope} (hm : M message) :
    HasCaches cacheKey M (contents.project cacheKey v answers n message).2 := by
  obtain ⟨⟨rows, hrows, hkeyed⟩, hderived⟩ := h
  unfold FileContents.project
  simp only [hrows]
  exact ⟨⟨_, rfl, hkeyed.run hapart hm (answers n)⟩, hderived⟩

theorem runStrategy (hapart : KeyedApart cacheKey M) (hM : ∀ m ∈ contents.log.all, M m)
    (h : HasCaches cacheKey M contents) (calls : ModelCalls) (id : String)
    (strategy : ReplayStrategy) :
    HasCaches cacheKey M
      (contents.runStrategy cacheKey ports provider calls id strategy).2 := by
  obtain ⟨⟨rows, hrows, hkeyed⟩, hderived⟩ := h
  cases provider with
  | mock => exact ⟨⟨rows, hrows, hkeyed⟩, hderived⟩
  | model v =>
    unfold FileContents.runStrategy
    simp only [hrows]
    split
    · exact ⟨⟨_, rfl, CachedRun.wellKeyed_project hapart hM hkeyed⟩, hderived⟩
    · exact ⟨⟨rows, hrows, hkeyed⟩, hderived⟩

theorem change (hapart : KeyedApart cacheKey M) (hM : ∀ m ∈ contents.log.all, M m)
    (h : HasCaches cacheKey M contents)
    (hchange : Change cacheKey ports digest provider contents contents') :
    HasCaches cacheKey M contents' := by
  cases hchange with
  | prune => exact h.projectorFor
  | project hprovider answers n hm => exact h.project hapart _ answers n (hM _ hm)
  | run calls hbuild => exact h.runStrategy hapart hM calls _ _
  | produce calls hbuild hcache =>
    obtain ⟨hprojections, -⟩ : HasCaches cacheKey M
        (contents.runStrategy cacheKey ports provider calls _ _).2 :=
      h.runStrategy hapart hM calls _ _
    exact ⟨hprojections, _, rfl⟩

theorem changes (hapart : KeyedApart cacheKey M) (hM : ∀ m ∈ contents.log.all, M m)
    (h : HasCaches cacheKey M contents)
    (hchanges : Changes cacheKey ports digest provider contents contents') :
    HasCaches cacheKey M contents' := by
  induction hchanges with
  | refl => exact h
  | tail hchanges hchange ih =>
    refine ih.change hapart (fun m hm => hM m ?_) hchange
    rwa [Changes.log_eq hchanges] at hm

/-- **A process keeps both caches.** -/
theorem answer (hapart : KeyedApart cacheKey M) (h : HasCaches cacheKey M contents)
    (invocation : Invocation) (hM : ∀ m ∈ (invocation.logs debug contents.log).all, M m) :
    HasCaches cacheKey M (invocation.answer cacheKey ports digest debug contents).2 := by
  have hlogs : HasCaches cacheKey M
      { contents with log := invocation.logs debug contents.log } := ⟨h.projections, h.derived⟩
  exact hlogs.changes hapart hM (answer_changes invocation contents)

end HasCaches

/-- The message is in the log before the processes, between two of them or after them. -/
def EverLogged (debug : String → String) (invocations : List Invocation) (log : MessageLog)
    (message : MessageEnvelope) : Prop :=
  ∃ pre post, invocations = pre ++ post ∧
    message ∈ (pre.foldl (Invocation.logs debug) log).all

theorem EverLogged.of_mem {invocations : List Invocation} {log : MessageLog}
    {message : MessageEnvelope} (h : message ∈ log.all) :
    EverLogged debug invocations log message :=
  ⟨[], invocations, rfl, h⟩

theorem EverLogged.cons {invocation : Invocation} {invocations : List Invocation}
    {log : MessageLog} {message : MessageEnvelope}
    (h : EverLogged debug invocations (invocation.logs debug log) message) :
    EverLogged debug (invocation :: invocations) log message := by
  obtain ⟨pre, post, hsplit, hm⟩ := h
  refine ⟨invocation :: pre, post, ?_, hm⟩
  rw [hsplit, List.cons_append]

/-- **Processes keep both caches.** -/
theorem HasCaches.serve {M : MessageEnvelope → Prop} (hapart : KeyedApart cacheKey M)
    (invocations : List Invocation) :
    ∀ {contents : FileContents json}, HasCaches cacheKey M contents →
      (∀ m, EverLogged debug invocations contents.log m → M m) →
      HasCaches cacheKey M
        (serve (Invocation.answer cacheKey ports digest debug) invocations contents).2 := by
  induction invocations with
  | nil => exact fun h _ => h
  | cons invocation invocations ih =>
    intro contents h hM
    refine ih (h.answer hapart invocation fun m hm => ?_) fun m hm => ?_
    · exact hM m (EverLogged.cons (.of_mem hm))
    · rw [answer_log] at hm
      exact hM m hm.cons

end Kept

end Mirrorlane
