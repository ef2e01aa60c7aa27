import Mirrorlane.Cli.History
import Mirrorlane.Foundation.Machine
import Mirrorlane.Worker.Equiv.Locality

/-!
# Does the cache serve what a fresh run would derive?

A session appends messages and runs commands, each to completion, over one log and one
derived-output cache.  `NeverStale` is the promise of the cache: what `warmup` serves for a
conversation of the log is the derivation a fresh run has, and `verify` finds no divergence.

The cache key covers the ids and bodies of one conversation, the derivation reads more
(`SameInputs`), and a cache that keeps text may answer other numbers than were put.  The promise is
kept along every session in which no append changes what a cached derivation read while it keeps its
key, and every derivation that is stored is read back as it was (`neverStale_of_reachable`).
-/

namespace Mirrorlane

/-- A message log and a derived-output cache.  `sources` says of every key which log the run that
put it last was made over: no command reads it. -/
structure Session (κ : Type) where
  log : MessageLog
  cache : κ
  sources : ConversationId → String → Option MessageLog

/-- What happens in a session. -/
inductive SessionEvent where
  | append (message : MessageEnvelope)
  | command (command : Command)

namespace Session

open DerivedOutputCache

variable {κ : Type} [DerivedOutputCache κ] (digest : List UInt8 → String) (ports : StrategyContext)
  (router : RuleRouter)

/-- The key of a conversation. -/
def key (log : MessageLog) (c : ConversationId) : String :=
  contentHashOf digest (log.messagesFor c)

/-- The sources after a run over the log of the session. -/
def produced (s : Session κ) (c : ConversationId) (content : String) : Option MessageLog :=
  if c ∈ s.log.conversationIds ∧ content = key digest s.log c then some s.log
  else s.sources c content

/-- One event. -/
def apply (s : Session κ) : SessionEvent → Session κ
  | .append message => { s with log := s.log.append message }
  | .command command =>
    { log := s.log
      cache := command.apply digest ports router s.log s.cache
      sources :=
        if command.Produces digest ports s.log s.cache then s.produced digest else s.sources }

/-- The sessions that start with an empty log and an empty cache. -/
def machine (κ : Type) [DerivedOutputCache κ] (digest : List UInt8 → String)
    (ports : StrategyContext) (router : RuleRouter) : Machine (Session κ) SessionEvent where
  init s := s.log = .empty ∧ ∀ v c content, get s.cache v c content = none
  step s e t := t = s.apply digest ports router e

/-- The derivation that `warmup` serves: the cached one, or that of a run over the log. -/
def served (s : Session κ) (c : ConversationId) : Option ConversationDerivation :=
  (get s.cache (projectionVersion ports) c (key digest s.log c)).or
    (derivationFor s.log (ProjectionStrategy ports s.log) c)

/-- A `warmup` returns the context of the derivation it serves. -/
theorem warmup_context (s : Session κ) (c : ConversationId) :
    (warmup digest s.log c (ProjectionStrategy ports) s.cache (projectionVersion ports)
        router).2.context =
      (s.served digest ports c).map fun derivation =>
        sessionContextFrom derivation (projectionVersion ports).val router := by
  have hkey : contentHashOf digest (s.log.messagesFor c) = key digest s.log c := rfl
  cases hget : get s.cache (projectionVersion ports) c (key digest s.log c) <;>
    simp [warmup, served, hkey, hget]

/-- What `verify` reports: one record for each conversation, in first-seen order. -/
theorem verify_projectionStrategy (log : MessageLog) (durable : κ) (version : StepVersion) :
    verify digest log (ProjectionStrategy ports) durable version =
      log.conversationIds.map fun c => ⟨c, verifyOutcome (derivationOf ports log c)
        (get durable version c (key digest log c))⟩ := by
  show ((cacheEntries digest log (runPhases ports log)).map CacheEntry.derivation).map _ = _
  rw [cacheEntries_runPhases, List.map_map, List.map_map]
  rfl

/-- The cache never serves a stale derivation: what `warmup` serves and returns for a conversation
of the log is what a fresh run has for it, and `verify` never reports a divergence. -/
structure NeverStale (s : Session κ) : Prop where
  served : ∀ c ∈ s.log.conversationIds,
    s.served digest ports c = derivationFor s.log (ProjectionStrategy ports s.log) c
  context : ∀ c ∈ s.log.conversationIds,
    (warmup digest s.log c (ProjectionStrategy ports) s.cache (projectionVersion ports)
        router).2.context =
      (derivationFor s.log (ProjectionStrategy ports s.log) c).map fun derivation =>
        sessionContextFrom derivation (projectionVersion ports).val router
  verify : ∀ record ∈ verify digest s.log (ProjectionStrategy ports) s.cache
    (projectionVersion ports), record.outcome ≠ .diverged

/-- An append keeps the inputs under every key it keeps: where the cache holds an entry for the key
a conversation has after the append, the log it was put for has the inputs of the new log. -/
def KeepsInputs (s : Session κ) : SessionEvent → Prop
  | .append message => ∀ c ∈ (s.log.append message).conversationIds,
      (get s.cache (projectionVersion ports) c (key digest (s.log.append message) c)).isSome →
      ∀ source ∈ s.sources c (key digest (s.log.append message) c),
        SameInputs ports source (s.log.append message) c
  | .command _ => True

/-- What a command stores is read back as it was: where it runs the strategy, the derivation of
every conversation of the log. -/
def StoresReadBack [LawfulDerivedOutputCache κ] (s : Session κ) : SessionEvent → Prop
  | .append _ => True
  | .command command => command.Produces digest ports s.log s.cache →
      ∀ c ∈ s.log.conversationIds,
        LawfulDerivedOutputCache.ReadsBack κ (derivationOf ports s.log c)

/-! ### The invariant -/

/-- Every cached derivation is that of its source, and under the current key of a conversation the
source has the inputs of the current log. -/
structure Inv (s : Session κ) : Prop where
  cached : ∀ c content derivation,
    get s.cache (projectionVersion ports) c content = some derivation →
      ∃ source ∈ s.sources c content, derivation = derivationOf ports source c
  inputs : ∀ c ∈ s.log.conversationIds,
    (get s.cache (projectionVersion ports) c (key digest s.log c)).isSome →
      ∀ source ∈ s.sources c (key digest s.log c), SameInputs ports source s.log c

variable {digest ports router} [LawfulDerivedOutputCache κ]

omit [LawfulDerivedOutputCache κ] in
/-- Under the invariant a hit is the derivation of the current log. -/
theorem Inv.hit {s : Session κ} (h : Inv digest ports s) {c : ConversationId}
    (hc : c ∈ s.log.conversationIds) {derivation : ConversationDerivation}
    (hget : get s.cache (projectionVersion ports) c (key digest s.log c) = some derivation) :
    derivation = derivationOf ports s.log c := by
  obtain ⟨source, hsource, rfl⟩ := h.cached c _ derivation hget
  exact derivationOf_congr (h.inputs c hc (by rw [hget]; rfl) source hsource)

/-- A run of the strategy re-establishes the invariant for every conversation of the log. -/
theorem Inv.produce {s : Session κ} (h : Inv digest ports s)
    (hreads : ∀ c ∈ s.log.conversationIds,
      LawfulDerivedOutputCache.ReadsBack κ (derivationOf ports s.log c)) :
    Inv digest ports
      { log := s.log
        cache := (populateCache digest s.log (runPhases ports s.log) s.cache
          (projectionVersion ports)).1
        sources := s.produced digest } := by
  have hnodup := nodup_cacheEntries digest s.log (runPhases ports s.log)
  have hentries := cacheEntries_runPhases digest ports s.log
  refine ⟨fun c content derivation hget => ?_, fun c hc _ source hsource => ?_⟩
  · by_cases hkey : c ∈ s.log.conversationIds ∧ content = key digest s.log c
    · -- the run put this key
      obtain ⟨hc, rfl⟩ := hkey
      have hentry : (⟨c, key digest s.log c, derivationOf ports s.log c⟩ : CacheEntry) ∈
          cacheEntries digest s.log (runPhases ports s.log) := by
        rw [hentries]
        exact List.mem_map_of_mem hc
      have hput : get ((cacheEntries digest s.log (runPhases ports s.log)).foldl
          (putEntry (projectionVersion ports)) s.cache) (projectionVersion ports) c
          (key digest s.log c) = some (derivationOf ports s.log c) :=
        (get_putEntries_of_mem s.cache hnodup hentry).trans (congrArg some (hreads c hc))
      refine ⟨s.log, if_pos ⟨hc, rfl⟩, ?_⟩
      exact Option.some.inj (hget.symm.trans hput)
    · -- the answer was there before
      rcases get_putEntries hget with ⟨-, hentry⟩ | hold
      · rw [hentries, List.map_map] at hentry
        obtain ⟨c', hc', heq⟩ := List.mem_map.mp hentry
        obtain ⟨rfl, rfl, -⟩ := CacheEntry.mk.inj heq
        exact absurd ⟨hc', rfl⟩ hkey
      · obtain ⟨source, hsource, hderivation⟩ := h.cached c content derivation hold
        exact ⟨source, (if_neg hkey).trans hsource, hderivation⟩
  · -- the source under the current key is the current log itself
    have hlog : s.produced digest c (key digest s.log c) = some s.log := if_pos ⟨hc, rfl⟩
    rw [← Option.some.inj (hlog.symm.trans hsource)]
    exact SameInputs.refl ports s.log c

/-- **One event.** -/
theorem Inv.step {s t : Session κ} {e : SessionEvent} (h : Inv digest ports s)
    (hstep : ((machine κ digest ports router).guarded fun s e =>
      KeepsInputs digest ports s e ∧ StoresReadBack digest ports s e).step s e t) :
    Inv digest ports t := by
  obtain ⟨⟨hinputs, hreads⟩, rfl⟩ := hstep
  cases e with
  -- an append writes no entry, and the guard is what the invariant asks of the new log
  | append message => exact ⟨h.cached, hinputs⟩
  | command command =>
    simp only [apply, Command.apply_eq]
    split_ifs with hproduces
    · exact h.produce (hreads hproduces)
    · exact ⟨h.cached, h.inputs⟩

omit [LawfulDerivedOutputCache κ] in
theorem Inv.of_init {s : Session κ} (h : (machine κ digest ports router).init s) :
    Inv digest ports s := by
  obtain ⟨-, hempty⟩ := h
  refine ⟨fun c content derivation hget => ?_, fun c _ hsome => ?_⟩
  · rw [hempty] at hget
    cases hget
  · rw [hempty] at hsome
    cases hsome

omit [LawfulDerivedOutputCache κ] in
/-- Hit or miss, what is served is the derivation of a fresh run. -/
theorem Inv.served_eq {s : Session κ} (h : Inv digest ports s) (c : ConversationId)
    (hc : c ∈ s.log.conversationIds) :
    s.served digest ports c = derivationFor s.log (ProjectionStrategy ports s.log) c := by
  have hfresh : derivationFor s.log (ProjectionStrategy ports s.log) c =
      some (derivationOf ports s.log c) := by
    show derivationFor s.log (runPhases ports s.log) c = _
    rw [derivationFor_runPhases, if_pos hc]
  unfold Session.served
  cases hget : get s.cache (projectionVersion ports) c (key digest s.log c) with
  | none => rfl
  | some derivation =>
    rw [hfresh, h.hit hc hget]
    rfl

omit [LawfulDerivedOutputCache κ] in
/-- **The invariant keeps the promise.** -/
theorem Inv.neverStale {s : Session κ} (h : Inv digest ports s) :
    NeverStale digest ports router s where
  served := h.served_eq
  context c hc := by rw [warmup_context, h.served_eq c hc]
  verify record hrecord := by
    rw [verify_projectionStrategy] at hrecord
    obtain ⟨c, hc, rfl⟩ := List.mem_map.mp hrecord
    show verifyOutcome (derivationOf ports s.log c)
      (get s.cache (projectionVersion ports) c (key digest s.log c)) ≠ .diverged
    cases hget : get s.cache (projectionVersion ports) c (key digest s.log c) with
    | none => exact nofun
    | some stored =>
      rw [h.hit hc hget, verifyOutcome, if_pos rfl]
      exact nofun

/-- **The cache is never stale** in any session whose appends keep the inputs under the keys they
keep and whose commands store what is read back as it was, for any digest. -/
theorem neverStale_of_reachable {s : Session κ}
    (h : ((machine κ digest ports router).guarded fun s e =>
      KeepsInputs digest ports s e ∧ StoresReadBack digest ports s e).Reachable s) :
    NeverStale digest ports router s := by
  have hinv : Inv digest ports s := by
    refine h.invariant ?_ fun hs hstep => hs.step hstep
    intro s₀ hs₀
    exact Inv.of_init ((Machine.guarded_init _ _).mp hs₀)
  exact hinv.neverStale

/-! ### Two sessions -/

instance (digest : List UInt8 → String) (ports : StrategyContext) (s : Session κ) :
    DecidablePred (KeepsInputs digest ports s)
  | .append message => inferInstanceAs (Decidable (∀ c ∈ (s.log.append message).conversationIds,
      (get s.cache _ c _).isSome → ∀ source ∈ s.sources c _, SameInputs ports source _ c))
  | .command _ => inferInstanceAs (Decidable True)

/-- A message of one author in a conversation. -/
def said (id c author body : String) : MessageEnvelope :=
  ⟨⟨id⟩, .manual, ⟨⟨author⟩, author⟩, ⟨⟨c⟩, none⟩, body⟩

/-- A new session over the in-memory cache. -/
def new : Session InMemoryDerivedOutputCache := ⟨.empty, ⟨.empty⟩, fun _ _ => none⟩

/-- What is stored in memory is read back as it was. -/
theorem storesReadBack_inMemory (s : Session InMemoryDerivedOutputCache) (e : SessionEvent) :
    StoresReadBack digest ports s e := by
  cases e with
  | append message => trivial
  | command command => exact fun _ c _ => InMemoryDerivedOutputCache.readsBack _

/-- An append that leaves the topics of the cached conversation alone. -/
theorem neverStale_other_topic :
    NeverStale plainDigest mockPorts .new
      ([.append (said "m-1" "c-1" "alice" "rust?"), .command .replay,
        .append (said "m-2" "c-2" "bob" "sqlite?"), .command (.warmup ⟨"c-1"⟩)].foldl
        (Session.apply plainDigest mockPorts .new) new) := by
  let M := (machine InMemoryDerivedOutputCache plainDigest mockPorts .new).guarded fun s e =>
    KeepsInputs plainDigest mockPorts s e ∧ StoresReadBack plainDigest mockPorts s e
  let next := Session.apply (κ := InMemoryDerivedOutputCache) plainDigest mockPorts .new
  let s₁ := next new (.append (said "m-1" "c-1" "alice" "rust?"))
  let s₂ := next s₁ (.command .replay)
  let s₃ := next s₂ (.append (said "m-2" "c-2" "bob" "sqlite?"))
  have h₁ : M.step new (.append (said "m-1" "c-1" "alice" "rust?")) s₁ :=
    ⟨⟨by decide +kernel, trivial⟩, rfl⟩
  have h₂ : M.step s₁ (.command .replay) s₂ := ⟨⟨trivial, storesReadBack_inMemory _ _⟩, rfl⟩
  have h₃ : M.step s₂ (.append (said "m-2" "c-2" "bob" "sqlite?")) s₃ :=
    ⟨⟨by decide +kernel, trivial⟩, rfl⟩
  have h₄ : M.step s₃ (.command (.warmup ⟨"c-1"⟩)) (next s₃ (.command (.warmup ⟨"c-1"⟩))) :=
    ⟨⟨trivial, storesReadBack_inMemory _ _⟩, rfl⟩
  exact neverStale_of_reachable
    ⟨new, _, ⟨rfl, fun _ _ _ => rfl⟩, .cons h₁ <| .cons h₂ <| .cons h₃ <| .cons h₄ <| .nil _⟩

/-- A session that is stale: after a `replay`, another author writes about the same topic in another
conversation. -/
def anotherExpert : List SessionEvent :=
  [.append (said "m-1" "c-1" "alice" "rust?"), .command .replay,
    .append (said "m-2" "c-2" "bob" "rust?")]

/-- The key of the first conversation is unchanged, so `warmup` still serves the hint that names
`alice` alone; a fresh run names `bob` too, and `verify` reports the divergence. -/
theorem stale_anotherExpert :
    CollisionFree plainDigest ∧ ∃ s : Session InMemoryDerivedOutputCache,
      (machine InMemoryDerivedOutputCache plainDigest mockPorts .new).Run new anotherExpert s ∧
      ¬NeverStale plainDigest mockPorts .new s ∧
      ⟨⟨"c-1"⟩, .diverged⟩ ∈ verify plainDigest s.log (ProjectionStrategy mockPorts) s.cache
        (projectionVersion mockPorts) := by
  have hdiverged : ⟨⟨"c-1"⟩, .diverged⟩ ∈ verify plainDigest
      (anotherExpert.foldl (Session.apply plainDigest mockPorts .new) new).log
      (ProjectionStrategy mockPorts)
      (anotherExpert.foldl (Session.apply plainDigest mockPorts .new) new).cache
      (projectionVersion mockPorts) := by decide +kernel
  exact ⟨collisionFree_plainDigest, _, .of_foldl (fun _ _ => rfl) new anotherExpert,
    fun h => h.verify _ hdiverged rfl, hdiverged⟩

end Session

end Mirrorlane
