import Mirrorlane.Worker.Derived
import Mirrorlane.Worker.Equiv.Schedules

/-!
# What the keying pass leaves in a cache

`derivationOf ports log c` is the derivation of a conversation in terms of the ports, without
stores.  A run that keys the log it was run over writes exactly these (`cacheEntries_runPhases`).

For any lawful cache the writes have three effects: every written key answers its derivation
(`get_putEntries_of_mem`), conversations without a write keep what they had
(`get_putEntries_of_notMem`), and an answer afterwards is a write or was there before
(`get_putEntries`).
-/

namespace Mirrorlane

variable {ports : StrategyContext} {log : MessageLog}

/-! ### Derivations of a run -/

/-- The derivation of a conversation. -/
def derivationOf (ports : StrategyContext) (log : MessageLog) (c : ConversationId) :
    ConversationDerivation :=
  let projections := projectionsOf ports (log.messagesFor c)
  { conversation := c
    projections
    scope := some (scopeOf ports log c)
    warmup := warmupOf ports log c
    developers := some (developersOf ports log c)
    hints := projections.map (hintOf ports log) }

theorem derivationFromMessages_runPhases (c : ConversationId) :
    derivationFromMessages (runPhases ports log) c (log.messagesFor c) =
      if c ∈ log.conversationIds then some (derivationOf ports log c) else none := by
  have hprojections : (log.messagesFor c).filterMap
      (fun message => (derivedStores ports log).projections message.id) =
      projectionsOf ports (log.messagesFor c) :=
    List.filterMap_congr fun message hm =>
      derivedStores_projections (MessageLog.mem_messagesFor.mp hm).1
  have hhints : (log.messagesFor c).filterMap
      (fun message => (derivedStores ports log).hints message.id) =
      (projectionsOf ports (log.messagesFor c)).map (hintOf ports log) := by
    unfold projectionsOf
    rw [List.map_filterMap]
    exact List.filterMap_congr fun message hm =>
      derivedStores_hints (MessageLog.mem_messagesFor.mp hm).1
  rw [runPhases_eq, derivationFromMessages, hprojections, hhints, derivedStores_warmups,
    derivedStores_scopes, derivedStores_developers]
  split_ifs <;> rfl

/-- A run has the derivation of every conversation of its log, and no other. -/
theorem derivationFor_runPhases (c : ConversationId) :
    derivationFor log (runPhases ports log) c =
      if c ∈ log.conversationIds then some (derivationOf ports log c) else none := by
  rw [derivationFor_eq, derivationFromMessages_runPhases]

/-- The messages of a conversation that no projection is of. -/
theorem filter_unprojected (ports : StrategyContext) (log : MessageLog) (c : ConversationId) :
    ((messagesIn log c).filter fun id =>
      id ∉ (projectionsOf ports (log.messagesFor c)).map Projection.messageId) =
    ((log.messagesFor c).filter fun message =>
      (ports.projector.run message).isNone).map MessageEnvelope.id := by
  show ((log.messagesFor c).map MessageEnvelope.id).filter _ = _
  rw [List.filter_map]
  refine congrArg _ (List.filter_congr fun message hm => ?_)
  have hmem : message.id ∈ (projectionsOf ports (log.messagesFor c)).map Projection.messageId ↔
      (ports.projector.run message).isSome := by
    rw [List.mem_map, Option.isSome_iff_exists]
    exact exists_congr fun p => mem_filterMap_and_messageId_iff (log.nodup_messagesFor c)
      (fun hrun => ports.projector.run_messageId hrun) hm
  rw [Function.comp_apply, Bool.eq_iff_iff, decide_eq_true_iff, hmem,
    Option.not_isSome_iff_eq_none, Option.isNone_iff_eq_none]

/-! ### The entries of a log -/

variable (digest : List UInt8 → String)

theorem messageGroups_eq (log : MessageLog) :
    messageGroups log = log.conversationIds.map fun c => (c, log.messagesFor c) := by
  unfold messageGroups
  rw [groupFirstSeen_eq]
  refine List.map_congr_left fun c _ => ?_
  rw [List.map_id']
  rfl

/-- The conversations written are pairwise different. -/
theorem nodup_cacheEntries (log : MessageLog) (stores : ReplayStores) :
    ((cacheEntries digest log stores).map CacheEntry.conversation).Nodup := by
  have hsub : ∀ groups : List (ConversationId × List MessageEnvelope),
      ((groups.filterMap (entryFor digest stores)).map CacheEntry.conversation).Sublist
        (groups.map Prod.fst) := by
    intro groups
    induction groups with
    | nil => exact List.Sublist.slnil
    | cons group groups ih =>
      rw [List.filterMap_cons]
      cases h : entryFor digest stores group with
      | none => exact ih.cons _
      | some entry =>
        obtain ⟨derivation, -, rfl⟩ := Option.map_eq_some_iff.mp h
        exact ih.cons_cons _
  have hkeys : (messageGroups log).map Prod.fst = log.conversationIds := by
    rw [messageGroups_eq, List.map_map]
    exact List.map_id _
  exact (nodup_firstSeen _).sublist (hkeys ▸ hsub (messageGroups log))

/-- **A run that keys its own log writes the derivation of every conversation.** -/
theorem cacheEntries_runPhases (ports : StrategyContext) (log : MessageLog) :
    cacheEntries digest log (runPhases ports log) = log.conversationIds.map fun c =>
      ⟨c, contentHashOf digest (log.messagesFor c), derivationOf ports log c⟩ := by
  unfold cacheEntries
  rw [messageGroups_eq, List.filterMap_map, ← List.filterMap_eq_map]
  refine List.filterMap_congr fun c hc => ?_
  show (derivationFromMessages (runPhases ports log) c (log.messagesFor c)).map _ = _
  rw [derivationFromMessages_runPhases, if_pos hc]
  rfl

/-! ### Writing entries -/

section Lawful

open DerivedOutputCache

variable {κ : Type} [DerivedOutputCache κ] [LawfulDerivedOutputCache κ] {version : StepVersion}

/-- An entry as the cache answers it. -/
def CacheEntry.readBack (κ : Type) [DerivedOutputCache κ] [LawfulDerivedOutputCache κ]
    (entry : CacheEntry) : CacheEntry :=
  { entry with derivation := entry.derivation.mapNumbers (LawfulDerivedOutputCache.number κ) }

/-- A write answers its own key. -/
theorem get_putEntry_self (cache : κ) (entry : CacheEntry) :
    get (putEntry version cache entry) version entry.conversation entry.content =
      some (entry.readBack κ).derivation := by
  unfold putEntry
  rw [LawfulDerivedOutputCache.get_reclaim_kept _ _ _ _ _ _ _ fun _ => ⟨rfl, rfl⟩,
    LawfulDerivedOutputCache.get_put, if_pos ⟨rfl, rfl, rfl⟩]
  rfl

/-- A write leaves other conversations alone. -/
theorem get_putEntry_of_ne (cache : κ) {entry : CacheEntry} {v : StepVersion} {c : ConversationId}
    {content : String} (h : c ≠ entry.conversation) :
    get (putEntry version cache entry) v c content = get cache v c content := by
  unfold putEntry
  rw [LawfulDerivedOutputCache.get_reclaim_kept _ _ _ _ _ _ _ fun hc => absurd hc h,
    LawfulDerivedOutputCache.get_put, if_neg fun hkey => h hkey.2.1]

/-- An answer after a write is the write or was there before. -/
theorem get_putEntry {cache : κ} {entry : CacheEntry} {v : StepVersion} {c : ConversationId}
    {content : String} {derivation : ConversationDerivation}
    (h : get (putEntry version cache entry) v c content = some derivation) :
    (v = version ∧ entry.readBack κ = ⟨c, content, derivation⟩) ∨
      get cache v c content = some derivation := by
  have hput := LawfulDerivedOutputCache.get_reclaim _ _ _ _ _ _ _ _ h
  rw [LawfulDerivedOutputCache.get_put] at hput
  split_ifs at hput with hkey
  · obtain ⟨rfl, rfl, rfl⟩ := hkey
    left
    rw [← Option.some.inj hput]
    exact ⟨rfl, rfl⟩
  · exact Or.inr hput

theorem get_putEntries_of_notMem (cache : κ) {entries : List CacheEntry} {v : StepVersion}
    {c : ConversationId} {content : String} (h : c ∉ entries.map CacheEntry.conversation) :
    get (entries.foldl (putEntry version) cache) v c content = get cache v c content := by
  induction entries generalizing cache with
  | nil => rfl
  | cons entry entries ih =>
    rw [List.map_cons, List.mem_cons, not_or] at h
    rw [List.foldl_cons, ih _ h.2, get_putEntry_of_ne cache h.1]

theorem get_putEntries_of_mem (cache : κ) {entries : List CacheEntry}
    (hnodup : (entries.map CacheEntry.conversation).Nodup) {entry : CacheEntry}
    (h : entry ∈ entries) :
    get (entries.foldl (putEntry version) cache) version entry.conversation entry.content =
      some (entry.readBack κ).derivation := by
  induction entries generalizing cache with
  | nil => cases h
  | cons first entries ih =>
    rw [List.map_cons, List.nodup_cons] at hnodup
    rw [List.foldl_cons]
    rcases List.mem_cons.mp h with rfl | hmem
    · -- the entries after it are of other conversations, so they reclaim nothing of it
      rw [get_putEntries_of_notMem _ hnodup.1, get_putEntry_self]
    · exact ih _ hnodup.2 hmem

theorem get_putEntries {cache : κ} {entries : List CacheEntry} {v : StepVersion}
    {c : ConversationId} {content : String} {derivation : ConversationDerivation}
    (h : get (entries.foldl (putEntry version) cache) v c content = some derivation) :
    (v = version ∧ ⟨c, content, derivation⟩ ∈ entries.map (CacheEntry.readBack κ)) ∨
      get cache v c content = some derivation := by
  induction entries generalizing cache with
  | nil => exact Or.inr h
  | cons entry entries ih =>
    rcases ih h with ⟨hv, hmem⟩ | hcache
    · exact Or.inl ⟨hv, List.mem_cons_of_mem _ hmem⟩
    · rcases get_putEntry hcache with ⟨hv, hentry⟩ | hold
      · exact Or.inl ⟨hv, List.mem_cons.mpr (Or.inl hentry.symm)⟩
      · exact Or.inr hold

end Lawful

end Mirrorlane
