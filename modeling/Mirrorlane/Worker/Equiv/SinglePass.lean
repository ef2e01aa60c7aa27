import Mirrorlane.Storage.SqliteDerivedOutputCache
import Mirrorlane.Worker.Equiv.Derived
import Mirrorlane.Worker.Equiv.Producers

/-!
# The single pass is the per-conversation definition

`populateCache` groups the log once; `derivationFor` scans it for every conversation.  Both extract
the same derivations, and what is written for one conversation survives what the pass writes and
reclaims for the others.

## Main results

* `cacheEntries_eq`: the writes of the pass, conversation by conversation
* `populateCache_singlePass`
-/

namespace Mirrorlane

open DerivedOutputCache

variable (digest : List UInt8 → String) (log : MessageLog) (stores : ReplayStores)

/-- What the pass writes for one conversation. -/
def entryOf (c : ConversationId) : Option CacheEntry :=
  (derivationFor log stores c).map fun derivation => ⟨c, contentHash digest log c, derivation⟩

/-- **The writes of the pass**, conversation by conversation. -/
theorem cacheEntries_eq :
    cacheEntries digest log stores = (conversations log).filterMap (entryOf digest log stores) := by
  unfold cacheEntries
  rw [messageGroups_eq, List.filterMap_map, conversations_eq]
  refine List.filterMap_congr fun c _ => ?_
  show (derivationFromMessages stores c (log.messagesFor c)).map _ = _
  unfold entryOf
  rw [derivationFor_eq, contentHash_eq]

/-- A derivation is of the conversation it was extracted for. -/
theorem conversation_of_derivationFor {c : ConversationId} {derivation : ConversationDerivation}
    (h : derivationFor log stores c = some derivation) : derivation.conversation = c := by
  obtain ⟨warmup, -, rfl⟩ := Option.map_eq_some_iff.mp h
  rfl

variable {digest log stores}

theorem mem_cacheEntries {entry : CacheEntry} :
    entry ∈ cacheEntries digest log stores ↔ entry.conversation ∈ conversations log ∧
      entry.content = contentHash digest log entry.conversation ∧
      derivationFor log stores entry.conversation = some entry.derivation := by
  rw [cacheEntries_eq, List.mem_filterMap]
  constructor
  · rintro ⟨c, hc, hentry⟩
    obtain ⟨derivation, hd, rfl⟩ := Option.map_eq_some_iff.mp hentry
    exact ⟨hc, rfl, hd⟩
  · rintro ⟨hc, hcontent, hd⟩
    refine ⟨entry.conversation, hc, ?_⟩
    unfold entryOf
    rw [hd, ← hcontent]
    rfl

variable (digest log stores)

/-- The derivations the pass returns. -/
theorem populateCache_snd {κ : Type} [DerivedOutputCache κ] (cache : κ) (version : StepVersion) :
    (populateCache digest log stores cache version).2 =
      (conversations log).filterMap (derivationFor log stores) := by
  show (cacheEntries digest log stores).map CacheEntry.derivation = _
  rw [cacheEntries_eq, List.map_filterMap]
  refine List.filterMap_congr fun c _ => ?_
  unfold entryOf
  rw [Option.map_map]
  exact Option.map_id' ..

/-- What a conversation's key answers after a pass that derived it. -/
theorem get_populateCache {κ : Type} [DerivedOutputCache κ] [LawfulDerivedOutputCache κ]
    (cache : κ) (version : StepVersion) {c : ConversationId} (hc : c ∈ conversations log)
    (hd : (derivationFor log stores c).isSome) :
    get (populateCache digest log stores cache version).1 version c (contentHash digest log c) =
      (derivationFor log stores c).map
        (ConversationDerivation.mapNumbers (LawfulDerivedOutputCache.number κ)) := by
  obtain ⟨derivation, hd⟩ := Option.isSome_iff_exists.mp hd
  have hmem : ⟨c, contentHash digest log c, derivation⟩ ∈ cacheEntries digest log stores :=
    mem_cacheEntries.mpr ⟨hc, rfl, hd⟩
  rw [hd]
  exact get_putEntries_of_mem cache (nodup_cacheEntries digest log stores) hmem

/-- **The single pass equals the per-conversation definition.** It returns the derivation of every
conversation of the log, in first-seen order; both content hashes are the key it writes under; and
afterwards the cache, whatever it held, answers each returned conversation's key with its
derivation, as it reads derivations back as they were put. -/
theorem populateCache_singlePass {κ : Type} [DerivedOutputCache κ] [LawfulDerivedOutputCache κ]
    (hround : ∀ d, LawfulDerivedOutputCache.ReadsBack κ d) (cache : κ) (version : StepVersion) :
    (populateCache digest log stores cache version).2 =
        (conversations log).filterMap (derivationFor log stores) ∧
      (∀ c, contentHash digest log c = contentHashOf digest (log.messagesFor c)) ∧
      (cacheEntries digest log stores).map (fun entry => (entry.conversation, entry.content)) =
        ((populateCache digest log stores cache version).2.map
          ConversationDerivation.conversation).map (fun c => (c, contentHash digest log c)) ∧
      ∀ derivation ∈ (populateCache digest log stores cache version).2,
        get (populateCache digest log stores cache version).1 version derivation.conversation
          (contentHash digest log derivation.conversation) =
            derivationFor log stores derivation.conversation := by
  refine ⟨populateCache_snd .., contentHash_eq digest log, ?_, fun derivation hmem => ?_⟩
  · -- an entry is keyed by the conversation of the derivation it holds
    show _ = (((cacheEntries digest log stores).map CacheEntry.derivation).map
      ConversationDerivation.conversation).map _
    rw [List.map_map, List.map_map]
    refine List.map_congr_left fun entry hentry => ?_
    obtain ⟨-, hcontent, hd⟩ := mem_cacheEntries.mp hentry
    have hconversation := conversation_of_derivationFor log stores hd
    show (entry.conversation, entry.content) = (entry.derivation.conversation, _)
    rw [hcontent, hconversation]
  · rw [populateCache_snd] at hmem
    obtain ⟨c, hc, hd⟩ := List.mem_filterMap.mp hmem
    rw [conversation_of_derivationFor log stores hd]
    rw [get_populateCache digest log stores cache version hc (by rw [hd]; rfl)]
    exact LawfulDerivedOutputCache.map_mapNumbers hround _

/-- Two conversations that alternate in the log, over the mock ports: both caches answer both, also
when the table holds the rows of another version. -/
theorem populateCache_singlePass_alternating :
    let log := ((MessageLog.empty.append (Producers.question "m-1" "c-1")).append
      (Producers.question "m-2" "c-2")).append (Producers.question "m-3" "c-1")
    let stores := runPhases mockPorts log
    let memory : InMemoryDerivedOutputCache := ⟨.empty⟩
    let table := (populateCache plainDigest log stores (⟨.empty⟩ : DerivedRows (.decoded id))
      ⟨"v0"⟩).1
    let returned := (conversations log).filterMap (derivationFor log stores)
    returned.length = 2 ∧
      (∀ derivation ∈ returned,
        get (populateCache plainDigest log stores memory ⟨"v"⟩).1 ⟨"v"⟩ derivation.conversation
          (contentHash plainDigest log derivation.conversation) =
            derivationFor log stores derivation.conversation) ∧
      ∀ derivation ∈ returned,
        get (populateCache plainDigest log stores table ⟨"v"⟩).1 ⟨"v"⟩ derivation.conversation
          (contentHash plainDigest log derivation.conversation) =
            derivationFor log stores derivation.conversation := by
  intro log stores memory table returned
  have hmemory := populateCache_singlePass plainDigest log stores
    InMemoryDerivedOutputCache.readsBack memory ⟨"v"⟩
  have htable := populateCache_singlePass plainDigest log stores (DerivedRows.readsBack rfl) table
    ⟨"v"⟩
  refine ⟨by decide +kernel, fun derivation hd => ?_, fun derivation hd => ?_⟩
  · exact hmemory.2.2.2 derivation (by rw [hmemory.1]; exact hd)
  · exact htable.2.2.2 derivation (by rw [htable.1]; exact hd)

end Mirrorlane
