import Mirrorlane.Cli.Deliveries
import Mirrorlane.Worker.Equiv.SinglePass

/-!
# What a delivery cycle leaves in the table

`rows_populate` gives every row after a cycle: the conversations the cycle derived have the row it
wrote and, where the prune failed, what they had before; every other conversation has what it had.
With all prunes succeeding the table is bounded by one row per conversation.

## Main results

* `Cycle.rows_populate`
* `Pass.table_bounded`
-/

namespace Mirrorlane

namespace Cycle

variable {τ : Type} {json : CacheJson τ} (digest : List UInt8 → String) (cycle : Cycle)

/-! ### One write -/

theorem rows_pruneSuperseded (t : DerivedRows json) (conversation : ConversationId)
    (keepVersion : StepVersion) (keepContent : String) (v : StepVersion) (c : ConversationId)
    (content : String) :
    (t.pruneSuperseded conversation keepVersion keepContent).rows (v, c, content) =
      if c = conversation ∧ ¬(v = keepVersion ∧ content = keepContent) then none
      else t.rows (v, c, content) :=
  ite_not ..

/-- Every row after one write. -/
theorem rows_putEntry (t : DerivedRows json) (entry : CacheEntry) (v : StepVersion)
    (c : ConversationId) (content : String) :
    (cycle.putEntry t entry).rows (v, c, content) =
      if c = entry.conversation then
        if v = cycle.version ∧ content = entry.content then
          some (json.derivation.write entry.derivation)
        else if cycle.prunes c then none else t.rows (v, c, content)
      else t.rows (v, c, content) := by
  have hput : (DerivedOutputCache.put t cycle.version entry.conversation entry.content
      entry.derivation).rows (v, c, content) =
      if v = cycle.version ∧ c = entry.conversation ∧ content = entry.content then
        some (json.derivation.write entry.derivation)
      else t.rows (v, c, content) := by
    simp only [DerivedOutputCache.put, KeyedStore.insert_apply, Prod.mk.injEq]
  unfold putEntry
  cases hp : cycle.prunes entry.conversation with
  | false =>
    rw [if_neg Bool.false_ne_true, hput]
    by_cases hc : c = entry.conversation
    · subst hc
      simp [hp]
    · simp [hc]
  | true =>
    rw [if_pos rfl, rows_pruneSuperseded, hput]
    by_cases hc : c = entry.conversation
    · subst hc
      by_cases hkey : v = cycle.version ∧ content = entry.content
      · simp [hkey]
      · simp [hkey, hp]
    · simp [hc]

/-! ### The whole cycle -/

/-- A conversation without a write keeps its rows. -/
theorem rows_putEntries_of_notMem {entries : List CacheEntry} {c : ConversationId}
    (h : c ∉ entries.map CacheEntry.conversation) (t : DerivedRows json) (v : StepVersion)
    (content : String) :
    (entries.foldl cycle.putEntry t).rows (v, c, content) = t.rows (v, c, content) := by
  induction entries generalizing t with
  | nil => rfl
  | cons entry entries ih =>
    rw [List.map_cons, List.mem_cons, not_or] at h
    rw [List.foldl_cons, ih h.2, rows_putEntry, if_neg h.1]

/-- The rows of a conversation that is written once. -/
theorem rows_putEntries_of_mem {entries : List CacheEntry} {entry : CacheEntry}
    (hnodup : (entries.map CacheEntry.conversation).Nodup) (h : entry ∈ entries)
    (t : DerivedRows json) (v : StepVersion) (content : String) :
    (entries.foldl cycle.putEntry t).rows (v, entry.conversation, content) =
      if v = cycle.version ∧ content = entry.content then
        some (json.derivation.write entry.derivation)
      else if cycle.prunes entry.conversation then none
      else t.rows (v, entry.conversation, content) := by
  induction entries generalizing t with
  | nil => exact absurd h List.not_mem_nil
  | cons first entries ih =>
    rw [List.map_cons, List.nodup_cons] at hnodup
    rw [List.foldl_cons]
    rcases List.mem_cons.mp h with rfl | hmem
    · -- the writes after it are of other conversations
      rw [rows_putEntries_of_notMem cycle hnodup.1, rows_putEntry, if_pos rfl]
    · have hne : entry.conversation ≠ first.conversation := fun heq =>
        hnodup.1 (heq ▸ List.mem_map_of_mem hmem)
      rw [ih hnodup.2 hmem, rows_putEntry, if_neg hne]

/-- **Every row after a cycle.** -/
theorem rows_populate (log : MessageLog) (t : DerivedRows json) (v : StepVersion)
    (c : ConversationId) (content : String) :
    (cycle.populate digest log t).rows (v, c, content) =
      if cycle.Derives log c then
        if (v, c, content) = cycle.key digest log c then
          (derivationFor log cycle.stores c).map json.derivation.write
        else if cycle.prunes c then none else t.rows (v, c, content)
      else t.rows (v, c, content) := by
  have hnodup := nodup_cacheEntries digest log cycle.stores
  unfold populate
  by_cases hd : cycle.Derives log c
  · obtain ⟨hc, hwarmup⟩ := hd
    obtain ⟨derivation, hderivation⟩ : ∃ derivation,
        derivationFor log cycle.stores c = some derivation := by
      obtain ⟨warmup, hw⟩ := Option.isSome_iff_exists.mp hwarmup
      unfold derivationFor
      rw [hw]
      exact ⟨_, rfl⟩
    have hmem : ⟨c, contentHash digest log c, derivation⟩ ∈ cacheEntries digest log cycle.stores :=
      mem_cacheEntries.mpr ⟨hc, rfl, hderivation⟩
    have hrows := rows_putEntries_of_mem cycle hnodup hmem t v content
    rw [if_pos ⟨hc, hwarmup⟩, hderivation, hrows]
    simp [key]
  · -- no entry of the pass is of this conversation
    rw [if_neg hd, rows_putEntries_of_notMem]
    intro hmem
    obtain ⟨entry, hentry, rfl⟩ := List.mem_map.mp hmem
    obtain ⟨hc, -, hderivation⟩ := mem_cacheEntries.mp hentry
    obtain ⟨warmup, hw, -⟩ := Option.map_eq_some_iff.mp hderivation
    exact hd ⟨hc, by rw [hw]; rfl⟩

end Cycle

/-! ### The bound -/

/-- What one `populateCache` is called with. -/
structure Pass where
  version : StepVersion
  log : MessageLog
  stores : ReplayStores

namespace Pass

variable {τ : Type} {json : CacheJson τ} (digest : List UInt8 → String)

/-- The table after the pass. -/
def run (t : DerivedRows json) (pass : Pass) : DerivedRows json :=
  (populateCache digest pass.log pass.stores t pass.version).1

/-- The pass as a cycle whose prunes all succeed. -/
def cycle (pass : Pass) : Cycle := ⟨pass.version, pass.stores, fun _ => true⟩

/-- The pass derives the conversation. -/
def Derives (pass : Pass) (c : ConversationId) : Prop := pass.cycle.Derives pass.log c

/-- The table has at most one row of each conversation. -/
def OneRow (t : DerivedRows json) : Prop :=
  ∀ c v content v' content', (t.rows (v, c, content)).isSome → (t.rows (v', c, content')).isSome →
    v = v' ∧ content = content'

variable {digest}

/-- The rows of a conversation that the pass derives: the one it wrote. -/
theorem rows_run_of_derives {pass : Pass} {c : ConversationId} (h : pass.Derives c)
    (t : DerivedRows json) (v : StepVersion) (content : String) :
    (pass.run digest t).rows (v, c, content) =
      if v = pass.version ∧ content = contentHash digest pass.log c then
        (derivationFor pass.log pass.stores c).map json.derivation.write
      else none := by
  have hrun : pass.run digest t = pass.cycle.populate digest pass.log t :=
    (pass.cycle.populate_eq_populateCache digest pass.log t fun _ => rfl).symm
  have hderives : pass.cycle.Derives pass.log c := h
  have hkey : (v, c, content) = pass.cycle.key digest pass.log c ↔
      v = pass.version ∧ content = contentHash digest pass.log c := by
    simp [Cycle.key, cycle]
  rw [hrun, Cycle.rows_populate, if_pos hderives]
  by_cases hk : v = pass.version ∧ content = contentHash digest pass.log c
  · rw [if_pos hk, if_pos (hkey.mpr hk)]
    rfl
  · rw [if_neg hk, if_neg fun heq => hk (hkey.mp heq)]
    rfl

/-- The rows of a conversation that the pass does not derive. -/
theorem rows_run_of_not {pass : Pass} {c : ConversationId} (h : ¬pass.Derives c)
    (t : DerivedRows json) (v : StepVersion) (content : String) :
    (pass.run digest t).rows (v, c, content) = t.rows (v, c, content) := by
  have hrun : pass.run digest t = pass.cycle.populate digest pass.log t :=
    (pass.cycle.populate_eq_populateCache digest pass.log t fun _ => rfl).symm
  have hderives : ¬pass.cycle.Derives pass.log c := h
  rw [hrun, Cycle.rows_populate, if_neg hderives]

theorem isSome_derivationFor_of_derives {pass : Pass} {c : ConversationId} (h : pass.Derives c) :
    (derivationFor pass.log pass.stores c).isSome := by
  have hwarmup : (pass.stores.warmups c).isSome := h.2
  unfold derivationFor
  rw [Option.isSome_map]
  exact hwarmup

/-- The row that is there, and no other. -/
theorem isSome_rows_run {pass : Pass} {c : ConversationId} (h : pass.Derives c)
    (t : DerivedRows json) (v : StepVersion) (content : String) :
    ((pass.run digest t).rows (v, c, content)).isSome ↔
      v = pass.version ∧ content = contentHash digest pass.log c := by
  rw [rows_run_of_derives h]
  split_ifs with hk
  · rw [Option.isSome_map]
    exact iff_of_true (isSome_derivationFor_of_derives h) hk
  · exact iff_of_false Bool.false_ne_true hk

/-- **One pass.** -/
theorem OneRow.run {t : DerivedRows json} (h : OneRow t) (pass : Pass) :
    OneRow (pass.run digest t) := by
  intro c v content v' content' hv hv'
  by_cases hd : pass.Derives c
  · rw [isSome_rows_run hd] at hv hv'
    exact ⟨hv.1.trans hv'.1.symm, hv.2.trans hv'.2.symm⟩
  · rw [rows_run_of_not hd] at hv hv'
    exact h c v content v' content' hv hv'

/-- **Any passes.** -/
theorem oneRow_foldl {t : DerivedRows json} (h : OneRow t) (passes : List Pass) :
    OneRow (passes.foldl (run digest) t) := by
  induction passes generalizing t with
  | nil => exact h
  | cons pass passes ih => exact ih (h.run pass)

/-- **The table is bounded by one row per conversation.** After any passes from an empty table,
whatever their versions, logs and stores, and a further one: no conversation has two rows; each
conversation the last pass derived has exactly the row it wrote, under its version and content hash;
and the rows of every other conversation are those before it. -/
theorem table_bounded (json : CacheJson τ) (digest : List UInt8 → String) (passes : List Pass)
    (last : Pass) :
    let before := passes.foldl (run digest) (⟨.empty⟩ : DerivedRows json)
    let table := last.run digest before
    OneRow table ∧
      (∀ c, last.Derives c →
        table.rows (last.version, c, contentHash digest last.log c) =
          (derivationFor last.log last.stores c).map json.derivation.write ∧
        ∀ v content, (table.rows (v, c, content)).isSome ↔
          v = last.version ∧ content = contentHash digest last.log c) ∧
      ∀ c, ¬last.Derives c → ∀ v content,
        table.rows (v, c, content) = before.rows (v, c, content) := by
  intro before table
  have hempty : OneRow (⟨.empty⟩ : DerivedRows json) :=
    fun c v content v' content' hv _ => absurd hv Bool.false_ne_true
  refine ⟨(oneRow_foldl hempty passes).run last, fun c hd => ⟨?_, fun v content => ?_⟩,
    fun c hd v content => rows_run_of_not hd before v content⟩
  · show (last.run digest before).rows _ = _
    rw [rows_run_of_derives hd, if_pos ⟨rfl, rfl⟩]
  · exact isSome_rows_run hd before v content

end Pass

end Mirrorlane
