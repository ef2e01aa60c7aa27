import Mirrorlane.Cli.Equiv.Cycles

/-!
# What reclaiming removes

A cycle deletes every row of a conversation but the one under its own version and content hash.
Neither is the last word: the next command may select the other strategy or provider again, and the
log can return a conversation to what it was (`exists_appends_messagesFor`).  So every row that is
removed is one that some later `warmup` looks up, and reclaiming is safe exactly when it removes
nothing: when no conversation is ever derived again under another key.

## Main results

* `exists_lookup`: every key that was written is looked up in some continuation
* `neverHit_iff`
* `reclaimed_row_is_hit`: two versions that take turns
-/

namespace Mirrorlane

/-! ### A log that returns -/

namespace MessageLog

theorem foldl_append_all (messages : List MessageEnvelope) (log : MessageLog) :
    (messages.foldl append log).all = upsertAll MessageEnvelope.id messages log.all := by
  induction messages generalizing log with
  | nil => rfl
  | cons message messages ih => exact ih (log.append message)

/-- Every id of the old log is in the new one, in the same place. -/
def Extends (log old : MessageLog) : Prop :=
  ∃ new, log.all.map MessageEnvelope.id = old.all.map MessageEnvelope.id ++ new

theorem Extends.refl (log : MessageLog) : log.Extends log :=
  ⟨[], (List.append_nil _).symm⟩

theorem Extends.append {log old : MessageLog} (h : log.Extends old) (message : MessageEnvelope) :
    (log.append message).Extends old := by
  obtain ⟨new, hnew⟩ := h
  unfold Extends
  rw [append_all, map_upsertBy, hnew]
  split_ifs
  · exact ⟨new, rfl⟩
  · exact ⟨new ++ [message.id], List.append_assoc ..⟩

/-- Another conversation. -/
def otherConversation (c : ConversationId) : ConversationId := ⟨c.val ++ "'"⟩

theorem otherConversation_ne (c : ConversationId) : otherConversation c ≠ c := by
  intro h
  have hlength := congrArg (fun c : ConversationId => c.val.length) h
  simp [otherConversation] at hlength

/-- The message as it was in an old log; one that is new is moved out of the conversation. -/
def restored (old : MessageLog) (c : ConversationId) (message : MessageEnvelope) :
    MessageEnvelope :=
  (old.get message.id).getD
    { message with conversation := { message.conversation with id := otherConversation c } }

theorem restored_id (old : MessageLog) (c : ConversationId) (message : MessageEnvelope) :
    (old.restored c message).id = message.id := by
  unfold restored
  cases hget : old.get message.id with
  | none => rfl
  | some m => exact (get_eq_some_iff.mp hget).2

/-- What a restored message contributes to the conversation: the old message, if it was there. -/
theorem filter_restored (old : MessageLog) (c : ConversationId) (message : MessageEnvelope) :
    (some (old.restored c message)).filter (fun m => m.conversation.id = c) =
      (old.get message.id).filter fun m => m.conversation.id = c := by
  unfold restored
  cases hget : old.get message.id with
  | none =>
    have hne := otherConversation_ne c
    simp [hne]
  | some m => rfl

/-- **A conversation can return to what it was**, by re-appending messages. -/
theorem exists_appends_messagesFor {log old : MessageLog} (h : log.Extends old)
    (c : ConversationId) : ∃ messages : List MessageEnvelope,
      (messages.foldl append log).messagesFor c = old.messagesFor c := by
  obtain ⟨new, hnew⟩ := h
  refine ⟨log.all.map (old.restored c), ?_⟩
  unfold messagesFor
  rw [foldl_append_all, upsertAll_map_self (restored_id old c) log.nodup]
  -- both sides list, id by id, what the old log has of the conversation
  let kept : MessageId → Option MessageEnvelope := fun id =>
    (old.get id).filter fun m => m.conversation.id = c
  have hleft : (log.all.map (old.restored c)).filter (fun m => m.conversation.id = c) =
      (log.all.map MessageEnvelope.id).filterMap kept := by
    rw [← List.filterMap_eq_map, List.filter_filterMap, List.filterMap_map]
    exact List.filterMap_congr fun message _ => filter_restored old c message
  have hright : (old.all.map MessageEnvelope.id).filterMap kept =
      old.all.filter fun m => m.conversation.id = c := by
    rw [List.filterMap_map, ← List.filterMap_eq_filter]
    refine List.filterMap_congr fun message hm => ?_
    show (old.get message.id).filter _ = _
    rw [get_of_mem hm]
    rfl
  have hnone : new.filterMap kept = [] := by
    rw [List.filterMap_eq_nil_iff]
    intro id hid
    have hget : old.get id = none := by
      have hnodup := log.nodup
      rw [hnew, List.nodup_append] at hnodup
      rw [← Option.not_isSome_iff_eq_none, isSome_get]
      exact fun hmem => hnodup.2.2 _ hmem _ hid rfl
    show (old.get id).filter _ = none
    rw [hget]
    rfl
  rw [hleft, hnew, List.filterMap_append, hright, hnone, List.append_nil]

end MessageLog

namespace Delivery

variable {τ : Type} {json : CacheJson τ} (digest : List UInt8 → String)

/-- The event removes the row. -/
def Removes (s : Delivery json) (e : DeliveryEvent) (key : DerivedKey) : Prop :=
  (s.table.rows key).isSome ∧ (s.apply digest e).table.rows key = none

/-- No removed row is hit again: whatever follows the removal, no `warmup` looks up its key. -/
def NeverHit (json : CacheJson τ) (digest : List UInt8 → String) (events : List DeliveryEvent) :
    Prop :=
  ∀ pre e post, events = pre ++ e :: post → ∀ key, (after json digest pre).Removes digest e key →
    ∀ (continuation : List DeliveryEvent) (reader : DeliveryEvent),
      (after json digest (pre ++ e :: continuation)).lookup digest reader ≠ some key

/-- Where the event runs a cycle that derives a conversation and prunes it, all earlier cycles that
derived the conversation did it under the same version and content hash. -/
def SameKey (s : Delivery json) (e : DeliveryEvent) : Prop :=
  ∀ cycle, s.cycle digest e = some cycle → ∀ c, cycle.Derives s.log c → cycle.prunes c →
    ∀ key ∈ s.written, key.2.1 = c → key = cycle.key digest s.log c

/-- Every event of the history finds the keys it would write. -/
def KeepsKeys (json : CacheJson τ) (digest : List UInt8 → String) (events : List DeliveryEvent) :
    Prop :=
  ∀ pre e post, events = pre ++ e :: post → (after json digest pre).SameKey digest e

variable {digest} {s : Delivery json} {e : DeliveryEvent} {key : DerivedKey}

/-! ### One event -/

@[simp] theorem appended_table (s : Delivery json) (e : DeliveryEvent) :
    (s.appended e).table = s.table := by
  cases e <;> rfl

@[simp] theorem appended_written (s : Delivery json) (e : DeliveryEvent) :
    (s.appended e).written = s.written := by
  cases e <;> rfl

theorem mem_written_publish {cycle : Cycle} :
    key ∈ (s.publish digest cycle).written ↔
      key ∈ s.written ∨ cycle.Derives s.log key.2.1 ∧ key = cycle.key digest s.log key.2.1 := by
  show key ∈ s.written ++ _ ↔ _
  rw [List.mem_append, List.mem_map]
  refine or_congr Iff.rfl ⟨?_, fun ⟨hd, hkey⟩ => ?_⟩
  · rintro ⟨c, hc, rfl⟩
    exact ⟨of_decide_eq_true (List.mem_filter.mp hc).2, rfl⟩
  · exact ⟨key.2.1, List.mem_filter.mpr ⟨hd.1, decide_eq_true hd⟩, hkey.symm⟩

theorem rows_publish (s : Delivery json) (cycle : Cycle) (key : DerivedKey) :
    (s.publish digest cycle).table.rows key =
      if cycle.Derives s.log key.2.1 then
        if key = cycle.key digest s.log key.2.1 then
          (derivationFor s.log cycle.stores key.2.1).map json.derivation.write
        else if cycle.prunes key.2.1 then none else s.table.rows key
      else s.table.rows key :=
  cycle.rows_populate digest s.log s.table key.1 key.2.1 key.2.2

/-- What was written once stays listed. -/
theorem mem_written_apply (h : key ∈ s.written) (e : DeliveryEvent) :
    key ∈ (s.apply digest e).written := by
  cases hcycle : s.cycle digest e with
  | none =>
    rw [apply_of_none hcycle, appended_written]
    exact h
  | some cycle =>
    rw [apply_of_cycle hcycle, mem_written_publish]
    exact Or.inl h

/-- A key is listed after an event because it was before, or because its row was written. -/
theorem mem_written_of_apply (h : key ∈ (s.apply digest e).written) :
    key ∈ s.written ∨ ((s.apply digest e).table.rows key).isSome := by
  cases hcycle : s.cycle digest e with
  | none =>
    rw [apply_of_none hcycle, appended_written] at h
    exact Or.inl h
  | some cycle =>
    rw [apply_of_cycle hcycle, mem_written_publish] at h
    rcases h with h | ⟨hd, hkey⟩
    · exact Or.inl h
    · right
      rw [apply_of_cycle hcycle, rows_publish, if_pos hd, if_pos hkey, derivationFor,
        Option.isSome_map, Option.isSome_map]
      exact hd.2

/-! ### Histories -/

/-- Every row was written by a cycle. -/
theorem mem_written_of_isSome (events : List DeliveryEvent)
    (h : ((after json digest events).table.rows key).isSome) :
    key ∈ (after json digest events).written := by
  induction events using List.reverseRecOn with
  | nil => exact absurd h Bool.false_ne_true
  | append_singleton events e ih =>
    rw [after_concat] at h ⊢
    cases hcycle : (after json digest events).cycle digest e with
    | none =>
      rw [apply_of_none hcycle, appended_table] at h
      exact mem_written_apply (ih h) e
    | some cycle =>
      rw [apply_of_cycle hcycle] at h ⊢
      rw [rows_publish] at h
      rw [mem_written_publish]
      split_ifs at h with hd hkey hprune
      · exact Or.inr ⟨hd, hkey⟩
      · exact absurd h Bool.false_ne_true
      · exact Or.inl (ih h)
      · exact Or.inl (ih h)

/-- Every key that was written is the key of its conversation in a log the present one extends. -/
theorem exists_source (events : List DeliveryEvent) (h : key ∈ (after json digest events).written) :
    ∃ old, (after json digest events).log.Extends old ∧
      key.2.2 = contentHash digest old key.2.1 := by
  induction events using List.reverseRecOn with
  | nil => exact absurd h List.not_mem_nil
  | append_singleton events e ih =>
    rw [after_concat] at h ⊢
    cases hcycle : (after json digest events).cycle digest e with
    | none =>
      rw [apply_of_none hcycle] at h ⊢
      rw [appended_written] at h
      obtain ⟨old, hextends, hcontent⟩ := ih h
      refine ⟨old, ?_, hcontent⟩
      cases e with
      | append message => exact hextends.append message
      | produce cycle => exact hextends
      | warmup c cycle => exact hextends
    | some cycle =>
      rw [apply_of_cycle hcycle] at h ⊢
      rcases mem_written_publish.mp h with h | ⟨-, hkey⟩
      · exact ih h
      · exact ⟨(after json digest events).log, .refl _, congrArg (fun key => key.2.2) hkey⟩

theorem after_appends (events : List DeliveryEvent) (messages : List MessageEnvelope) :
    (after json digest (events ++ messages.map .append)).log =
      messages.foldl MessageLog.append (after json digest events).log := by
  induction messages using List.reverseRecOn with
  | nil => rw [List.map_nil, List.append_nil, List.foldl_nil]
  | append_singleton messages message ih =>
    rw [List.map_append, List.map_singleton, ← List.append_assoc, after_concat, List.foldl_concat,
      ← ih]
    rfl

/-- **Every key that was written is looked up in some continuation.** The log returns to the content
the key was computed from, and a `warmup` selects its version again. -/
theorem exists_lookup (events : List DeliveryEvent) (h : key ∈ (after json digest events).written) :
    ∃ continuation reader,
      (after json digest (events ++ continuation)).lookup digest reader = some key := by
  obtain ⟨old, hextends, hcontent⟩ := exists_source events h
  obtain ⟨messages, hmessages⟩ := MessageLog.exists_appends_messagesFor hextends key.2.1
  refine ⟨messages.map .append,
    .warmup key.2.1 ⟨key.1, EmptyStrategy .empty, fun _ => false⟩, ?_⟩
  show some (key.1, key.2.1, contentHashOf digest
    ((after json digest (events ++ messages.map .append)).log.messagesFor key.2.1)) = some key
  rw [after_appends, hmessages, ← contentHash_eq, ← hcontent]

/-- A key that was written and has no row lost it to some event. -/
theorem exists_removes (events : List DeliveryEvent) (h : key ∈ (after json digest events).written)
    (hrow : (after json digest events).table.rows key = none) :
    ∃ pre e post, events = pre ++ e :: post ∧ (after json digest pre).Removes digest e key := by
  induction events using List.reverseRecOn with
  | nil => exact absurd h List.not_mem_nil
  | append_singleton events e ih =>
    rw [after_concat] at h hrow
    cases hbefore : (after json digest events).table.rows key with
    | some derivation =>
      -- this event removed it
      exact ⟨events, e, [], rfl, by rw [hbefore]; rfl, hrow⟩
    | none =>
      have hwritten : key ∈ (after json digest events).written := by
        rcases mem_written_of_apply h with h | hsome
        · exact h
        · rw [hrow] at hsome
          exact absurd hsome Bool.false_ne_true
      obtain ⟨pre, e', post, rfl, hremoves⟩ := ih hwritten hbefore
      exact ⟨pre, e', post ++ [e], by simp, hremoves⟩

/-- A row is removed by a cycle that derives its conversation under another key. -/
theorem Removes.exists_cycle (h : s.Removes digest e key) :
    ∃ cycle, s.cycle digest e = some cycle ∧ cycle.Derives s.log key.2.1 ∧
      cycle.prunes key.2.1 ∧ key ≠ cycle.key digest s.log key.2.1 := by
  obtain ⟨hbefore, hafter⟩ := h
  cases hcycle : s.cycle digest e with
  | none =>
    rw [apply_of_none hcycle, appended_table] at hafter
    rw [hafter] at hbefore
    exact absurd hbefore Bool.false_ne_true
  | some cycle =>
    rw [apply_of_cycle hcycle, rows_publish] at hafter
    refine ⟨cycle, rfl, ?_⟩
    split_ifs at hafter with hd hkey hprune
    · -- the key the cycle writes has a row afterwards
      have hsome : ((derivationFor s.log cycle.stores key.2.1).map
          json.derivation.write).isSome := by
        rw [Option.isSome_map, derivationFor, Option.isSome_map]
        exact hd.2
      rw [hafter] at hsome
      exact absurd hsome Bool.false_ne_true
    · exact ⟨hd, hprune, hkey⟩
    · rw [hafter] at hbefore
      exact absurd hbefore Bool.false_ne_true
    · rw [hafter] at hbefore
      exact absurd hbefore Bool.false_ne_true

/-- **When reclaiming never removes a row that a later read could hit.** Exactly when no
conversation is derived, by a cycle whose prune succeeds, under another version or content hash than
it was derived under before. -/
theorem neverHit_iff (json : CacheJson τ) (digest : List UInt8 → String)
    (events : List DeliveryEvent) :
    NeverHit json digest events ↔ KeepsKeys json digest events := by
  constructor
  · rintro h pre e post rfl cycle hcycle c hd hprune key hkey rfl
    by_contra hne
    -- the key has no row after this event, so this event or an earlier one removed it
    have hwritten : key ∈ (after json digest (pre ++ [e])).written := by
      rw [after_concat]
      exact mem_written_apply hkey e
    have hrow : (after json digest (pre ++ [e])).table.rows key = none := by
      rw [after_concat, apply_of_cycle hcycle, rows_publish, if_pos hd, if_neg hne, if_pos hprune]
    obtain ⟨pre', e', post', hsplit, hremoves⟩ := exists_removes _ hwritten hrow
    have hlost : key ∈ (after json digest (pre' ++ [e'])).written := by
      rw [after_concat]
      exact mem_written_apply (mem_written_of_isSome pre' hremoves.1) e'
    obtain ⟨continuation, reader, hlookup⟩ := exists_lookup _ hlost
    rw [List.append_assoc] at hlookup
    have hevents : pre ++ e :: post = pre' ++ e' :: (post' ++ post) := by
      have hassoc := congrArg (· ++ post) hsplit
      simpa using hassoc
    exact h pre' e' (post' ++ post) hevents key hremoves continuation reader hlookup
  · intro h pre e post hsplit key hremoves
    obtain ⟨cycle, hcycle, hd, hprune, hne⟩ := hremoves.exists_cycle
    have hwritten := mem_written_of_isSome pre hremoves.1
    exact absurd (h pre e post hsplit cycle hcycle key.2.1 hd hprune key hwritten rfl) hne

/-- A cycle over one question, under a version. -/
def questionCycle (version : StepVersion) : Cycle :=
  ⟨version, runPhases mockPorts (MessageLog.empty.append (Producers.question "m-1" "c-1")),
    fun _ => true⟩

/-- A replay with one projector and then with another one: the second removes the row of the first,
and a `warmup` with the first projector again looks exactly that row up. -/
theorem reclaimed_row_is_hit :
    let first := questionCycle (derivationVersion StrategyRegistry.default ⟨"mock"⟩)
    let second := questionCycle (derivationVersion StrategyRegistry.default ⟨"model"⟩)
    let events := [.append (Producers.question "m-1" "c-1"), .produce first]
    let key := first.key plainDigest (after (.decoded id) plainDigest events).log ⟨"c-1"⟩
    (after (.decoded id) plainDigest events).Removes plainDigest (.produce second) key ∧
      (after (.decoded id) plainDigest (events ++ [.produce second])).lookup plainDigest
        (.warmup ⟨"c-1"⟩ first) = some key ∧
      ¬NeverHit (.decoded id) plainDigest (events ++ [.produce second]) := by
  intro first second events key
  have hremoves :
      (after (.decoded id) plainDigest events).Removes plainDigest (.produce second) key :=
    ⟨by decide +kernel, by decide +kernel⟩
  have hlookup : (after (.decoded id) plainDigest (events ++ [.produce second])).lookup plainDigest
      (.warmup ⟨"c-1"⟩ first) = some key := by decide +kernel
  exact ⟨hremoves, hlookup, fun h => h events _ [] rfl key hremoves [] _ hlookup⟩

end Delivery

end Mirrorlane
