import Mirrorlane.Provider.Context
import Mirrorlane.Worker.Equiv.Derived
import Mirrorlane.Worker.Producers

/-!
# Entries and the content they are keyed by

An entry is `Derived` when its projections are the projections of the messages its key was computed
from.  A run writes projections it made from an earlier read of the log, so what decides is whether
the keying read still agrees with that earlier read on the conversations both have (`Agree`):
`derived_keyedEntries_iff` for one keying pass, `puts_derived` for whole runs.
-/

namespace Mirrorlane

namespace Producers

variable {ι κ : Type} {digest : List UInt8 → String} {ports : StrategyContext}
  {version : StepVersion}

/-- The entry is keyed by the hash of messages of its conversation, and its projections are the
projections of exactly these messages, in order. -/
structure Derived (digest : List UInt8 → String) (ports : StrategyContext) (e : KeyedEntry) :
    Prop where
  conversation : ∀ message ∈ e.messages, message.conversation.id = e.entry.conversation
  content : e.entry.content = contentHashOf digest e.messages
  projections : e.entry.derivation.projections = projectionsOf ports e.messages

/-- Every message of a conversation that the earlier read `read` has, as it is in `log`, has the
projection in `read` too: it is there under its id, and the projector answers the same. -/
def Agree (ports : StrategyContext) (read log : MessageLog) : Prop :=
  ∀ c ∈ log.conversationIds, c ∈ read.conversationIds → ∀ message ∈ log.messagesFor c,
    (read.get message.id).bind ports.projector.run = ports.projector.run message

instance (ports : StrategyContext) (read log : MessageLog) : Decidable (Agree ports read log) :=
  inferInstanceAs (Decidable (∀ c ∈ log.conversationIds, c ∈ read.conversationIds →
    ∀ message ∈ log.messagesFor c,
      (read.get message.id).bind ports.projector.run = ports.projector.run message))

/-! ### One keying pass -/

/-- The stored projection of any id. -/
theorem projections_runPhases (read : MessageLog) (id : MessageId) :
    (runPhases ports read).projections id = (read.get id).bind ports.projector.run := by
  rw [runPhases_eq]
  cases hget : read.get id with
  | some message =>
    obtain ⟨hm, rfl⟩ := MessageLog.get_eq_some_iff.mp hget
    exact derivedStores_projections hm
  | none =>
    rw [Option.bind_none, ← Option.not_isSome_iff_eq_none, isSome_derivedStores_projections]
    rintro ⟨message, hm, rfl, -⟩
    rw [MessageLog.get_of_mem hm] at hget
    cases hget

/-- What one keying pass puts. -/
theorem mem_keyedEntries {read log : MessageLog} {e : KeyedEntry} :
    e ∈ keyedEntries digest ports read log ↔
      ∃ c ∈ log.conversationIds, e.messages = log.messagesFor c ∧ e.entry.conversation = c ∧
        e.entry.content = contentHashOf digest (log.messagesFor c) ∧
        derivationFromMessages (runPhases ports read) c (log.messagesFor c) =
          some e.entry.derivation := by
  unfold keyedEntries
  rw [List.mem_filterMap, messageGroups_eq]
  constructor
  · rintro ⟨group, hgroup, he⟩
    obtain ⟨c, hc, rfl⟩ := List.mem_map.mp hgroup
    obtain ⟨entry, hentry, rfl⟩ := Option.map_eq_some_iff.mp he
    obtain ⟨derivation, hd, rfl⟩ := Option.map_eq_some_iff.mp hentry
    exact ⟨c, hc, rfl, rfl, rfl, hd⟩
  · rintro ⟨c, hc, hmessages, rfl, hcontent, hd⟩
    refine ⟨_, List.mem_map_of_mem hc, ?_⟩
    obtain ⟨messages, conversation, content, derivation⟩ := e
    simp only at hmessages hcontent hd
    subst hmessages hcontent
    simp only [entryFor, hd, Option.map_some]

/-- A projection list is read off the stores message by message. -/
theorem filterMap_eq_projectionsOf_iff {log : MessageLog} {c : ConversationId}
    (f : MessageEnvelope → Option Projection)
    (hf : ∀ {message p}, f message = some p → p.messageId = message.id) :
    (log.messagesFor c).filterMap f = projectionsOf ports (log.messagesFor c) ↔
      ∀ message ∈ log.messagesFor c, f message = ports.projector.run message := by
  constructor
  · intro heq message hm
    have hnodup := log.nodup_messagesFor c
    refine Option.ext fun p => ?_
    -- a projection of either list belongs to one message of the conversation
    rw [← mem_filterMap_and_messageId_iff hnodup hf hm,
      ← mem_filterMap_and_messageId_iff hnodup (fun h => ports.projector.run_messageId h) hm, heq]
    rfl
  · exact List.filterMap_congr

variable (digest) in
/-- **One keying pass.** What a run over `read` puts when it keys `log` is derived from what it is
keyed by if and only if the two reads agree. -/
theorem derived_keyedEntries_iff {read log : MessageLog} :
    (∀ e ∈ keyedEntries digest ports read log, Derived digest ports e) ↔ Agree ports read log := by
  have hown : ∀ {message : MessageEnvelope} {p : Projection},
      (runPhases ports read).projections message.id = some p → p.messageId = message.id :=
    fun h => (runPhases ports read).projections.own h
  have hwarmup : ∀ c, ((runPhases ports read).warmups c).isSome ↔ c ∈ read.conversationIds := by
    intro c
    rw [runPhases_eq, derivedStores_warmups]
    split_ifs with h <;> simp [h]
  constructor
  · intro hall c hc hread message hm
    obtain ⟨warmup, hw⟩ := Option.isSome_iff_exists.mp ((hwarmup c).mpr hread)
    obtain ⟨derivation, hd⟩ : ∃ derivation,
        derivationFromMessages (runPhases ports read) c (log.messagesFor c) = some derivation := by
      unfold derivationFromMessages
      rw [hw]
      exact ⟨_, rfl⟩
    have hderived := hall
      ⟨log.messagesFor c, ⟨c, contentHashOf digest (log.messagesFor c), derivation⟩⟩
      (mem_keyedEntries.mpr ⟨c, hc, rfl, rfl, rfl, hd⟩)
    obtain ⟨_, -, rfl⟩ := Option.map_eq_some_iff.mp hd
    -- the two lists agree as a whole, hence message by message
    have heach := (filterMap_eq_projectionsOf_iff _ hown).mp hderived.projections message hm
    rw [← heach, projections_runPhases]
  · intro hagree e he
    obtain ⟨c, hc, hmessages, hconv, hcontent, hd⟩ := mem_keyedEntries.mp he
    obtain ⟨warmup, hw, hderivation⟩ := Option.map_eq_some_iff.mp hd
    -- a conversation that is new to the keying read has no warm-up, so it has no entry
    have hread : c ∈ read.conversationIds := (hwarmup c).mp (by rw [hw]; rfl)
    refine ⟨?_, ?_, ?_⟩
    · intro message hm
      rw [hmessages] at hm
      rw [hconv]
      exact (MessageLog.mem_messagesFor.mp hm).2
    · rw [hcontent, hmessages]
    · rw [← hderivation, hmessages]
      refine (filterMap_eq_projectionsOf_iff _ hown).mpr fun message hm => ?_
      rw [projections_runPhases]
      exact hagree c hc hread message hm

/-! ### Whole runs -/

variable [DecidableEq ι] [DerivedOutputCache κ]

/-- When a producing run keys the log, the log agrees with what its strategy read. -/
def KeysWhatItRead (ports : StrategyContext) (s : Producers ι κ) : ProducerEvent ι → Prop
  | .key i => ∀ read, s.producers i = .ran read → Agree ports read s.log
  | .append _ | .run _ | .put _ | .finish _ => True

/-- Everything that was put, and everything a run is about to put, is derived from its key. -/
structure Inv (digest : List UInt8 → String) (ports : StrategyContext) (s : Producers ι κ) :
    Prop where
  puts : ∀ e ∈ s.puts, Derived digest ports e
  pending : ∀ i pending, s.producers i = .putting pending → ∀ e ∈ pending, Derived digest ports e

omit [DerivedOutputCache κ] in
/-- A producing run that moves keeps the invariant when what it will put is derived. -/
theorem Inv.moved {s : Producers ι κ} (h : Inv digest ports s) (i : ι) {p : Producer}
    (hp : ∀ pending, p = .putting pending → ∀ e ∈ pending, Derived digest ports e) :
    Inv digest ports (s.moved i p) where
  puts := h.puts
  pending j pending hj := by
    by_cases hji : j = i
    · subst hji
      rw [moved_self] at hj
      exact hp pending hj
    · rw [moved_of_ne s hji] at hj
      exact h.pending j pending hj

/-- **One step.** -/
theorem Inv.step {s t : Producers ι κ} {e : ProducerEvent ι} (h : Inv digest ports s)
    (hstep : ((machine ι κ digest ports version).guarded (KeysWhatItRead ports)).step s e t) :
    Inv digest ports t := by
  obtain ⟨hguard, hmove⟩ := hstep
  cases hmove with
  -- the invariant says nothing of the log: a put stays derived whatever is appended after it
  | append message => exact ⟨h.puts, h.pending⟩
  | run hi => exact h.moved _ fun pending hp => by cases hp
  | key hi =>
    refine h.moved _ fun pending hp => ?_
    cases hp
    exact (derived_keyedEntries_iff digest).mpr (hguard _ hi)
  | @put i first rest hi =>
    have hall := h.pending i _ hi
    have hstored : Inv digest ports (s.stored version first) := by
      refine ⟨fun e he => ?_, h.pending⟩
      rcases List.mem_append.mp he with he | he
      · exact h.puts e he
      · rw [List.mem_singleton.mp he]
        exact hall _ List.mem_cons_self
    refine hstored.moved _ fun pending hp => ?_
    cases hp
    exact fun e he => hall e (List.mem_cons_of_mem _ he)
  | finish hi => exact h.moved _ fun pending hp => by cases hp

/-- **Every entry that is put is derived from what its key names**, in every run whose keying reads
agree with the reads of the strategy. -/
theorem puts_derived {s : Producers ι κ}
    (h : ((machine ι κ digest ports version).guarded (KeysWhatItRead ports)).Reachable s) :
    ∀ e ∈ s.puts, Derived digest ports e := by
  have hinv : Inv digest ports s := by
    refine h.invariant ?_ fun hs hstep => hs.step hstep
    rintro s ⟨hidle, hputs⟩
    refine ⟨by rw [hputs]; simp, fun i pending hi => ?_⟩
    rw [hidle i] at hi
    cases hi
  exact hinv.puts

/-- A keying read that does not agree is followed by a put that is not derived. -/
theorem exists_put_not_derived {s : Producers ι κ} {i : ι} {read : MessageLog}
    (hi : s.producers i = .ran read) (hne : ¬Agree ports read s.log) :
    ∃ es t, (machine ι κ digest ports version).Run s (.key i :: es) t ∧
      ∃ e ∈ t.puts, ¬Derived digest ports e := by
  rw [← derived_keyedEntries_iff digest] at hne
  push Not at hne
  obtain ⟨e, he, hderived⟩ := hne
  obtain ⟨es, t, hrun, -, -, hputs⟩ := run_of_putting digest ports version _
    (moved_self s i (.putting (keyedEntries digest ports read s.log)))
  refine ⟨es, t, .cons (.key hi) hrun, e, ?_, hderived⟩
  rw [hputs]
  exact List.mem_append_right _ he

/-! ### Two interleavings -/

/-- A question of a conversation. -/
def question (id c : String) : MessageEnvelope :=
  ⟨⟨id⟩, .manual, ⟨⟨"alice"⟩, "Alice"⟩, ⟨⟨c⟩, none⟩, "rust?"⟩

/-- Nothing was logged, cached or put yet. -/
def start : Producers Unit InMemoryDerivedOutputCache :=
  ⟨.empty, ⟨.empty⟩, fun _ => .idle, []⟩

/-- A message of another conversation between the two reads does no harm. -/
theorem puts_derived_other_conversation :
    ∃ s : Producers Unit InMemoryDerivedOutputCache,
      (machine Unit InMemoryDerivedOutputCache plainDigest mockPorts ⟨"v"⟩).Run start
        [.append (question "m-1" "c-1"), .run (), .append (question "m-2" "c-2"), .key (),
          .put ()] s ∧
      s.puts.length = 1 ∧ ∀ e ∈ s.puts, Derived plainDigest mockPorts e := by
  let read := MessageLog.empty.append (question "m-1" "c-1")
  let log := read.append (question "m-2" "c-2")
  obtain ⟨e, hkeyed⟩ : ∃ e, keyedEntries plainDigest mockPorts read log = [e] :=
    List.length_eq_one_iff.mp (by decide +kernel)
  have hagree : Agree mockPorts read log := by decide +kernel
  let M := (machine Unit InMemoryDerivedOutputCache plainDigest mockPorts ⟨"v"⟩).guarded
    (KeysWhatItRead mockPorts)
  have hguard : ∀ read', Producer.ran read = .ran read' → Agree mockPorts read' log := by
    rintro _ ⟨⟩
    exact hagree
  have hrun : ∃ s, M.Run start [.append (question "m-1" "c-1"), .run (),
      .append (question "m-2" "c-2"), .key (), .put ()] s ∧ s.puts = [e] := by
    refine ⟨_, .cons ⟨trivial, .append _⟩ <| .cons ⟨trivial, .run rfl⟩ <|
      .cons ⟨trivial, .append _⟩ <| .cons ⟨hguard, .key rfl⟩ <|
      .cons ⟨trivial, .put (by rw [moved_self]; exact congrArg Producer.putting hkeyed)⟩ <|
      .nil _, rfl⟩
  obtain ⟨s, hrun, hputs⟩ := hrun
  have hreachable : M.Reachable s := ⟨start, _, ⟨fun _ => rfl, rfl⟩, hrun⟩
  exact ⟨s, hrun.of_guarded, by rw [hputs]; rfl, puts_derived hreachable⟩

/-- A message of the same conversation between the two reads: what is put under the key of two
messages has the projection of the first one only. -/
theorem put_not_derived :
    CollisionFree plainDigest ∧ ∃ s : Producers Unit InMemoryDerivedOutputCache,
      (machine Unit InMemoryDerivedOutputCache plainDigest mockPorts ⟨"v"⟩).Run start
        [.append (question "m-1" "c-1"), .run (), .append (question "m-2" "c-1"), .key (),
          .put ()] s ∧
      ∃ e ∈ s.puts, ¬Derived plainDigest mockPorts e := by
  let read := MessageLog.empty.append (question "m-1" "c-1")
  let log := read.append (question "m-2" "c-1")
  obtain ⟨e, hkeyed⟩ : ∃ e, keyedEntries plainDigest mockPorts read log = [e] :=
    List.length_eq_one_iff.mp (by decide +kernel)
  have hne : ¬Derived plainDigest mockPorts e := by
    intro he
    have hagree : Agree mockPorts read log := by
      rw [← derived_keyedEntries_iff plainDigest, hkeyed]
      simpa using he
    revert hagree
    decide +kernel
  refine ⟨collisionFree_plainDigest, _, .cons (.append _) <| .cons (.run rfl) <|
    .cons (.append _) <| .cons (.key rfl) <|
    .cons (.put (by rw [moved_self]; exact congrArg Producer.putting hkeyed)) <| .nil _,
    e, ?_, hne⟩
  simp [stored]

end Producers

end Mirrorlane
