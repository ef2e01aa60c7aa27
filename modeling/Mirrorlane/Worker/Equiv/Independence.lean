import Mirrorlane.Worker.Equiv.Locality

/-!
# Independent parts of a log

Expertise spans conversations, so the derivation of a conversation may change with messages of
others.  When no topic of one part of the log occurs in the rest, and nobody who writes in both goes
by two names, the part is independent: its derivations are those of the part alone, however its
messages and the others were interleaved.

## Main results

* `derivationOf_restrict`
-/

namespace Mirrorlane

/-! ### A part of a log -/

namespace MessageLog

/-- The messages of some conversations. -/
def restrict (log : MessageLog) (p : ConversationId → Bool) : MessageLog where
  all := log.all.filter fun message => p message.conversation.id
  nodup := log.nodup.sublist (List.filter_sublist.map _)

variable {log : MessageLog} {p : ConversationId → Bool}

theorem messagesFor_restrict {c : ConversationId} (hc : p c = true) :
    (log.restrict p).messagesFor c = log.messagesFor c := by
  unfold messagesFor restrict
  rw [List.filter_filter]
  refine List.filter_congr fun message _ => ?_
  by_cases h : message.conversation.id = c
  · simp [h, hc]
  · simp [h]

theorem conversationIds_restrict :
    (log.restrict p).conversationIds = log.conversationIds.filter p := by
  unfold conversationIds
  rw [← firstSeen_filter, List.filter_map]
  rfl

end MessageLog

/-! ### The evidence of a part -/

section Evidence

open MessageSkillBuilder

variable {α : Type} {contribution : α → Option SkillContribution} {q : α → Bool} {xs : List α}
  {author : String}

theorem touches_cons (c : SkillContribution) (contributions : List SkillContribution)
    (topic : String) :
    touches (c :: contributions) author topic =
      (if c.author.val = author then
        (c.topics.filter fun t => t.val = topic).map fun _ => c.confidence.get
      else []) ++ touches contributions author topic := by
  unfold touches byAuthor
  by_cases h : c.author.val = author <;> simp [h]

theorem lastName_concat (contributions : List SkillContribution) (c : SkillContribution) :
    lastName (contributions ++ [c]) author =
      if c.author.val = author then some c.displayName else lastName contributions author := by
  unfold lastName byAuthor
  by_cases h : c.author.val = author <;> simp [h]

/-- Contributions without a topic are no evidence for it. -/
theorem touches_filter {topic : Topic}
    (h : ∀ x ∈ xs, q x = false → ∀ c, contribution x = some c → topic ∉ c.topics) :
    touches ((xs.filter q).filterMap contribution) author topic.val =
      touches (xs.filterMap contribution) author topic.val := by
  induction xs with
  | nil => rfl
  | cons x xs ih =>
    have hrest := ih fun y hy => h y (List.mem_cons_of_mem _ hy)
    cases hc : contribution x with
    | none =>
      rw [List.filterMap_cons_none hc, ← hrest]
      cases hq : q x with
      | true => rw [List.filter_cons_of_pos hq, List.filterMap_cons_none hc]
      | false => rw [List.filter_cons_of_neg (by simp [hq])]
    | some c =>
      rw [List.filterMap_cons_some hc, touches_cons, ← hrest]
      cases hq : q x with
      | true => rw [List.filter_cons_of_pos hq, List.filterMap_cons_some hc, touches_cons]
      | false =>
        have htopic : c.topics.filter (fun t => t.val = topic.val) = [] := by
          rw [List.filter_eq_nil_iff]
          intro t ht htopic
          have heq : t = topic := congrArg Topic.mk (of_decide_eq_true htopic)
          exact h x List.mem_cons_self hq c hc (heq ▸ ht)
        rw [List.filter_cons_of_neg (by simp [hq]), htopic, List.map_nil, ite_self,
          List.nil_append]

/-- The last name of an author among some contributions is the name of one of them. -/
theorem exists_of_lastName {contributions : List SkillContribution} {name : String}
    (h : lastName contributions author = some name) :
    ∃ c ∈ contributions, c.author.val = author ∧ c.displayName = name := by
  obtain ⟨c, hlast, hname⟩ := Option.map_eq_some_iff.mp h
  obtain ⟨hmem, hauthor⟩ := List.mem_filter.mp (List.mem_of_getLast? hlast)
  exact ⟨c, hmem, by simpa using hauthor, hname⟩

/-- An author with one name on both sides has it on each side. -/
theorem lastName_filter
    (h : ∀ x ∈ xs, ∀ y ∈ xs, q x = true → q y = false → ∀ c d, contribution x = some c →
      contribution y = some d → c.author.val = author → d.author.val = author →
        c.displayName = d.displayName)
    (hsome : (lastName ((xs.filter q).filterMap contribution) author).isSome) :
    lastName ((xs.filter q).filterMap contribution) author =
      lastName (xs.filterMap contribution) author := by
  induction xs using List.reverseRecOn with
  | nil => rfl
  | append_singleton xs x ih =>
    have hxs : ∀ {y}, y ∈ xs → y ∈ xs ++ [x] := fun hy => List.mem_append_left _ hy
    have hprefix := ih fun y hy z hz => h y (hxs hy) z (hxs hz)
    cases hc : contribution x with
    | none =>
      have hnone : [x].filterMap contribution = [] := List.filterMap_cons_none hc
      have hnone' : ([x].filter q).filterMap contribution = [] := by
        cases hq : q x <;> simp [hq, hc]
      rw [List.filter_append, List.filterMap_append, hnone', List.append_nil] at hsome ⊢
      rw [List.filterMap_append, hnone, List.append_nil]
      exact hprefix hsome
    | some c =>
      have hsome' : [x].filterMap contribution = [c] := List.filterMap_cons_some hc
      rw [List.filterMap_append, hsome', lastName_concat]
      cases hq : q x with
      | true =>
        have hone : [x].filter q = [x] := List.filter_cons_of_pos hq
        rw [List.filter_append, List.filterMap_append, hone, hsome', lastName_concat] at hsome ⊢
        split_ifs at hsome ⊢
        · rfl
        · exact hprefix hsome
      | false =>
        have hnone : [x].filter q = [] := List.filter_cons_of_neg (by simp [hq])
        rw [List.filter_append, hnone, List.append_nil] at hsome ⊢
        split_ifs with hauthor
        · -- the author's last contribution is on the other side, under the same name
          obtain ⟨name, hname⟩ := Option.isSome_iff_exists.mp hsome
          obtain ⟨d, hd, hauthor', rfl⟩ := exists_of_lastName hname
          obtain ⟨y, hy, hcontribution⟩ := List.mem_filterMap.mp hd
          obtain ⟨hmem, hqy⟩ := List.mem_filter.mp hy
          rw [hname, h y (hxs hmem) x List.mem_concat_self hqy hq d c hcontribution hc hauthor'
            hauthor]
        · exact hprefix hsome

end Evidence

/-! ### Independence -/

section Independence

open MessageSkillBuilder

/-- The topics of a message. -/
def topicsIn (projector : Projector) (message : MessageEnvelope) : List Topic :=
  ((projector.run message).map Projection.topics).getD []

/-- The messages of some conversations and the others have no topic in common, and nobody goes by
different names on the two sides. -/
structure Independent (projector : Projector) (log : MessageLog) (p : ConversationId → Bool) :
    Prop where
  topics : ∀ message ∈ log.all, ∀ other ∈ log.all, p message.conversation.id = true →
    p other.conversation.id = false →
      ∀ topic ∈ topicsIn projector message, topic ∉ topicsIn projector other
  names : ∀ message ∈ log.all, ∀ other ∈ log.all, p message.conversation.id = true →
    p other.conversation.id = false → message.author.id = other.author.id →
      message.author.displayName = other.author.displayName

variable {r : Rounding} {toLowercase : String → String} {projector : Projector} {log : MessageLog}
  {p : ConversationId → Bool} {c : ConversationId}

theorem topics_of_contributionOf {ports : StrategyContext} {message : MessageEnvelope}
    {contribution : SkillContribution} (h : contributionOf ports message = some contribution) :
    contribution.topics = topicsIn ports.projector message ∧
      contribution.author = message.author.id ∧
        contribution.displayName = message.author.displayName := by
  obtain ⟨projection, hrun, rfl⟩ := Option.map_eq_some_iff.mp h
  unfold topicsIn
  rw [hrun]
  exact ⟨rfl, rfl, rfl⟩

/-- A conversation of an independent part has the inputs of the part. -/
theorem sameInputs_restrict (h : Independent projector log p) (hc : p c = true) :
    SameInputs (providerPorts r toLowercase projector) (log.restrict p) log c := by
  have hmessages : (log.restrict p).messagesFor c = _ := MessageLog.messagesFor_restrict hc
  refine sameInputs_of_evidence (by rw [hmessages]) (by rw [hmessages]) ?_ ?_
  · intro topic htopic author
    refine touches_filter fun other hother hq contribution hcontribution => ?_
    obtain ⟨projection, hprojection, ht⟩ := mem_topicsOf.mp htopic
    obtain ⟨message, hmessage, hrun⟩ := mem_projectionsOf.mp hprojection
    obtain ⟨hmem, hconv⟩ := MessageLog.mem_messagesFor.mp hmessage
    have hin : topic ∈ topicsIn projector message := by
      unfold topicsIn
      rw [show projector.run message = some projection from hrun]
      exact ht
    rw [(topics_of_contributionOf hcontribution).1]
    exact h.topics message hmem other hother (by rw [hconv]; exact hc) hq topic hin
  · intro topic htopic author htouches
    refine lastName_filter ?_ ?_
    · intro message hmessage other hother hp hq d d' hd hd' hauthor hauthor'
      obtain ⟨-, hid, hname⟩ := topics_of_contributionOf hd
      obtain ⟨-, hid', hname'⟩ := topics_of_contributionOf hd'
      rw [hname, hname']
      refine h.names message hmessage other hother hp hq ?_
      rw [← hid, ← hid']
      exact congrArg AuthorId.mk (hauthor.trans hauthor'.symm)
    · obtain ⟨d, hd, -⟩ := touches_ne_nil_iff.mp htouches
      unfold lastName
      rw [Option.isSome_map, List.getLast?_isSome]
      exact List.ne_nil_of_mem hd

/-- **Independence.** A conversation of an independent part has the derivation that the part alone
gives it. -/
theorem derivationOf_restrict (h : Independent projector log p) (hc : p c = true) :
    derivationOf (providerPorts r toLowercase projector) (log.restrict p) c =
      derivationOf (providerPorts r toLowercase projector) log c :=
  derivationOf_congr (sameInputs_restrict h hc)

end Independence

end Mirrorlane
