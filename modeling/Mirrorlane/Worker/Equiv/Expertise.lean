import Mathlib.Tactic.Linarith
import Mathlib.Tactic.Ring
import Mirrorlane.Llm.Projector
import Mirrorlane.Provider.Equiv.SkillIndex
import Mirrorlane.Worker.Jobs

/-!
# Expertise by messages and by mentions

`messageWeight` adds the confidences of an author's messages on a topic, each message once.  The
builder adds a confidence for every mention of the topic in a projection's topic list, and rounds
every addition: what it ranks by is the message weight plus the `mentionSurplus` of repeated
mentions plus the `sumDrift` of the roundings (`mentionTally_eq`), divided by the largest tally and
rounded again.  An author with more message weight precedes another one exactly when surplus and
drift do not make up for it and the two quotients are not rounded to one number
(`precedes_iff_lead`); a lead with some margin is kept (`keepsLead_of_margin`).
-/

namespace Mirrorlane

open MessageSkillBuilder

/-- The contributions `BuildSkillJob` aggregates. -/
def contributionsOfEntries (projections : InMemoryProjectionStore) (entries : List SkillEntry) :
    List SkillContribution :=
  entries.filterMap (SkillEntry.contribution projections)

/-- The stored projections of an author's messages. -/
def authored (projections : InMemoryProjectionStore) (entries : List SkillEntry)
    (author : AuthorId) : List Projection :=
  (entries.filter fun entry => entry.author = author).filterMap fun entry =>
    projections entry.message

section Entries

variable (r : Rounding) (projections : InMemoryProjectionStore) (entries : List SkillEntry)

/-- The confidence-weighted count of an author's messages on a topic. -/
def messageWeight (author : AuthorId) (topic : Topic) : ℚ :=
  (((authored projections entries author).filter fun p => topic ∈ p.topics).map fun p =>
    p.confidence.get).sum

/-- What the author's messages add by naming the topic more than once. -/
def mentionSurplus (author : AuthorId) (topic : Topic) : ℚ :=
  ((authored projections entries author).map fun p =>
    p.confidence.get * ((p.topics.count topic - 1 : ℕ) : ℚ)).sum

/-- The confidences of an author's messages, one for each mention of the topic. -/
def mentions (author : AuthorId) (topic : Topic) : List ℚ :=
  (authored projections entries author).flatMap fun p =>
    List.replicate (p.topics.count topic) p.confidence.get

/-- Their sum, with every addition rounded. -/
def mentionTally (author : AuthorId) (topic : Topic) : ℚ :=
  r.roundedSum (mentions projections entries author topic)

/-- What the roundings change of the sum. -/
def sumDrift (author : AuthorId) (topic : Topic) : ℚ :=
  mentionTally r projections entries author topic - (mentions projections entries author topic).sum

/-- The largest tally on a topic. -/
def topTally (topic : Topic) : ℚ :=
  largest ((entries.map SkillEntry.author).map fun author =>
    mentionTally r projections entries author topic)

/-- How often a sum is rounded, each time in proportion to the count. -/
def sumMargin (author : AuthorId) (topic : Topic) : ℚ :=
  (mentions projections entries author topic).length *
    ((mentions projections entries author topic).length + 1) / 2

/-- The shares of two authors in the largest tally are rounded to one number. -/
def SharesMerge (topic : Topic) (a b : AuthorId) : Prop :=
  r.round (mentionTally r projections entries a topic / topTally r projections entries topic) =
    r.round (mentionTally r projections entries b topic / topTally r projections entries topic)

instance (topic : Topic) (a b : AuthorId) :
    Decidable (SharesMerge r projections entries topic a b) :=
  inferInstanceAs (Decidable (_ = _))

/-! ### Mentions and messages -/

/-- What the builder adds up are the mentions. -/
theorem touches_contributionsOfEntries (author : AuthorId) (topic : Topic) :
    touches (contributionsOfEntries projections entries) author.val topic.val =
      mentions projections entries author topic := by
  unfold touches byAuthor contributionsOfEntries mentions authored
  simp only [map_occurrences, AuthorId.val_inj]
  induction entries with
  | nil => rfl
  | cons entry entries ih =>
    rw [List.filterMap_cons]
    unfold SkillEntry.contribution at ih ⊢
    by_cases hauthor : entry.author = author
    · rw [List.filter_cons_of_pos (by simpa using hauthor), List.filterMap_cons]
      cases projections entry.message with
      | none => exact ih
      | some p =>
        rw [Option.map_some, List.filter_cons_of_pos (by simpa using hauthor)]
        simp only [List.flatMap_cons]
        rw [ih]
    · rw [List.filter_cons_of_neg (by simpa using hauthor)]
      cases projections entry.message with
      | none => exact ih
      | some p =>
        rw [Option.map_some, List.filter_cons_of_neg (by simpa using hauthor)]
        exact ih

/-- The mentions add up to message weight and surplus. -/
theorem sum_mentions (author : AuthorId) (topic : Topic) :
    (mentions projections entries author topic).sum =
      messageWeight projections entries author topic +
        mentionSurplus projections entries author topic := by
  unfold mentions messageWeight mentionSurplus
  induction authored projections entries author with
  | nil => simp
  | cons p ps ih =>
    rw [List.flatMap_cons, List.sum_append, List.sum_replicate, nsmul_eq_mul, ih, List.map_cons,
      List.sum_cons]
    by_cases htopic : topic ∈ p.topics
    · -- the first mention is the message, the others are surplus
      have hcount : (p.topics.count topic : ℚ) = 1 + ((p.topics.count topic - 1 : ℕ) : ℚ) := by
        have hpos : 0 < p.topics.count topic := List.count_pos_iff.mpr htopic
        rw [Nat.cast_sub hpos, Nat.cast_one]
        ring
      rw [List.filter_cons_of_pos (by simpa using htopic), List.map_cons, List.sum_cons, hcount]
      ring
    · have hcount : p.topics.count topic = 0 := List.count_eq_zero.mpr htopic
      rw [List.filter_cons_of_neg (by simpa using htopic), hcount]
      simp

/-- **What the builder ranks by**: message weight, surplus and drift. -/
theorem mentionTally_eq (author : AuthorId) (topic : Topic) :
    mentionTally r projections entries author topic =
      messageWeight projections entries author topic +
        (mentionSurplus projections entries author topic +
          sumDrift r projections entries author topic) := by
  have hsum := sum_mentions projections entries author topic
  unfold sumDrift
  linarith

theorem mentions_mem_unit (author : AuthorId) (topic : Topic) :
    ∀ x ∈ mentions projections entries author topic, 0 ≤ x ∧ x ≤ 1 := by
  intro x hx
  obtain ⟨p, -, hp⟩ := List.mem_flatMap.mp hx
  rw [(List.mem_replicate.mp hp).2]
  exact ⟨p.confidence.get_nonneg, p.confidence.get_le_one⟩

theorem mentionTally_nonneg (author : AuthorId) (topic : Topic) :
    0 ≤ mentionTally r projections entries author topic :=
  r.roundedSum_nonneg fun x hx => (mentions_mem_unit projections entries author topic x hx).1

/-- An author names the topic when one of their contributions has it. -/
theorem mentions_ne_nil_iff {author : AuthorId} {topic : Topic} :
    mentions projections entries author topic ≠ [] ↔
      ∃ c ∈ contributionsOfEntries projections entries,
        c.author.val = author.val ∧ topic ∈ c.topics := by
  rw [← touches_contributionsOfEntries, touches_ne_nil_iff_exists]
  simp only [AuthorId.val_inj]

variable {projections entries}

/-- Who has message weight on a topic names it. -/
theorem mentions_ne_nil_of_pos {author : AuthorId} {topic : Topic}
    (h : 0 < messageWeight projections entries author topic) :
    mentions projections entries author topic ≠ [] := by
  intro hnil
  have hnone : (authored projections entries author).filter (fun p => topic ∈ p.topics) = [] := by
    refine List.filter_eq_nil_iff.mpr fun p hp htopic => ?_
    have hmem : p.confidence.get ∈ mentions projections entries author topic :=
      List.mem_flatMap.mpr ⟨p, hp, List.mem_replicate.mpr
        ⟨(List.count_pos_iff.mpr (of_decide_eq_true htopic)).ne', rfl⟩⟩
    rw [hnil] at hmem
    cases hmem
  rw [messageWeight, hnone] at h
  exact lt_irrefl _ h

/-- Without repeated mentions there is no surplus. -/
theorem mentionSurplus_eq_zero
    (h : ∀ entry ∈ entries, ∀ p, projections entry.message = some p → p.topics.Nodup)
    (author : AuthorId) (topic : Topic) :
    mentionSurplus projections entries author topic = 0 := by
  unfold mentionSurplus
  refine List.sum_eq_zero fun x hx => ?_
  obtain ⟨p, hp, rfl⟩ := List.mem_map.mp hx
  obtain ⟨entry, hentry, hstored⟩ := List.mem_filterMap.mp hp
  have honce : p.topics.count topic ≤ 1 :=
    List.nodup_iff_count_le_one.mp (h entry (List.mem_filter.mp hentry).1 p hstored) topic
  have hzero : p.topics.count topic - 1 = 0 := by omega
  rw [hzero, Nat.cast_zero, mul_zero]

variable (projections entries)

/-- The largest tally is that of some author, and nobody's is larger. -/
theorem isGreatest_topTally (topic : Topic) :
    IsGreatest (Set.range fun author => mentionTally r projections entries author topic)
      (topTally r projections entries topic) := by
  have : Nonempty AuthorId := ⟨⟨""⟩⟩
  refine isGreatest_largest (fun author => mentionTally_nonneg r projections entries author topic)
    fun author hnot => ?_
  -- who has no entry has no projections
  have hnil : entries.filter (fun entry => entry.author = author) = [] :=
    List.filter_eq_nil_iff.mpr fun entry hentry hauthor =>
      hnot (List.mem_map.mpr ⟨entry, hentry, of_decide_eq_true hauthor⟩)
  rw [mentionTally, mentions, authored, hnil]
  rfl

theorem messageWeight_nonneg (author : AuthorId) (topic : Topic) :
    0 ≤ messageWeight projections entries author topic := by
  unfold messageWeight
  refine List.sum_nonneg fun x hx => ?_
  obtain ⟨p, -, rfl⟩ := List.mem_map.mp hx
  exact p.confidence.get_nonneg

end Entries

/-! ### Who precedes whom -/

/-- In the stored ownership of the topic, `a` is ranked and `b` is not ranked before them. -/
def PrecedesOn (skills : InMemorySkillStore) (topic : Topic) (a b : AuthorId) : Prop :=
  ∃ o, skills topic = some o ∧ Precedes (o.candidates.map fun c => c.author.val) a.val b.val

section Leads

variable (r : Rounding) (projections : InMemoryProjectionStore) (entries : List SkillEntry)
  (topic : Topic) (a b : AuthorId)

/-- What `b` gains on `a` by naming the topic more than once and by the roundings of the additions
is less than `a`'s lead in messages. -/
def LeadExceedsGain : Prop :=
  (mentionSurplus projections entries b topic + sumDrift r projections entries b topic) -
      (mentionSurplus projections entries a topic + sumDrift r projections entries a topic) <
    messageWeight projections entries a topic - messageWeight projections entries b topic

/-- `b` does not name the topic, or `a`'s lead exceeds what `b` gains on it and the quotient keeps
the two apart, or the quotient does not and `a` has the smaller id. -/
def KeepsLead : Prop :=
  mentions projections entries b topic = [] ∨
    LeadExceedsGain r projections entries topic a b ∧
      ¬SharesMerge r projections entries topic a b ∨
    SharesMerge r projections entries topic a b ∧ a.val < b.val

instance : Decidable (LeadExceedsGain r projections entries topic a b) :=
  inferInstanceAs (Decidable (_ < _))

instance : Decidable (KeepsLead r projections entries topic a b) :=
  inferInstanceAs (Decidable (_ ∨ _ ∧ _ ∨ _ ∧ _))

/-- The lead exceeds the gain when the tallies are in the order of the message weights. -/
theorem leadExceedsGain_iff : LeadExceedsGain r projections entries topic a b ↔
    mentionTally r projections entries b topic < mentionTally r projections entries a topic := by
  rw [mentionTally_eq, mentionTally_eq, LeadExceedsGain]
  constructor <;> intro hlt <;> linarith

/-- Rounded shares are in the order of the tallies, unless they are one number. -/
theorem round_share_lt_iff :
    r.round (mentionTally r projections entries b topic / topTally r projections entries topic) <
        r.round (mentionTally r projections entries a topic /
          topTally r projections entries topic) ↔
      LeadExceedsGain r projections entries topic a b ∧
        ¬SharesMerge r projections entries topic a b := by
  have htop : 0 ≤ topTally r projections entries topic := largest_nonneg _
  have hmono : ∀ {c d : AuthorId}, mentionTally r projections entries c topic ≤
      mentionTally r projections entries d topic →
      r.round (mentionTally r projections entries c topic / topTally r projections entries topic) ≤
        r.round (mentionTally r projections entries d topic /
          topTally r projections entries topic) := fun hle =>
    r.mono (div_nonneg (mentionTally_nonneg r projections entries _ topic) htop)
      (div_le_div_of_nonneg_right hle htop)
  rw [leadExceedsGain_iff]
  constructor
  · intro hlt
    exact ⟨not_le.mp fun hle => (hmono hle).not_gt hlt, fun hmerge => hlt.ne hmerge.symm⟩
  · rintro ⟨hlt, hmerge⟩
    exact lt_of_le_of_ne (hmono hlt.le) fun heq => hmerge heq.symm

/-- **In exact arithmetic and without repeated mentions every lead is kept.** -/
theorem keepsLead_exact_of_nodup
    (hnodup : ∀ entry ∈ entries, ∀ p, projections entry.message = some p → p.topics.Nodup)
    (h : messageWeight projections entries b topic < messageWeight projections entries a topic) :
    KeepsLead .exact projections entries topic a b := by
  have hdrift : ∀ author, sumDrift .exact projections entries author topic = 0 := fun author => by
    rw [sumDrift, mentionTally, Rounding.roundedSum_exact, sub_self]
  have hlead : LeadExceedsGain .exact projections entries topic a b := by
    rw [LeadExceedsGain, hdrift, hdrift, mentionSurplus_eq_zero hnodup,
      mentionSurplus_eq_zero hnodup]
    linarith
  refine Or.inr (Or.inl ⟨hlead, fun hmerge => ?_⟩)
  -- shares of one positive number are as far apart as the tallies
  have hlt := (leadExceedsGain_iff .exact projections entries topic a b).mp hlead
  have hpos : 0 < topTally .exact projections entries topic :=
    ((mentionTally_nonneg .exact projections entries b topic).trans_lt hlt).trans_le
      ((isGreatest_topTally .exact projections entries topic).2 ⟨a, rfl⟩)
  have hshare : mentionTally .exact projections entries a topic /
      topTally .exact projections entries topic = mentionTally .exact projections entries b topic /
        topTally .exact projections entries topic := hmerge
  rw [div_left_inj' hpos.ne'] at hshare
  exact hlt.ne hshare.symm

/-- **A lead that exceeds the surplus by what roundings can change is kept.** -/
theorem keepsLead_of_margin {u : ℚ} {limit : ℕ} (hr : r.Within u) (hcounts : r.CountsTo limit)
    (hlimit : ∀ author, (mentions projections entries author topic).length ≤ limit)
    (h : mentionSurplus projections entries b topic - mentionSurplus projections entries a topic +
        u * (sumMargin projections entries b topic + sumMargin projections entries a topic +
          2 * topTally r projections entries topic) <
      messageWeight projections entries a topic - messageWeight projections entries b topic) :
    KeepsLead r projections entries topic a b := by
  have htally : ∀ author, 0 ≤ mentionTally r projections entries author topic := fun author =>
    mentionTally_nonneg r projections entries author topic
  have htop := (isGreatest_topTally r projections entries topic).2
  have hdrift : ∀ author, |sumDrift r projections entries author topic| ≤
      u * sumMargin projections entries author topic := fun author =>
    hr.abs_roundedSum_sub_le hcounts (hlimit author)
      (mentions_mem_unit projections entries author topic)
  have ha := abs_le.mp (hdrift a)
  have hb := abs_le.mp (hdrift b)
  have htopNonneg : 0 ≤ topTally r projections entries topic := (htally a).trans (htop ⟨a, rfl⟩)
  have hmargin : 0 ≤ u * (2 * topTally r projections entries topic) :=
    mul_nonneg hr.nonneg (by linarith)
  rw [mul_add, mul_add] at h
  have hlead : LeadExceedsGain r projections entries topic a b := by
    unfold LeadExceedsGain
    linarith
  refine Or.inr (Or.inl ⟨hlead, fun hmerge => ?_⟩)
  -- shares that are rounded to one number are at most `2 * u` apart
  have hlt := (leadExceedsGain_iff r projections entries topic a b).mp hlead
  have hpos : 0 < topTally r projections entries topic :=
    ((htally b).trans_lt hlt).trans_le (htop ⟨a, rfl⟩)
  have hshare : ∀ author, |r.round (mentionTally r projections entries author topic /
        topTally r projections entries topic) -
      mentionTally r projections entries author topic / topTally r projections entries topic| ≤
        u := fun author => by
    have hnear := hr _ (div_nonneg (htally author) hpos.le)
    rwa [max_eq_right ((div_le_one₀ hpos).mpr (htop ⟨author, rfl⟩)), mul_one] at hnear
  have hnearA := abs_le.mp (hshare a)
  have hnearB := abs_le.mp (hshare b)
  have hclose : mentionTally r projections entries a topic / topTally r projections entries topic -
      mentionTally r projections entries b topic / topTally r projections entries topic ≤
        2 * u := by
    unfold SharesMerge at hmerge
    linarith
  rw [← sub_div, div_le_iff₀ hpos, mentionTally_eq, mentionTally_eq] at hclose
  linarith

end Leads

/-! ### What the job stores -/

section Stored

variable {r : Rounding}

/-- What the job stores for a topic of the index. -/
theorem run_buildSkill_of_mem {projections : InMemoryProjectionStore} {skills : InMemorySkillStore}
    {request : SkillRequest} {o : TopicOwnership}
    (h : o ∈ (build r (contributionsOfEntries projections request.entries)).ownerships) :
    BuildSkillJob.run projections (skillBuilder r) skills request o.topic = some o :=
  UpsertStore.upsertAll_eq_some_of_mem skills (nodup_topic_ownerships _) h

/-- The candidates of an ownership, ranked by their rounded shares. -/
theorem isRanking_of_mem {projections : InMemoryProjectionStore} {entries : List SkillEntry}
    {o : TopicOwnership}
    (h : o ∈ (build r (contributionsOfEntries projections entries)).ownerships) :
    IsRanking (fun author => r.round (mentionTally r projections entries ⟨author⟩ o.topic /
        topTally r projections entries o.topic))
      (fun author => mentions projections entries ⟨author⟩ o.topic ≠ [])
      (o.candidates.map fun c => c.author.val) := by
  let contributors :=
    contributorsTo (perAuthor r (contributionsOfEntries projections entries)) o.topic.val
  have hweight : ∀ c ∈ contributors,
      c.weight = mentionTally r projections entries ⟨c.author⟩ o.topic := by
    intro c hc
    rw [(mem_contributorsTo.mp hc).2.2, mentionTally, ← touches_contributionsOfEntries]
  have hmem : ∀ author, author ∈ contributors.map Contributor.author ↔
      mentions projections entries ⟨author⟩ o.topic ≠ [] := fun author => by
    rw [mentions_ne_nil_iff, mem_author_contributorsTo]
  have htop : largestWeight contributors = topTally r projections entries o.topic := by
    refine (isGreatest_largestWeight hweight
      (fun author => mentionTally_nonneg r projections entries author o.topic)
      fun author hnot => ?_).unique (isGreatest_topTally r projections entries o.topic)
    rw [hmem, not_not] at hnot
    rw [mentionTally, hnot]
    rfl
  have hranking := isRanking_rounded (r := r) hweight
    (fun author => mentionTally_nonneg r projections entries ⟨author⟩ o.topic)
    (nodup_contributorsTo _ o.topic.val)
  rw [candidates_of_mem_ownerships h, ← htop]
  exact ⟨fun author => (hranking.mem author).trans (hmem author), hranking.sorted⟩

/-- **More message weight decides when surplus and roundings do not make up for it.** -/
theorem precedes_iff_lead (r : Rounding) (projections : InMemoryProjectionStore)
    (skills : InMemorySkillStore) (request : SkillRequest) (topic : Topic) {a b : AuthorId}
    (h : messageWeight projections request.entries b topic <
      messageWeight projections request.entries a topic) :
    PrecedesOn (BuildSkillJob.run projections (skillBuilder r) skills request) topic a b ↔
      KeepsLead r projections request.entries topic a b := by
  have hne : a.val ≠ b.val := fun heq => by
    rw [AuthorId.val_inj.mp heq] at h
    exact lt_irrefl _ h
  -- `a` has a message on the topic, so the topic has an ownership and `a` is a candidate
  have hmember : mentions projections request.entries a topic ≠ [] :=
    mentions_ne_nil_of_pos ((messageWeight_nonneg projections request.entries b topic).trans_lt h)
  have htopic : topic ∈ (build r (contributionsOfEntries projections
      request.entries)).ownerships.map TopicOwnership.topic := by
    obtain ⟨c, hc, -, ht⟩ := (mentions_ne_nil_iff projections request.entries).mp hmember
    exact mem_topic_ownerships.mpr ⟨c, hc, ht⟩
  obtain ⟨o, ho, rfl⟩ := List.mem_map.mp htopic
  have hstored :
      PrecedesOn (BuildSkillJob.run projections (skillBuilder r) skills request) o.topic a b ↔
        Precedes (o.candidates.map fun c => c.author.val) a.val b.val := by
    unfold PrecedesOn
    rw [run_buildSkill_of_mem ho]
    simp
  rw [hstored, (isRanking_of_mem ho).precedes_iff hmember hne, KeepsLead, ← round_share_lt_iff]
  have habove : RankedAbove (fun author => r.round (mentionTally r projections request.entries
      ⟨author⟩ o.topic / topTally r projections request.entries o.topic)) a.val b.val ↔
      r.round (mentionTally r projections request.entries b o.topic /
          topTally r projections request.entries o.topic) <
        r.round (mentionTally r projections request.entries a o.topic /
          topTally r projections request.entries o.topic) ∨
      SharesMerge r projections request.entries o.topic a b ∧ a.val < b.val :=
    or_congr_right (and_congr_left' eq_comm)
  rw [habove]
  exact or_iff_not_imp_left.symm

end Stored

/-! ### A repeated mention -/

/-- A projection as the model answered it, on one topic named some times. -/
def authProjection (id : String) (mentions : ℕ) (confidence : ℚ) : Projection :=
  parseProjection ⟨.issue, List.replicate mentions "auth", [], confidence⟩ ⟨id⟩

/-- Alice writes one message of confidence `3/4`, Bob one of confidence `1/2` whose topic list names
the topic `bobMentions` times. -/
def aliceAndBob (bobMentions : ℕ) : InMemoryProjectionStore :=
  .upsertAll .empty [authProjection "m-1" 1 (3 / 4), authProjection "m-2" bobMentions (1 / 2)]

/-- Both messages. -/
def aliceAndBobEntries : SkillRequest :=
  ⟨[⟨⟨"alice"⟩, "Alice", ⟨"m-1"⟩⟩, ⟨⟨"bob"⟩, "Bob", ⟨"m-2"⟩⟩]⟩

/-- The expertise of the program, which computes with doubles. -/
def expertiseOf (projections : InMemoryProjectionStore) (request : SkillRequest) :
    InMemorySkillStore :=
  BuildSkillJob.run projections (skillBuilder .binary64) .empty request

/-- With single mentions Alice keeps her lead. -/
theorem precedes_iff_lead_singleMentions :
    PrecedesOn (expertiseOf (aliceAndBob 1) aliceAndBobEntries) ⟨"auth"⟩ ⟨"alice"⟩ ⟨"bob"⟩ := by
  have hmore : messageWeight (aliceAndBob 1) aliceAndBobEntries.entries ⟨"bob"⟩ ⟨"auth"⟩ <
      messageWeight (aliceAndBob 1) aliceAndBobEntries.entries ⟨"alice"⟩ ⟨"auth"⟩ := by
    decide +kernel
  have hlead : KeepsLead .binary64 (aliceAndBob 1) aliceAndBobEntries.entries ⟨"auth"⟩ ⟨"alice"⟩
      ⟨"bob"⟩ := by
    decide +kernel
  exact (precedes_iff_lead .binary64 (aliceAndBob 1) .empty aliceAndBobEntries ⟨"auth"⟩
    hmore).mpr hlead

/-- **Bob names the topic twice in one message and precedes Alice, who has more message weight.** -/
theorem repeated_mention_outranks :
    messageWeight (aliceAndBob 2) aliceAndBobEntries.entries ⟨"bob"⟩ ⟨"auth"⟩ <
      messageWeight (aliceAndBob 2) aliceAndBobEntries.entries ⟨"alice"⟩ ⟨"auth"⟩ ∧
    ¬PrecedesOn (expertiseOf (aliceAndBob 2) aliceAndBobEntries) ⟨"auth"⟩ ⟨"alice"⟩ ⟨"bob"⟩ := by
  have hstored : (expertiseOf (aliceAndBob 2) aliceAndBobEntries ⟨"auth"⟩).map
      (fun o => o.candidates.map fun c => c.author.val) = some ["bob", "alice"] := by
    decide +kernel
  refine ⟨by decide +kernel, ?_⟩
  rintro ⟨o, ho, hprecedes⟩
  rw [ho, Option.map_some, Option.some.injEq] at hstored
  rw [hstored] at hprecedes
  exact not_precedes_head (by decide) hprecedes

/-- The doubles nearest to `0.6`, `0.7` and `0.8` add up to more than `0.7` three times, but not as
doubles are added: Bob precedes Zed by his id. -/
example :
    let double (tenths : ℚ) := Rounding.binary64.round (tenths / 10)
    let projections : InMemoryProjectionStore := .upsertAll .empty
      [authProjection "m-1" 1 (double 6), authProjection "m-2" 1 (double 7),
        authProjection "m-3" 1 (double 8), authProjection "m-4" 1 (double 7)]
    let entries : List SkillEntry :=
      [⟨⟨"zed"⟩, "Zed", ⟨"m-1"⟩⟩, ⟨⟨"zed"⟩, "Zed", ⟨"m-2"⟩⟩, ⟨⟨"zed"⟩, "Zed", ⟨"m-3"⟩⟩,
        ⟨⟨"bob"⟩, "Bob", ⟨"m-4"⟩⟩, ⟨⟨"bob"⟩, "Bob", ⟨"m-4"⟩⟩, ⟨⟨"bob"⟩, "Bob", ⟨"m-4"⟩⟩]
    messageWeight projections entries ⟨"bob"⟩ ⟨"auth"⟩ <
        messageWeight projections entries ⟨"zed"⟩ ⟨"auth"⟩ ∧
      SharesMerge .binary64 projections entries ⟨"auth"⟩ ⟨"zed"⟩ ⟨"bob"⟩ := by
  decide +kernel

end Mirrorlane
