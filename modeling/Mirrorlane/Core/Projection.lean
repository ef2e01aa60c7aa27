import Mathlib.Algebra.Order.Ring.Rat
import Mathlib.Order.Interval.Set.ProjIcc
import Mirrorlane.Core.Message

/-!
# Projections and what is derived from them

The structured interpretation of a message (`Projection`), and the session artifacts the pipeline
derives from projections: `Scope`, `WarmupDocument`, the skill index, `RoutingHint` and
`SessionDevelopers`.

Scores are rationals; what the source computes with `f64` is rounded where it is computed.
`Confidence` and `SkillScore` clamp into `[0, 1]` on construction and carry the bounds, so an
out-of-range score cannot exist.

A number that is written as text and parsed again may come back as another one.  `mapNumbers` is
what a value is then: every number in it goes through one function.
-/

namespace Mirrorlane

/-- The closed interval `[0, 1]` of rationals. -/
abbrev UnitScore := Set.Icc (0 : ℚ) 1

/-- Clamp a value into `[0, 1]`. -/
def UnitScore.clamp (value : ℚ) : UnitScore := Set.projIcc 0 1 zero_le_one value

/-- A value in `[0, 1]` is not changed. -/
theorem UnitScore.coe_clamp {value : ℚ} (hnonneg : 0 ≤ value) (hle : value ≤ 1) :
    (UnitScore.clamp value : ℚ) = value := by
  unfold UnitScore.clamp
  rw [Set.coe_projIcc, min_eq_right hle, max_eq_right hnonneg]

/-- What a message is trying to do. -/
inductive Intent where
  | question
  | decision
  | proposal
  | task
  | issue
  | social
  deriving DecidableEq

/-- A topic a message touches. -/
structure Topic where
  val : String
  deriving DecidableEq

/-- A concrete entity a message references. -/
structure Entity where
  val : String
  deriving DecidableEq

/-- A confidence score constrained to `[0, 1]`. -/
structure Confidence where
  score : UnitScore
  deriving DecidableEq

namespace Confidence

/-- Create a confidence, clamping the value into `[0, 1]`. -/
def new (value : ℚ) : Confidence := ⟨UnitScore.clamp value⟩

/-- The underlying score. -/
def get (c : Confidence) : ℚ := c.score

theorem get_nonneg (c : Confidence) : 0 ≤ c.get := c.score.2.1

theorem get_le_one (c : Confidence) : c.get ≤ 1 := c.score.2.2

theorem get_new {value : ℚ} (hnonneg : 0 ≤ value) (hle : value ≤ 1) :
    (new value).get = value :=
  UnitScore.coe_clamp hnonneg hle

/-- A confidence is created from its own score. -/
theorem new_get (c : Confidence) : new c.get = c :=
  congrArg mk (Subtype.ext (get_new c.get_nonneg c.get_le_one))

end Confidence

/-- The structured interpretation of a message, keyed by its `MessageId`. -/
structure Projection where
  messageId : MessageId
  intent : Intent
  topics : List Topic
  entities : List Entity
  confidence : Confidence
  deriving DecidableEq

/-! ### Scope and warm-up -/

/-- A repository area or component a session may load or ignore. -/
structure Component where
  val : String
  deriving DecidableEq

/-- What a session should load and ignore, with a human-readable reason. -/
structure Scope where
  conversation : ConversationId
  load : List Component
  ignore : List Component
  reason : String
  confidence : Confidence
  deriving DecidableEq

/-- A request to build a scope for a session. -/
structure ScopeRequest where
  conversation : ConversationId
  messages : List MessageId
  deriving DecidableEq

/-- A session warm-up: what to focus on, the recent decisions, open questions and tasks, plus a
rendered summary. -/
structure WarmupDocument where
  conversation : ConversationId
  focus : List Component
  decisions : List MessageId
  openQuestions : List MessageId
  tasks : List MessageId
  summary : String
  deriving DecidableEq

/-- A request to build a warm-up for a session. -/
structure WarmupRequest where
  conversation : ConversationId
  messages : List MessageId
  deriving DecidableEq

/-! ### The skill index -/

/-- A ranking score constrained to `[0, 1]`. -/
structure SkillScore where
  score : UnitScore
  deriving DecidableEq

namespace SkillScore

/-- Create a score, clamping the value into `[0, 1]`. -/
def new (value : ℚ) : SkillScore := ⟨UnitScore.clamp value⟩

/-- The underlying score. -/
def get (s : SkillScore) : ℚ := s.score

theorem get_nonneg (s : SkillScore) : 0 ≤ s.get := s.score.2.1

theorem get_le_one (s : SkillScore) : s.get ≤ 1 := s.score.2.2

theorem get_new {value : ℚ} (hnonneg : 0 ≤ value) (hle : value ≤ 1) :
    (new value).get = value :=
  UnitScore.coe_clamp hnonneg hle

theorem get_inj {s s' : SkillScore} (h : s.get = s'.get) : s = s' := by
  cases s
  cases s'
  exact congrArg mk (Subtype.ext h)

end SkillScore

/-- How much an author touches one topic, as a confidence-weighted weight. -/
structure TopicWeight where
  topic : Topic
  weight : ℚ
  deriving DecidableEq

/-- An author and the topics they touch, with weights. -/
structure DeveloperProfile where
  author : AuthorId
  displayName : String
  topics : List TopicWeight
  deriving DecidableEq

/-- An author suited to a topic, with a normalized score. -/
structure ExpertCandidate where
  author : AuthorId
  displayName : String
  score : SkillScore
  deriving DecidableEq

/-- A topic and its expert candidates, ranked best-first. -/
structure TopicOwnership where
  topic : Topic
  candidates : List ExpertCandidate
  deriving DecidableEq

/-- The full skill index: per-author profiles and per-topic ownership. -/
structure SkillIndex where
  profiles : List DeveloperProfile
  ownerships : List TopicOwnership
  deriving DecidableEq

/-- One message's resolved contribution to the index. -/
structure SkillContribution where
  author : AuthorId
  displayName : String
  topics : List Topic
  confidence : Confidence
  deriving DecidableEq

/-- One author paired with a message of theirs. -/
structure SkillEntry where
  author : AuthorId
  displayName : String
  message : MessageId
  deriving DecidableEq

/-- A request to build the global skill index from a set of authored messages. -/
structure SkillRequest where
  entries : List SkillEntry
  deriving DecidableEq

/-! ### Routing hints and developer snapshots -/

/-- Skill-derived guidance attached to a message: ranked reviewers and the best person. -/
structure RoutingHint where
  messageId : MessageId
  reviewers : List ExpertCandidate
  humanHint : Option ExpertCandidate
  deriving DecidableEq

/-- A request to build routing hints for a set of messages by their ids. -/
structure RoutingHintRequest where
  messages : List MessageId
  deriving DecidableEq

/-- One participant's session view: which of the session's topics they own. -/
structure DeveloperSnapshot where
  author : AuthorId
  displayName : String
  topics : List TopicWeight
  deriving DecidableEq

/-- The developers of one session. -/
structure SessionDevelopers where
  conversation : ConversationId
  developers : List DeveloperSnapshot
  deriving DecidableEq

/-- One participant in a conversation: the author the projection does not carry. -/
structure Participant where
  author : AuthorId
  displayName : String
  deriving DecidableEq

/-- A request to build the developer snapshot for one session. -/
structure DeveloperSnapshotRequest where
  conversation : ConversationId
  participants : List Participant
  messages : List MessageId
  deriving DecidableEq

/-! ### Numbers that come back changed -/

section MapNumbers

variable (f : ℚ → ℚ)

/-- A confidence is clamped again when it is read. -/
def Confidence.mapNumber (c : Confidence) : Confidence := .new (f c.get)

def Projection.mapNumbers (p : Projection) : Projection :=
  { p with confidence := p.confidence.mapNumber f }

def Scope.mapNumbers (s : Scope) : Scope := { s with confidence := s.confidence.mapNumber f }

/-- So is a score. -/
def SkillScore.mapNumber (s : SkillScore) : SkillScore := .new (f s.get)

def TopicWeight.mapNumbers (t : TopicWeight) : TopicWeight := { t with weight := f t.weight }

def ExpertCandidate.mapNumbers (c : ExpertCandidate) : ExpertCandidate :=
  { c with score := c.score.mapNumber f }

def RoutingHint.mapNumbers (h : RoutingHint) : RoutingHint where
  messageId := h.messageId
  reviewers := h.reviewers.map (ExpertCandidate.mapNumbers f)
  humanHint := h.humanHint.map (ExpertCandidate.mapNumbers f)

def DeveloperSnapshot.mapNumbers (d : DeveloperSnapshot) : DeveloperSnapshot :=
  { d with topics := d.topics.map (TopicWeight.mapNumbers f) }

def SessionDevelopers.mapNumbers (d : SessionDevelopers) : SessionDevelopers :=
  { d with developers := d.developers.map (DeveloperSnapshot.mapNumbers f) }

@[simp] theorem Projection.mapNumbers_intent (p : Projection) :
    (p.mapNumbers f).intent = p.intent := rfl

/-- A projection comes back as it was when its confidence does. -/
theorem Projection.mapNumbers_eq_self_iff {p : Projection} :
    p.mapNumbers f = p ↔ p.confidence.mapNumber f = p.confidence := by
  constructor
  · exact congrArg Projection.confidence
  · intro h
    rw [mapNumbers, h]

/-! Nothing changes when every number comes back as it was. -/

@[simp] theorem Confidence.mapNumber_id (c : Confidence) : c.mapNumber id = c :=
  c.new_get

@[simp] theorem Projection.mapNumbers_id (p : Projection) : p.mapNumbers id = p :=
  (mapNumbers_eq_self_iff id).mpr (p.confidence.mapNumber_id)

@[simp] theorem Scope.mapNumbers_id (s : Scope) : s.mapNumbers id = s := by
  rw [mapNumbers, Confidence.mapNumber_id]

@[simp] theorem ExpertCandidate.mapNumbers_id : mapNumbers id = id := by
  funext c
  have hscore : c.score.mapNumber id = c.score :=
    SkillScore.get_inj (SkillScore.get_new c.score.get_nonneg c.score.get_le_one)
  rw [mapNumbers, hscore, id]

@[simp] theorem RoutingHint.mapNumbers_id (h : RoutingHint) : h.mapNumbers id = h := by
  rw [mapNumbers, ExpertCandidate.mapNumbers_id, List.map_id, Option.map_id_apply]

@[simp] theorem DeveloperSnapshot.mapNumbers_id (d : DeveloperSnapshot) : d.mapNumbers id = d := by
  have hweights : TopicWeight.mapNumbers id = id := rfl
  rw [mapNumbers, hweights, List.map_id]

@[simp] theorem SessionDevelopers.mapNumbers_id (d : SessionDevelopers) : d.mapNumbers id = d := by
  have hsame : DeveloperSnapshot.mapNumbers id = id := funext DeveloperSnapshot.mapNumbers_id
  rw [mapNumbers, hsame, List.map_id]

end MapNumbers

end Mirrorlane
