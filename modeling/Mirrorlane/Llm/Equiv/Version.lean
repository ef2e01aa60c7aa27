import Mirrorlane.Foundation.Delimited
import Mirrorlane.Llm.Version
import Mirrorlane.Storage.SqliteDerivedOutputCache
import Mirrorlane.Storage.SqliteProjectionCache

/-!
# Which configurations share a cache entry

The version strings are `:`-joins of strings that may contain `:` themselves.  Two configurations
share a version exactly when one moves a `:`-separated piece across a join of the other: between
model and prompt version, or between strategy id and projector.

## Main results

* `cacheVersion_eq_iff`, `derivationVersion_eq_iff`: when two versions are equal
* `neverShare_iff`
-/

namespace Mirrorlane

/-- What a run is configured with. -/
structure Configuration where
  strategy : String
  projector : LlmProjector
  deriving DecidableEq

namespace Configuration

/-- The version that keys the derived-output cache. -/
def derivationVersion (promptFingerprint : String) (c : Configuration) : StepVersion :=
  Mirrorlane.derivationVersion c.strategy (c.projector.version promptFingerprint)

end Configuration

/-! ### When versions are equal -/

theorem colon_toList : (":" : String).toList = [':'] := rfl

/-- Two projectors of one backend whose models and prompt versions are a shift of each other. -/
def ModelShifted (p q : LlmProjector) : Prop :=
  p.client = q.client ∧ (Shifted ":" p.model p.promptVersion q.model q.promptVersion ∨
    Shifted ":" q.model q.promptVersion p.model p.promptVersion)

theorem versionTag_eq_joined (provider model promptVersion : String) :
    versionTag provider model promptVersion =
      joined ":" provider (joined ":" model promptVersion) := by
  simp only [versionTag, joined, String.append_assoc]

/-- The backends' tags are equally long, so no piece moves across the first join. -/
theorem providerTag_join_inj {b b' : LlmBackend} {s s' : String}
    (h : joined ":" b.providerTag s = joined ":" b'.providerTag s') : b = b' ∧ s = s' := by
  have hb : b = b' := by
    -- the tags differ within their six characters
    have hl := congrArg (List.take 6 ∘ String.toList) h
    cases b <;> cases b'
    · rfl
    · simp [joined, LlmBackend.providerTag] at hl
    · simp [joined, LlmBackend.providerTag] at hl
    · rfl
  subst hb
  exact ⟨rfl, joined_left_inj h⟩

theorem cacheVersion_eq_iff (promptFingerprint : String) (p q : LlmProjector) :
    p.cacheVersion promptFingerprint = q.cacheVersion promptFingerprint ↔
      p = q ∨ ModelShifted p q := by
  obtain ⟨b, m, v⟩ := p
  obtain ⟨b', m', v'⟩ := q
  simp only [LlmProjector.cacheVersion, ModelShifted, LlmProjector.mk.injEq]
  have hiff : joined ":" m v = joined ":" m' v' ↔ (m = m' ∧ v = v') ∨ Shifted ":" m v m' v' ∨
      Shifted ":" m' v' m v := joined_eq_joined_iff colon_toList
  constructor
  · intro h
    -- the fingerprint is a common end and the backend's tag a common beginning
    have htag : versionTag b.providerTag m v = versionTag b'.providerTag m' v' := joined_right_inj h
    rw [versionTag_eq_joined, versionTag_eq_joined] at htag
    obtain ⟨hb, hjoin⟩ := providerTag_join_inj htag
    rcases hiff.mp hjoin with ⟨hm, hv⟩ | hshift
    · exact Or.inl ⟨hb, hm, hv⟩
    · exact Or.inr ⟨hb, hshift⟩
  · intro h
    have hjoin : b = b' ∧ joined ":" m v = joined ":" m' v' := by
      rcases h with ⟨hb, hmv⟩ | ⟨hb, hshift⟩
      · exact ⟨hb, hiff.mpr (Or.inl hmv)⟩
      · exact ⟨hb, hiff.mpr (Or.inr hshift)⟩
    rw [versionTag_eq_joined, versionTag_eq_joined, hjoin.1, hjoin.2]

theorem derivationVersion_eq_iff (s s' : String) (v v' : StepVersion) :
    derivationVersion s v = derivationVersion s' v' ↔
      (s = s' ∧ v = v') ∨ Shifted ":" s v.val s' v'.val ∨ Shifted ":" s' v'.val s v.val := by
  obtain ⟨v⟩ := v
  obtain ⟨v'⟩ := v'
  have hval : ∀ s v : String, derivationVersion s ⟨v⟩ =
      ⟨joined ":" derivationSchemaVersion (joined ":" s v)⟩ := fun s v => by
    simp only [derivationVersion, joined, String.append_assoc]
  rw [hval, hval, StepVersion.mk.injEq, StepVersion.mk.injEq, ← joined_eq_joined_iff colon_toList]
  exact ⟨joined_left_inj, congrArg _⟩

/-- Two configurations whose strategy ids and projectors are a shift of each other. -/
def StrategyShifted (a b : Configuration) : Prop :=
  let tag (p : LlmProjector) : String :=
    joined ":" p.client.providerTag (joined ":" p.model p.promptVersion)
  Shifted ":" a.strategy (tag a.projector) b.strategy (tag b.projector) ∨
    Shifted ":" b.strategy (tag b.projector) a.strategy (tag a.projector)

/-- A common last part plays no role in a shift. -/
theorem shifted_joined_iff {sep a b a' b' t : String} :
    Shifted sep a (joined sep b t) a' (joined sep b' t) ↔ Shifted sep a b a' b' := by
  constructor
  · rintro ⟨x, ha, hb⟩
    rw [← joined_assoc] at hb
    exact ⟨x, ha, joined_right_inj hb⟩
  · rintro ⟨x, ha, rfl⟩
    exact ⟨x, ha, joined_assoc x b' t⟩

theorem Configuration.derivationVersion_eq_iff (promptFingerprint : String) (a b : Configuration) :
    a.derivationVersion promptFingerprint = b.derivationVersion promptFingerprint ↔
      (a.strategy = b.strategy ∧
        a.projector.version promptFingerprint = b.projector.version promptFingerprint) ∨
      StrategyShifted a b := by
  have hversion : ∀ p : LlmProjector, (p.version promptFingerprint).val =
      joined ":" (joined ":" p.client.providerTag (joined ":" p.model p.promptVersion))
        promptFingerprint := fun p => by
    rw [← versionTag_eq_joined]
    rfl
  unfold Configuration.derivationVersion
  rw [Mirrorlane.derivationVersion_eq_iff, hversion, hversion, shifted_joined_iff,
    shifted_joined_iff]
  rfl

/-! ### Cache entries -/

section Caches

variable {τ : Type} {json : CacheJson τ} {db db' : Database τ} {version version' : StepVersion}

/-- A put under another version is not read. -/
theorem get_put_projection_of_ne (hne : version ≠ version') {kind key key' : String}
    {value : Projection}
    (h : SqliteProjectionCache.put json db kind version key value = some db') :
    SqliteProjectionCache.get json db' kind version' key' =
      SqliteProjectionCache.get json db kind version' key' := by
  obtain ⟨rows, hrows, hdb'⟩ := Option.bind_eq_some_iff.mp h
  have hkey : (version', key') ≠ (version, key) := fun heq => hne (Prod.mk.inj heq).1.symm
  rw [← Option.some.inj hdb', SqliteProjectionCache.get, SqliteProjectionCache.get, hrows]
  exact TextCodec.lookup_insert_of_ne _ rows hkey _

theorem get_put_derivation_of_ne (hne : version ≠ version') {c c' : ConversationId}
    {content content' : String} {value : ConversationDerivation}
    (h : SqliteDerivedOutputCache.put json db version c content value = some db') :
    SqliteDerivedOutputCache.get json db' version' c' content' =
      SqliteDerivedOutputCache.get json db version' c' content' := by
  obtain ⟨rows, hrows, hdb'⟩ := Option.bind_eq_some_iff.mp h
  have hkey : (version', c', content') ≠ (version, c, content) :=
    fun heq => hne (Prod.mk.inj heq).1.symm
  rw [← Option.some.inj hdb', SqliteDerivedOutputCache.get, SqliteDerivedOutputCache.get, hrows]
  exact TextCodec.lookup_insert_of_ne _ rows hkey _

end Caches

/-- Different configurations have different versions, and what one puts in a cache the other does
not read. -/
structure NeverShare (promptFingerprint : String) (a b : Configuration) : Prop where
  cacheVersion_ne : a.projector ≠ b.projector →
    a.projector.cacheVersion promptFingerprint ≠ b.projector.cacheVersion promptFingerprint
  derivationVersion_ne :
    (a.strategy ≠ b.strategy ∨
      a.projector.version promptFingerprint ≠ b.projector.version promptFingerprint) →
    a.derivationVersion promptFingerprint ≠ b.derivationVersion promptFingerprint
  projection_separate : a.projector ≠ b.projector →
    ∀ (τ : Type) (json : CacheJson τ) (db db' : Database τ) (kind key key' : String)
      (value : Projection),
      SqliteProjectionCache.put json db kind (a.projector.version promptFingerprint) key value =
        some db' →
      SqliteProjectionCache.get json db' kind (b.projector.version promptFingerprint) key' =
        SqliteProjectionCache.get json db kind (b.projector.version promptFingerprint) key'
  derivation_separate : a ≠ b →
    ∀ (τ : Type) (json : CacheJson τ) (db db' : Database τ) (c c' : ConversationId)
      (content content' : String) (value : ConversationDerivation),
      SqliteDerivedOutputCache.put json db (a.derivationVersion promptFingerprint) c content
        value = some db' →
      SqliteDerivedOutputCache.get json db' (b.derivationVersion promptFingerprint) c' content' =
        SqliteDerivedOutputCache.get json db (b.derivationVersion promptFingerprint) c' content'

/-- **When configurations share no cache entry.** Exactly when none of their `:`-joined parts are a
shift of each other. -/
theorem neverShare_iff (promptFingerprint : String) (a b : Configuration) :
    NeverShare promptFingerprint a b ↔
      ¬ModelShifted a.projector b.projector ∧ ¬StrategyShifted a b := by
  constructor
  · intro h
    -- a shift moves a piece, so the shifted parts differ while their versions are equal
    constructor
    · intro hshift
      have hne : a.projector ≠ b.projector := by
        rintro heq
        rw [heq] at hshift
        rcases hshift.2 with h | h <;> exact h.ne_left colon_toList rfl
      exact h.cacheVersion_ne hne ((cacheVersion_eq_iff promptFingerprint _ _).mpr (Or.inr hshift))
    · intro hshift
      have hne : a.strategy ≠ b.strategy := by
        rcases hshift with h | h
        · exact h.ne_left colon_toList
        · exact (h.ne_left colon_toList).symm
      exact h.derivationVersion_ne (Or.inl hne)
        ((Configuration.derivationVersion_eq_iff promptFingerprint a b).mpr (Or.inr hshift))
  · rintro ⟨hmodel, hstrategy⟩
    have hcache : a.projector ≠ b.projector →
        a.projector.cacheVersion promptFingerprint ≠ b.projector.cacheVersion promptFingerprint :=
      fun hne heq => ((cacheVersion_eq_iff promptFingerprint _ _).mp heq).elim hne hmodel
    have hversion : a.projector ≠ b.projector →
        a.projector.version promptFingerprint ≠ b.projector.version promptFingerprint :=
      fun hne heq => hcache hne (congrArg StepVersion.val heq)
    have hderivation : (a.strategy ≠ b.strategy ∨
        a.projector.version promptFingerprint ≠ b.projector.version promptFingerprint) →
        a.derivationVersion promptFingerprint ≠ b.derivationVersion promptFingerprint := by
      intro hne heq
      have hcases := (Configuration.derivationVersion_eq_iff promptFingerprint a b).mp heq
      rcases hcases with hsame | hshift
      · rcases hne with hne | hne
        · exact hne hsame.1
        · exact hne hsame.2
      · exact hstrategy hshift
    refine ⟨hcache, hderivation, fun hne τ json db db' kind key key' value hput =>
      get_put_projection_of_ne (hversion hne) hput,
      fun hne τ json db db' c c' content content' value hput =>
      get_put_derivation_of_ne (hderivation ?_) hput⟩
    -- different configurations differ in the strategy id or in the projector
    by_contra hsame
    rw [not_or, not_not, not_not] at hsame
    by_cases hp : a.projector = b.projector
    · exact hne (by cases a; cases b; simp_all)
    · exact hversion hp hsame.2

/-- The model `a:b` with prompt version `c`, and the model `a` with prompt version `b:c`. -/
theorem models_share_version :
    let a : Configuration := ⟨"projection", .ollama, "a:b", "c"⟩
    let b : Configuration := ⟨"projection", .ollama, "a", "b:c"⟩
    a.projector ≠ b.projector ∧ ¬NeverShare "0123456789abcdef" a b := by
  refine ⟨by decide, fun h => ?_⟩
  exact h.cacheVersion_ne (by decide) (by decide)

end Mirrorlane
