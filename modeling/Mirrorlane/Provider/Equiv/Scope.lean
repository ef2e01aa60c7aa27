import Mirrorlane.Provider.Scope

/-!
# A scope partitions the component catalog

The keyword map and the catalog are two tables; every component the first one gives is in the second
one, so what is loaded and what is ignored together are the catalog (`scope_perm_catalog`).  What is
loaded depends on the projections as a set, and grows with it (`load_sublist`).

The confidence is the mean of the projections' confidences as doubles are added and divided: it is
never clamped (`confidence_scope`), and it is close to the exact mean without being it
(`scope_computes`, `mean_is_rounded`).
-/

namespace Mirrorlane

namespace MockScopeProjector

variable (toLowercase : String → String) {r : Rounding}

/-! ### Load and ignore -/

/-- The names of the loaded components. -/
def loadedNames (projections : List Projection) : List String :=
  (projections.foldl (loadFrom toLowercase) .empty).keys

theorem load_scope (c : ConversationId) (ps : List Projection) :
    (scope toLowercase r c ps).load = (loadedNames toLowercase ps).map Component.mk := rfl

theorem ignore_scope (c : ConversationId) (ps : List Projection) :
    (scope toLowercase r c ps).ignore =
      (catalog.filter fun name => name ∉ loadedNames toLowercase ps).map Component.mk := rfl

/-- A component is loaded when some topic or entity of some projection maps to it. -/
theorem mem_loadedNames {ps : List Projection} {name : String} :
    name ∈ loadedNames toLowercase ps ↔ ∃ p ∈ ps,
      (∃ topic ∈ p.topics, componentFor toLowercase topic.val = some name) ∨
        ∃ entity ∈ p.entities, componentFor toLowercase entity.val = some name := by
  unfold loadedNames
  rw [mem_loaded]
  refine exists_congr fun p => and_congr_right fun _ => ?_
  unfold components keywords
  rw [List.mem_filterMap]
  constructor
  · rintro ⟨keyword, hkeyword, hname⟩
    rcases List.mem_append.mp hkeyword with hmem | hmem
    · obtain ⟨topic, htopic, rfl⟩ := List.mem_map.mp hmem
      exact Or.inl ⟨topic, htopic, hname⟩
    · obtain ⟨entity, hentity, rfl⟩ := List.mem_map.mp hmem
      exact Or.inr ⟨entity, hentity, hname⟩
  · rintro (⟨topic, htopic, hname⟩ | ⟨entity, hentity, hname⟩)
    · exact ⟨topic.val, List.mem_append_left _ (List.mem_map_of_mem htopic), hname⟩
    · exact ⟨entity.val, List.mem_append_right _ (List.mem_map_of_mem hentity), hname⟩

/-- More projections load more. -/
theorem loadedNames_subset {ps ps' : List Projection} (h : ps ⊆ ps') :
    loadedNames toLowercase ps ⊆ loadedNames toLowercase ps' := by
  intro name hname
  obtain ⟨p, hp, hnamed⟩ := (mem_loadedNames toLowercase).mp hname
  exact (mem_loadedNames toLowercase).mpr ⟨p, h hp, hnamed⟩

/-- **Added projections only add to what is loaded.** -/
theorem load_sublist (c : ConversationId) {ps ps' : List Projection} (h : ps ⊆ ps') :
    (scope toLowercase r c ps).load.Sublist (scope toLowercase r c ps').load :=
  (SortedAssoc.keys_sublist (loadedNames_subset toLowercase h)).map Component.mk

/-- **Added projections only take from what is ignored.** -/
theorem ignore_sublist (c : ConversationId) {ps ps' : List Projection} (h : ps ⊆ ps') :
    (scope toLowercase r c ps').ignore.Sublist (scope toLowercase r c ps).ignore := by
  rw [ignore_scope, ignore_scope]
  refine List.Sublist.map _ (List.monotone_filter_right catalog fun name hname => ?_)
  have hnot : name ∉ loadedNames toLowercase ps' := of_decide_eq_true hname
  exact decide_eq_true fun hmem => hnot (loadedNames_subset toLowercase h hmem)

theorem nodup_catalog : catalog.Nodup := by decide

/-- **Loaded and ignored components are the catalog**, in another order. -/
theorem scope_perm_catalog (c : ConversationId) (ps : List Projection) :
    ((scope toLowercase r c ps).load ++ (scope toLowercase r c ps).ignore).Perm
      (catalog.map Component.mk) := by
  rw [load_scope, ignore_scope, ← List.map_append]
  refine List.Perm.map _ ((List.perm_ext_iff_of_nodup ?_ nodup_catalog).mpr fun name => ?_)
  · refine List.nodup_append.mpr ⟨SortedAssoc.nodup_keys _, nodup_catalog.filter _, ?_⟩
    rintro name hload _ hignore rfl
    have hnot := (List.mem_filter.mp hignore).2
    exact of_decide_eq_true hnot hload
  · rw [List.mem_append, List.mem_filter, decide_eq_true_eq]
    constructor
    · -- the keyword map gives components of the catalog only
      rintro (hload | ⟨hname, -⟩)
      · exact mem_catalog_of_mem_keys toLowercase hload
      · exact hname
    · intro hname
      by_cases hload : name ∈ loadedNames toLowercase ps
      · exact Or.inl hload
      · exact Or.inr ⟨hname, hload⟩

/-! ### The confidence -/

/-- The confidences of some projections. -/
def confidences (ps : List Projection) : List ℚ := ps.map fun p => p.confidence.get

theorem confidences_mem_unit (ps : List Projection) : ∀ x ∈ confidences ps, 0 ≤ x ∧ x ≤ 1 := by
  intro x hx
  obtain ⟨p, -, rfl⟩ := List.mem_map.mp hx
  exact ⟨p.confidence.get_nonneg, p.confidence.get_le_one⟩

/-- **The confidence of a scope is the rounded mean**: where the count keeps up with the sum it is
not clamped. -/
theorem confidence_scope {limit : ℕ} (h : r.CountsTo limit) (c : ConversationId)
    {ps : List Projection} (hne : ps ≠ []) :
    (scope toLowercase r c ps).confidence.get = r.roundedMean (confidences ps) := by
  have hmean : (scope toLowercase r c ps).confidence =
      .new (r.roundedMean (confidences ps)) := by
    show (if ps = [] then _ else _) = _
    rw [if_neg hne, Rounding.roundedMean, confidences, List.length_map]
  have hunit := confidences_mem_unit ps
  rw [hmean]
  exact Confidence.get_new (Rounding.roundedMean_nonneg fun x hx => (hunit x hx).1)
    (h.roundedMean_le_one hunit)

/-! ### The scope of a conversation -/

/-- What a scope says about the catalog. -/
structure PartitionsCatalog (ps : List Projection) (s : Scope) : Prop where
  disjoint : s.load.Disjoint s.ignore
  /-- Each component of the catalog is there once, and nothing else is. -/
  once : ∀ component, (s.load ++ s.ignore).count component =
    if component.val ∈ catalog then 1 else 0
  /-- Loaded components are in strictly ascending order. -/
  ascending : s.load.Pairwise fun a b => a.val < b.val
  /-- They are what the topics and entities of the projections map to. -/
  mem_load : ∀ component, component ∈ s.load ↔ ∃ p ∈ ps,
    (∃ topic ∈ p.topics, componentFor toLowercase topic.val = some component.val) ∨
      ∃ entity ∈ p.entities, componentFor toLowercase entity.val = some component.val
  /-- The confidence is the mean of the projections' confidences, in the arithmetic of doubles. -/
  mean : ps ≠ [] → s.confidence.get = Rounding.binary64.roundedMean (confidences ps)
  /-- It is close to the exact mean. -/
  near : ps ≠ [] → ps.length ≤ 2 ^ 53 →
    |s.confidence.get - (confidences ps).sum / ps.length| ≤ (ps.length + 3) / 2 ^ 54
  unit : 0 ≤ s.confidence.get ∧ s.confidence.get ≤ 1
  nil : ps = [] → s.confidence.get = 0

theorem partitionsCatalog_scope (c : ConversationId) (ps : List Projection) :
    PartitionsCatalog toLowercase ps (scope toLowercase .binary64 c ps) := by
  have hperm := scope_perm_catalog toLowercase (r := .binary64) c ps
  have hinj : Function.Injective Component.mk := fun a b h => Component.mk.inj h
  have hnodup := hperm.nodup_iff.mpr (nodup_catalog.map hinj)
  constructor
  case disjoint => exact List.disjoint_of_nodup_append hnodup
  case once =>
    intro component
    rw [hperm.count_eq, (nodup_catalog.map hinj).count]
    refine if_congr ?_ rfl rfl
    exact List.mem_map_of_injective hinj
  case ascending => exact List.pairwise_map.mpr (SortedAssoc.pairwise_keys _)
  case mem_load =>
    intro component
    rw [← mem_loadedNames, load_scope]
    exact List.mem_map_of_injective hinj
  case mean => exact confidence_scope toLowercase Rounding.countsTo_binary64 c
  case near =>
    intro hne hlimit
    have hlength : (confidences ps).length = ps.length := List.length_map _
    have hnil : confidences ps ≠ [] := List.map_eq_nil_iff.not.mpr hne
    have hoff := Rounding.within_binary64.abs_roundedMean_sub_le Rounding.countsTo_binary64 hnil
      (hlength ▸ hlimit) (confidences_mem_unit ps)
    rw [confidence_scope toLowercase Rounding.countsTo_binary64 c hne, ← hlength]
    refine hoff.trans (le_of_eq ?_)
    norm_num
    ring
  case unit => exact ⟨Confidence.get_nonneg _, Confidence.get_le_one _⟩
  case nil =>
    rintro rfl
    exact Confidence.get_new (le_refl 0) zero_le_one

/-- **A scope partitions the catalog by what the projections name**, whatever their order and
repetition, and more projections load more. -/
theorem scope_computes (c : ConversationId) (ps : List Projection) :
    PartitionsCatalog toLowercase ps (scope toLowercase .binary64 c ps) ∧
      (∀ ps', (∀ p, p ∈ ps ↔ p ∈ ps') →
        (scope toLowercase .binary64 c ps).load = (scope toLowercase .binary64 c ps').load) ∧
      ∀ ps', ps ⊆ ps' →
        (scope toLowercase .binary64 c ps).load.Sublist (scope toLowercase .binary64 c ps').load ∧
          (scope toLowercase .binary64 c ps').ignore.Sublist
            (scope toLowercase .binary64 c ps).ignore := by
  refine ⟨partitionsCatalog_scope toLowercase c ps, fun ps' hsame => ?_, fun ps' hsub => ?_⟩
  · exact (load_sublist toLowercase c fun p => (hsame p).mp).antisymm
      (load_sublist toLowercase c fun p => (hsame p).mpr)
  · exact ⟨load_sublist toLowercase c hsub, ignore_sublist toLowercase c hsub⟩

/-- Two projections without topics, with the doubles nearest to `0.7` and `0.1` as confidences. -/
def unevenConfidences : List Projection :=
  [⟨⟨"m-1"⟩, .task, [], [], .new (Rounding.binary64.round (7 / 10))⟩,
    ⟨⟨"m-2"⟩, .task, [], [], .new (Rounding.binary64.round (1 / 10))⟩]

/-- **The mean is rounded**: the sum of the two confidences is not a double. -/
theorem mean_is_rounded :
    (scope id .binary64 ⟨"c-1"⟩ unevenConfidences).confidence.get ≠
      (confidences unevenConfidences).sum / unevenConfidences.length := by
  decide +kernel

end MockScopeProjector

end Mirrorlane
