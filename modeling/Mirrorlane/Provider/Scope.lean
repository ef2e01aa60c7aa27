import Mirrorlane.Core.Ports
import Mirrorlane.Foundation.Rounding
import Mirrorlane.Foundation.SortedAssoc
import Mathlib.Data.String.Basic

/-!
# The mock scope projector

A deterministic, catalog-based scope projector: it maps a session's topics and entities to the
components of a static catalog, loads what it finds and ignores the rest.  The confidence is a mean:
the additions, the count and the quotient are rounded by `r`, which is `binary64` in the program.
-/

namespace Mirrorlane

/-- The components the scoper knows about. -/
def catalog : List String :=
  ["auth-sdk", "oauth2", "token-refresh", "web-ui", "analytics", "billing"]

/-- Map a lowercased topic or entity keyword to a catalog component, if any. -/
def componentForLowercase (keyword : String) : Option String :=
  if keyword = "auth" ∨ keyword = "sdk" then some "auth-sdk"
  else if keyword = "oauth" ∨ keyword = "oauth2" then some "oauth2"
  else if keyword = "refresh-token" then some "token-refresh"
  else if keyword = "web" ∨ keyword = "ui" ∨ keyword = "web-ui" then some "web-ui"
  else if keyword = "analytics" then some "analytics"
  else if keyword = "billing" then some "billing"
  else none

/-- Every component a keyword maps to is in the catalog. -/
theorem mem_catalog_of_componentForLowercase {keyword component : String}
    (h : componentForLowercase keyword = some component) : component ∈ catalog := by
  unfold componentForLowercase at h
  split_ifs at h <;> cases h <;> decide

namespace MockScopeProjector

variable (toLowercase : String → String)

/-- Map a topic or entity keyword to a catalog component, if any. -/
def componentFor (keyword : String) : Option String :=
  componentForLowercase (toLowercase keyword)

/-- The keywords of a projection: its topics, then its entities. -/
def keywords (projection : Projection) : List String :=
  projection.topics.map Topic.val ++ projection.entities.map Entity.val

/-- One projection's components, added to the ordered set of loaded components. -/
def loadFrom (loaded : SortedAssoc String Unit) (projection : Projection) :
    SortedAssoc String Unit :=
  (keywords projection).foldl (fun loaded keyword =>
    match componentFor toLowercase keyword with
    | some component => loaded.alter component fun _ => ()
    -- a keyword outside the catalog loads nothing
    | none => loaded) loaded

/-- The scope of a conversation. -/
def scope (r : Rounding) (conversation : ConversationId) (projections : List Projection) : Scope :=
  let loaded := (projections.foldl (loadFrom toLowercase) .empty).keys
  let confidenceSum := r.roundedSum (projections.map fun projection => projection.confidence.get)
  { conversation
    load := loaded.map Component.mk
    ignore := (catalog.filter fun component => component ∉ loaded).map Component.mk
    reason :=
      if loaded = [] then "No known components detected for this session."
      else "Session focuses on " ++ String.intercalate ", " loaded ++ "."
    confidence :=
      if projections = [] then .new 0
      else .new (r.round (confidenceSum / r.round projections.length)) }

/-- The mock as a port. -/
def scoper (r : Rounding) : ScopeProjector where
  scope := scope toLowercase r
  scope_conversation _ _ := rfl

/-! ### What is loaded -/

/-- The components a projection names. -/
def components (projection : Projection) : List String :=
  (keywords projection).filterMap (componentFor toLowercase)

theorem loadFrom_eq (loaded : SortedAssoc String Unit) (projection : Projection) :
    loadFrom toLowercase loaded projection =
      (components toLowercase projection).foldl
        (fun loaded component => loaded.alter component fun _ => ()) loaded := by
  unfold loadFrom components
  rw [List.foldl_filterMap]
  refine List.foldl_ext _ _ _ fun loaded keyword _ => ?_
  cases componentFor toLowercase keyword <;> rfl

/-- The components of all projections are loaded one after the other. -/
theorem foldl_loadFrom (projections : List Projection) (loaded : SortedAssoc String Unit) :
    projections.foldl (loadFrom toLowercase) loaded =
      (projections.flatMap (components toLowercase)).foldl
        (fun loaded component => loaded.alter component fun _ => ()) loaded := by
  rw [List.foldl_flatMap]
  exact List.foldl_ext _ _ _ fun loaded projection _ => loadFrom_eq toLowercase loaded projection

/-- **What is loaded**: the components that some projection names. -/
theorem mem_loaded {projections : List Projection} {component : String} :
    component ∈ (projections.foldl (loadFrom toLowercase) .empty).keys ↔
      ∃ projection ∈ projections, component ∈ components toLowercase projection := by
  rw [foldl_loadFrom, SortedAssoc.mem_keys, SortedAssoc.isSome_get_foldl_alter]
  simp

theorem mem_catalog_of_mem_keys {projections : List Projection} {component : String}
    (h : component ∈ (projections.foldl (loadFrom toLowercase) .empty).keys) :
    component ∈ catalog := by
  obtain ⟨projection, -, hmem⟩ := (mem_loaded toLowercase).mp h
  obtain ⟨keyword, -, hkeyword⟩ := List.mem_filterMap.mp hmem
  exact mem_catalog_of_componentForLowercase hkeyword

end MockScopeProjector

end Mirrorlane
