import Mathlib.Algebra.Order.Group.Nat
import Mathlib.Data.List.Basic
import Mirrorlane.Foundation.Decimal
import Mirrorlane.Foundation.Delimited

/-!
# Lists served in pages

A `PagedList` is a list together with the pages it is served in, for every number of entries that
may be requested for a page.  A page may be shorter than requested; `PagedList.full` has pages as
long as possible.  Who reads the first page only has the whole list exactly when no later page has
an entry (`serve_none_eq_entries_iff`), which for full pages means that the list fits on one page
(`full_firstPageOnly_iff`).
-/

namespace Mirrorlane

variable {α : Type*}

/-- A list that is served in pages. -/
structure PagedList (α : Type*) where
  entries : List α
  /-- The pages, when so many entries a page are requested. -/
  pages : ℕ → List (List α)
  flatten_pages : ∀ perPage, 0 < perPage → (pages perPage).flatten = entries
  length_le : ∀ perPage, ∀ page ∈ pages perPage, page.length ≤ perPage

namespace PagedList

/-- The requested page, counted from one; the first page when none is requested. -/
def serve (list : PagedList α) (perPage : ℕ) (page : Option ℕ) : List α :=
  ((list.pages perPage)[page.getD 1 - 1]?).getD []

/-- No page after the first has an entry. -/
def FirstPageOnly (list : PagedList α) (perPage : ℕ) : Prop :=
  ∀ page ∈ (list.pages perPage).tail, page = []

/-! ### Reading the first page -/

/-- The first page, and what follows it. -/
theorem entries_eq_append (list : PagedList α) {perPage : ℕ} (h : 0 < perPage) :
    list.entries = list.serve perPage none ++ (list.pages perPage).tail.flatten := by
  rw [← list.flatten_pages perPage h]
  unfold serve
  cases list.pages perPage with
  | nil => simp
  | cons page pages => simp

/-- **The first page is the whole list** exactly when no later page has an entry. -/
theorem serve_none_eq_entries_iff (list : PagedList α) {perPage : ℕ} (h : 0 < perPage) :
    list.serve perPage none = list.entries ↔ list.FirstPageOnly perPage := by
  rw [list.entries_eq_append h, eq_comm, List.append_right_eq_self, List.flatten_eq_nil_iff]
  rfl

theorem length_serve_none_le (list : PagedList α) {perPage : ℕ} (h : 0 < perPage) :
    (list.serve perPage none).length ≤ list.entries.length := by
  have hlen := congrArg List.length (list.entries_eq_append h)
  rw [List.length_append] at hlen
  omega

/-- A first page as long as the list is the list. -/
theorem firstPageOnly_of_length_le (list : PagedList α) {perPage : ℕ} (h : 0 < perPage)
    (hlen : list.entries.length ≤ (list.serve perPage none).length) :
    list.FirstPageOnly perPage := by
  have hprefix : list.serve perPage none <+: list.entries :=
    ⟨_, (list.entries_eq_append h).symm⟩
  rw [← list.serve_none_eq_entries_iff h]
  exact hprefix.eq_of_length_le hlen

/-! ### Full pages -/

theorem flatten_windows (perPage m : ℕ) (entries : List α) :
    ((List.range m).map fun k => (entries.drop (k * perPage)).take perPage).flatten =
      entries.take (m * perPage) := by
  induction m with
  | zero => simp
  | succ m ih =>
    rw [List.range_succ, List.map_append, List.flatten_append, ih, Nat.succ_mul, List.take_add]
    simp

/-- The pages as long as they are requested, but for the last. -/
def full (entries : List α) : PagedList α where
  entries := entries
  pages perPage := (List.range (entries.length / perPage + 1)).map fun k =>
    (entries.drop (k * perPage)).take perPage
  flatten_pages perPage h := by
    rw [flatten_windows]
    have hlt := Nat.lt_div_mul_add (a := entries.length) h
    exact List.take_of_length_le (by rw [Nat.succ_mul]; omega)
  length_le perPage page hpage := by
    obtain ⟨k, -, rfl⟩ := List.mem_map.mp hpage
    exact List.length_take_le _ _

/-- **Full pages** leave nothing for later ones when the list fits on one. -/
theorem full_firstPageOnly_iff {entries : List α} {perPage : ℕ} (h : 0 < perPage) :
    (full entries).FirstPageOnly perPage ↔ entries.length ≤ perPage := by
  have hfirst : (full entries).serve perPage none = entries.take perPage := by
    simp [serve, full, List.range_succ_eq_map]
  rw [← serve_none_eq_entries_iff _ h, hfirst]
  show entries.take perPage = entries ↔ _
  constructor
  · intro heq
    rw [← heq]
    exact List.length_take_le _ _
  · exact List.take_of_length_le

end PagedList

/-! ### Query strings -/

/-- The number that a query gives a parameter. -/
def queryNumber (name query : String) : Option ℕ :=
  let parameters := (query.toList.splitOn '&').filterMap (splitOnce '=')
  (parameters.lookup name.toList).bind fun value =>
    parseDecimal (10 ^ value.length) value

end Mirrorlane
