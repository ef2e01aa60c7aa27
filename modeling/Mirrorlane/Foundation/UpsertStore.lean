import Mathlib.Data.List.Nodup
import Mirrorlane.Foundation.KeyedStore
import Mirrorlane.Foundation.Redelivery

/-!
# Stores of values that carry their own key

An `UpsertStore key` holds every value under the key of the value.  `upsertAll` writes a list of
values in order, so that the last value of a key stays (`upsertAll_apply`); when no two values share
a key a lookup finds the value itself (`upsertAll_apply_of_nodup`).

A worker whose execution of a payload `p` upserts a list of values `writes p` is redeliverable as
soon as two different payloads never write the same key (`redeliverable_upsertAll`), and what a
stage of such executions leaves is one `upsertAll` (`foldl_upsertAll`).
-/

namespace Mirrorlane

/-- A store that holds every value under its own key. -/
structure UpsertStore {κ ν : Type*} (key : ν → κ) extends KeyedStore κ ν where
  /-- A stored value has the key it is stored under. -/
  own : ∀ {k v}, get k = some v → key v = k

namespace UpsertStore

variable {κ ν : Type*} {key : ν → κ}

instance : CoeFun (UpsertStore key) fun _ => κ → Option ν := ⟨fun s => s.get⟩

@[ext] theorem ext {s t : UpsertStore key} (h : ∀ k, s k = t k) : s = t := by
  obtain ⟨⟨get⟩, _⟩ := s
  obtain ⟨⟨get'⟩, _⟩ := t
  have hget : get = get' := funext h
  subst hget
  rfl

/-- The store that holds nothing. -/
def empty : UpsertStore key where
  get _ := none
  own h := by cases h

@[simp] theorem empty_apply (k : κ) : (empty : UpsertStore key) k = none := rfl

variable [DecidableEq κ]

/-- Insert or replace a value under its key. -/
def upsert (s : UpsertStore key) (v : ν) : UpsertStore key where
  toKeyedStore := s.toKeyedStore.insert (key v) v
  own {k w} h := by
    have hget : (if k = key v then some v else s k) = some w := h
    split_ifs at hget with hk
    · rw [← Option.some.inj hget, hk]
    · exact s.own hget

theorem upsert_apply (s : UpsertStore key) (v : ν) (k : κ) :
    s.upsert v k = if k = key v then some v else s k := rfl

/-- Remove the value of a key. -/
def erase (s : UpsertStore key) (k : κ) : UpsertStore key where
  get k' := if k' = k then none else s k'
  own {k' v} h := by
    split_ifs at h
    exact s.own h

theorem erase_apply (s : UpsertStore key) (k k' : κ) :
    s.erase k k' = if k' = k then none else s k' := rfl

/-! ### Writing a list of values -/

/-- Upsert every value of `vs`, in order. -/
def upsertAll (s : UpsertStore key) (vs : List ν) : UpsertStore key :=
  vs.foldl upsert s

@[simp] theorem upsertAll_nil (s : UpsertStore key) : s.upsertAll [] = s := rfl

theorem upsertAll_cons (s : UpsertStore key) (v : ν) (vs : List ν) :
    s.upsertAll (v :: vs) = (s.upsert v).upsertAll vs := rfl

theorem upsertAll_append (s : UpsertStore key) (vs ws : List ν) :
    s.upsertAll (vs ++ ws) = (s.upsertAll vs).upsertAll ws :=
  List.foldl_append

/-- **Last write wins.** After the writes a key holds the last value of the list with that key, or
what it held before. -/
theorem upsertAll_apply (s : UpsertStore key) (vs : List ν) (k : κ) :
    s.upsertAll vs k = ((vs.filter (fun v => key v = k)).getLast?).or (s k) := by
  induction vs generalizing s with
  | nil => simp
  | cons v vs ih =>
    rw [upsertAll_cons, ih, upsert_apply]
    by_cases hv : key v = k
    · rw [if_pos hv.symm, List.filter_cons_of_pos (by simpa using hv), List.getLast?_cons]
      cases (vs.filter (fun v => key v = k)).getLast? <;> simp
    · rw [if_neg (fun h => hv h.symm), List.filter_cons_of_neg (by simpa using hv)]

/-- Writing a list twice is writing it once. -/
theorem upsertAll_idem (s : UpsertStore key) (vs : List ν) :
    (s.upsertAll vs).upsertAll vs = s.upsertAll vs := by
  ext1 k
  rw [upsertAll_apply, upsertAll_apply]
  cases (vs.filter (fun v => key v = k)).getLast? <;> simp

/-- A key that no value has is left as it was. -/
theorem upsertAll_of_keys_ne (s : UpsertStore key) {vs : List ν} {k : κ}
    (h : ∀ v ∈ vs, key v ≠ k) : s.upsertAll vs k = s k := by
  have hvs : vs.filter (fun v => key v = k) = [] := by
    rw [List.filter_eq_nil_iff]
    intro v hv hvk
    exact h v hv (by simpa using hvk)
  rw [upsertAll_apply, hvs]
  rfl

/-- Values whose keys are all written again leave nothing. -/
theorem upsertAll_upsertAll_of_keys (s : UpsertStore key) {vs ws : List ν}
    (h : ∀ v ∈ vs, ∃ w ∈ ws, key w = key v) : (s.upsertAll vs).upsertAll ws = s.upsertAll ws := by
  ext1 k
  simp only [upsertAll_apply]
  cases hw : (ws.filter (fun w => key w = k)).getLast? with
  | some w => rfl
  | none =>
    -- no value of `ws` has the key, so none of `vs` has it
    have hws : ws.filter (fun w => key w = k) = [] := List.getLast?_eq_none_iff.mp hw
    have hvs : vs.filter (fun v => key v = k) = [] := by
      rw [List.filter_eq_nil_iff] at hws ⊢
      intro v hv hvk
      obtain ⟨w, hwmem, hwv⟩ := h v hv
      have hk : key v = k := by simpa using hvk
      exact hws w hwmem (by simpa using hwv.trans hk)
    rw [hvs]
    rfl

/-- Lists without a common key can be written in either order. -/
theorem upsertAll_comm (s : UpsertStore key) {vs ws : List ν}
    (h : ∀ v ∈ vs, ∀ w ∈ ws, key v ≠ key w) :
    (s.upsertAll vs).upsertAll ws = (s.upsertAll ws).upsertAll vs := by
  ext1 k
  simp only [upsertAll_apply]
  -- at most one of the lists writes `k`
  by_cases hv : ∃ v ∈ vs, key v = k
  · obtain ⟨v, hmem, rfl⟩ := hv
    have hnil : ws.filter (fun w => key w = key v) = [] := by
      rw [List.filter_eq_nil_iff]
      intro w hw hwv
      exact h v hmem w hw (by simpa using hwv : key w = key v).symm
    simp [hnil]
  · have hnil : vs.filter (fun v => key v = k) = [] := by
      rw [List.filter_eq_nil_iff]
      intro v hmem hvk
      exact hv ⟨v, hmem, by simpa using hvk⟩
    simp [hnil]

/-- A key is there after the writes when one of the values has it, or when it was there before. -/
theorem isSome_upsertAll {s : UpsertStore key} {vs : List ν} {k : κ} :
    (s.upsertAll vs k).isSome ↔ (∃ v ∈ vs, key v = k) ∨ (s k).isSome := by
  rw [upsertAll_apply, Option.isSome_or, Bool.or_eq_true]
  refine or_congr_left ?_
  rw [List.getLast?_isSome, ne_eq, List.filter_eq_nil_iff]
  simp

/-- With pairwise different keys a lookup finds the value itself. -/
theorem upsertAll_eq_some_of_mem (s : UpsertStore key) {vs : List ν} (h : (vs.map key).Nodup)
    {v : ν} (hv : v ∈ vs) : s.upsertAll vs (key v) = some v := by
  have hmem : v ∈ vs.filter (fun w => key w = key v) := List.mem_filter.mpr ⟨hv, by simp⟩
  obtain ⟨w, hw⟩ : ∃ w, (vs.filter (fun w => key w = key v)).getLast? = some w :=
    Option.isSome_iff_exists.mp (List.getLast?_isSome.mpr (List.ne_nil_of_mem hmem))
  have hwmem : w ∈ vs ∧ key w = key v := by
    simpa using List.mem_filter.mp (List.mem_of_getLast? hw)
  rw [upsertAll_apply, hw, List.inj_on_of_nodup_map h hwmem.1 hv hwmem.2]
  rfl

/-- With pairwise different keys every lookup is the list's `find?`. -/
theorem upsertAll_apply_of_nodup (s : UpsertStore key) {vs : List ν} (h : (vs.map key).Nodup)
    (k : κ) : s.upsertAll vs k = (vs.find? (fun v => key v = k)).or (s k) := by
  cases hf : vs.find? (fun v => decide (key v = k)) with
  | some v =>
    have hk : key v = k := by simpa using List.find?_some hf
    rw [← hk, upsertAll_eq_some_of_mem s h (List.mem_of_find?_eq_some hf)]
    rfl
  | none =>
    rw [List.find?_eq_none] at hf
    have hnil : vs.filter (fun v => key v = k) = [] := by
      rw [List.filter_eq_nil_iff]
      exact hf
    simp [upsertAll_apply, hnil]

/-- In a fresh store the entries are exactly the values written. -/
theorem upsertAll_empty_eq_some_iff {vs : List ν} (h : (vs.map key).Nodup) {k : κ} {v : ν} :
    (empty : UpsertStore key).upsertAll vs k = some v ↔ v ∈ vs ∧ key v = k := by
  rw [upsertAll_apply_of_nodup _ h, empty_apply, Option.or_none]
  constructor
  · intro hf
    exact ⟨List.mem_of_find?_eq_some hf, by simpa using List.find?_some hf⟩
  · rintro ⟨hv, rfl⟩
    have hv' := upsertAll_eq_some_of_mem empty h hv
    rwa [upsertAll_apply_of_nodup _ h, empty_apply, Option.or_none] at hv'

/-- In a fresh store a key holds the one value that was written with it, however often. -/
theorem upsertAll_empty_apply_of_unique {vs : List ν} {k : κ} {o : Option ν}
    (h : ∀ v, v ∈ vs ∧ key v = k ↔ o = some v) : (empty : UpsertStore key).upsertAll vs k = o := by
  have hmem : ∀ v, v ∈ vs.filter (fun v => key v = k) ↔ o = some v := by
    intro v
    rw [List.mem_filter, ← h v, decide_eq_true_iff]
  rw [upsertAll_apply, empty_apply, Option.or_none]
  cases hlast : (vs.filter fun v => key v = k).getLast? with
  | some v => exact ((hmem v).mp (List.mem_of_getLast? hlast)).symm
  | none =>
    rw [List.getLast?_eq_none_iff] at hlast
    cases o with
    | none => rfl
    | some v => exact absurd ((hmem v).mpr rfl) (hlast ▸ List.not_mem_nil)

/-- Writing a value computed from each key: a fresh store is that function on the keys. -/
theorem upsertAll_map_apply {f : κ → ν} (hf : ∀ k, key (f k) = k) (ks : List κ) (k : κ) :
    (empty : UpsertStore key).upsertAll (ks.map f) k = if k ∈ ks then some (f k) else none := by
  have hmem : (∃ v ∈ ks.map f, key v = k) ↔ k ∈ ks := by
    constructor
    · rintro ⟨v, hv, hk⟩
      obtain ⟨k', hk', rfl⟩ := List.mem_map.mp hv
      rwa [← hk, hf]
    · exact fun hk => ⟨f k, List.mem_map_of_mem hk, hf k⟩
  split_ifs with hk
  · obtain ⟨v, hv⟩ := Option.isSome_iff_exists.mp
      (isSome_upsertAll (s := (empty : UpsertStore key)).mpr (Or.inl (hmem.mpr hk)))
    -- whatever value was written last under `k`, it is `f k`
    have hlast : ((ks.map f).filter (fun v => key v = k)).getLast? = some v := by
      rw [← hv, upsertAll_apply, empty_apply, Option.or_none]
    obtain ⟨hvmem, hvk⟩ := List.mem_filter.mp (List.mem_of_getLast? hlast)
    obtain ⟨k', -, rfl⟩ := List.mem_map.mp hvmem
    have hk' : k' = k := by
      rw [← hf k']
      simpa using hvk
    rw [hv, hk']
  · rw [← Option.not_isSome_iff_eq_none, isSome_upsertAll, hmem]
    simpa using hk

/-! ### Stages that upsert -/

variable {π : Type*}

/-- Executions that upsert the values of a payload are redeliverable when two different payloads
write different keys. -/
theorem redeliverable_upsertAll {writes : π → List ν} {S : List π}
    (h : ∀ p ∈ S, ∀ q ∈ S, p ≠ q → ∀ v ∈ writes p, ∀ w ∈ writes q, key v ≠ key w) :
    Redeliverable (fun (s : UpsertStore key) p => s.upsertAll (writes p)) S where
  idem p _ s := s.upsertAll_idem (writes p)
  comm p hp q hq s := by
    by_cases hpq : p = q
    · rw [hpq]
    · exact s.upsertAll_comm (h p hp q hq hpq)

/-- What a stage leaves. -/
theorem foldl_upsertAll (writes : π → List ν) (s : UpsertStore key) (ps : List π) :
    ps.foldl (fun (s : UpsertStore key) p => s.upsertAll (writes p)) s =
      s.upsertAll (ps.flatMap writes) := by
  induction ps generalizing s with
  | nil => rfl
  | cons p ps ih => rw [List.foldl_cons, ih, List.flatMap_cons, upsertAll_append]

/-- Values with pairwise different keys can be written in any order and more than once. -/
theorem upsertAll_eq_of_delivers [DecidableEq ν] {vs ws : List ν} (h : (vs.map key).Nodup)
    (hd : Delivers vs ws) (s : UpsertStore key) : s.upsertAll ws = s.upsertAll vs := by
  have hstage : Redeliverable (fun (s : UpsertStore key) v => s.upsertAll [v]) vs := by
    refine redeliverable_upsertAll fun v hv w hw hne v' hv' w' hw' => ?_
    rw [List.mem_singleton] at hv' hw'
    rw [hv', hw']
    exact fun hkey => hne (List.inj_on_of_nodup_map h hv hw hkey)
  exact foldl_eq_of_delivers hstage hd s

end UpsertStore

end Mirrorlane
