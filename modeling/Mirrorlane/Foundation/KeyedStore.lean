import Mathlib.Logic.Basic
import Mathlib.Tactic.TypeStar

/-!
# Keyed stores

`KeyedStore κ ν` is a finite map seen through its lookups: `insert` replaces the entry of one key
(`insert_self`) and leaves every other (`insert_of_ne`), `restrict` keeps the entries of some keys,
and `map` changes every value.
-/

namespace Mirrorlane

/-- A keyed store, seen through its lookups. -/
structure KeyedStore (κ ν : Type*) where
  get : κ → Option ν

namespace KeyedStore

variable {κ ν : Type*}

instance : CoeFun (KeyedStore κ ν) fun _ => κ → Option ν := ⟨get⟩

/-- The store that holds nothing. -/
def empty : KeyedStore κ ν := ⟨fun _ => none⟩

@[simp] theorem empty_apply (k : κ) : (empty : KeyedStore κ ν) k = none := rfl

/-- Keep the entries of the keys that satisfy `p`. -/
def restrict (s : KeyedStore κ ν) (p : κ → Prop) [DecidablePred p] : KeyedStore κ ν :=
  ⟨fun k => if p k then s k else none⟩

theorem restrict_apply (s : KeyedStore κ ν) (p : κ → Prop) [DecidablePred p] (k : κ) :
    s.restrict p k = if p k then s k else none := rfl

/-- Change every value. -/
def map {ν' : Type*} (f : ν → ν') (s : KeyedStore κ ν) : KeyedStore κ ν' :=
  ⟨fun k => (s k).map f⟩

@[simp] theorem map_apply {ν' : Type*} (f : ν → ν') (s : KeyedStore κ ν) (k : κ) :
    s.map f k = (s k).map f := rfl

theorem map_restrict {ν' : Type*} (f : ν → ν') (s : KeyedStore κ ν) (p : κ → Prop)
    [DecidablePred p] : (s.restrict p).map f = (s.map f).restrict p := by
  refine congrArg mk (funext fun k => ?_)
  exact apply_ite (Option.map f) (p k) (s k) none

variable [DecidableEq κ]

/-- Insert or replace the entry of `k`. -/
def insert (s : KeyedStore κ ν) (k : κ) (v : ν) : KeyedStore κ ν :=
  ⟨fun k' => if k' = k then some v else s k'⟩

theorem insert_apply (s : KeyedStore κ ν) (k k' : κ) (v : ν) :
    s.insert k v k' = if k' = k then some v else s k' := rfl

@[simp] theorem insert_self (s : KeyedStore κ ν) (k : κ) (v : ν) : s.insert k v k = some v := by
  simp [insert_apply]

@[simp] theorem insert_of_ne (s : KeyedStore κ ν) {k k' : κ} (h : k' ≠ k) (v : ν) :
    s.insert k v k' = s k' := by
  simp [insert_apply, h]

theorem map_insert {ν' : Type*} (f : ν → ν') (s : KeyedStore κ ν) (k : κ) (v : ν) :
    (s.insert k v).map f = (s.map f).insert k (f v) := by
  refine congrArg mk (funext fun k' => ?_)
  exact apply_ite (Option.map f) (k' = k) (some v) (s k')

end KeyedStore

end Mirrorlane
