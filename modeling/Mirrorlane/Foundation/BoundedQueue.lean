import Mirrorlane.Foundation.OrderBy
import Mirrorlane.Foundation.UpsertList

/-!
# Bounded queues

`enqueue key cap x xs` is one write to a queue of values with keys: a known key keeps its place and
gets the new value, a new key goes last, and the oldest value leaves when there are more than `cap`.
`newest n xs` is what remains of a list that is cut to its last `n` values.

A table that numbers its rows in insertion order is cut by a query: keep the rows whose number is
among the `n` largest.  On increasing numbers that is `newest n` (`filter_mem_take_orderBy`), and a
row stays exactly when fewer than `n` rows have a larger number (`mem_newest_iff`).
-/

namespace Mirrorlane

/-! ### The newest values -/

section Newest

variable {α : Type*}

/-- The last `n` values. -/
def newest (n : ℕ) (xs : List α) : List α := xs.drop (xs.length - n)

theorem length_newest (n : ℕ) (xs : List α) : (newest n xs).length = min n xs.length := by
  unfold newest
  rw [List.length_drop]
  omega

theorem newest_of_length_le {n : ℕ} {xs : List α} (h : xs.length ≤ n) : newest n xs = xs := by
  have hzero : xs.length - n = 0 := by omega
  unfold newest
  rw [hzero, List.drop_zero]

theorem newest_sublist (n : ℕ) (xs : List α) : (newest n xs).Sublist xs :=
  List.drop_sublist _ _

theorem newest_map {β : Type*} (f : α → β) (n : ℕ) (xs : List α) :
    newest n (xs.map f) = (newest n xs).map f := by
  unfold newest
  rw [List.length_map, List.map_drop]

/-- What the cut drops, and what it keeps. -/
theorem take_append_newest (n : ℕ) (xs : List α) :
    xs.take (xs.length - n) ++ newest n xs = xs :=
  List.take_append_drop _ _

/-- One value too many: the oldest leaves. -/
theorem newest_eq_tail {n : ℕ} {xs : List α} (h : xs.length = n + 1) : newest n xs = xs.tail := by
  have hone : xs.length - n = 1 := by omega
  unfold newest
  rw [hone, List.drop_one]

variable {num : α → ℕ}

/-- In a list of increasing numbers a value stays when fewer than `n` have a larger number. -/
theorem mem_newest_iff {xs : List α} (h : xs.Pairwise fun x y => num x < num y) {x : α}
    (hx : x ∈ xs) (n : ℕ) :
    x ∈ newest n xs ↔ (xs.filter fun y => num x < num y).length < n := by
  obtain ⟨before, after, rfl⟩ := List.append_of_mem hx
  rw [List.pairwise_append, List.pairwise_cons] at h
  obtain ⟨-, ⟨hafter, -⟩, hbefore⟩ := h
  -- the values with a larger number are those that stand after it
  have hlarger : (before ++ x :: after).filter (fun y => num x < num y) = after := by
    have hsmall : before.filter (fun y => num x < num y) = [] := by
      refine List.filter_eq_nil_iff.mpr fun y hy => ?_
      have hlt := hbefore y hy x List.mem_cons_self
      simpa using hlt.le
    have hall : after.filter (fun y => num x < num y) = after :=
      List.filter_eq_self.mpr fun y hy => by simpa using hafter y hy
    rw [List.filter_append, hsmall, List.filter_cons_of_neg (by simp), hall, List.nil_append]
  rw [hlarger]
  unfold newest
  rw [List.length_append, List.length_cons]
  constructor
  · intro hmem
    by_contra hn
    -- the cut falls behind `x`, and `x` does not stand there again
    have hcut : before.length + (after.length + 1) - n = before.length + 1 +
        (after.length - n) := by omega
    have hskip : (before ++ x :: after).drop (before.length + 1) = after := by
      rw [List.append_cons]
      exact List.drop_left' (by simp)
    rw [hcut, ← List.drop_drop, hskip] at hmem
    exact lt_irrefl _ (hafter x (List.mem_of_mem_drop hmem))
  · intro hn
    have hle : before.length + (after.length + 1) - n ≤ before.length := by omega
    rw [List.drop_append_of_le_length hle]
    exact List.mem_append_right _ List.mem_cons_self

end Newest

/-- **Keeping the `n` largest numbers is keeping the newest.** -/
theorem filter_mem_take_orderBy {α : Type} (sql : OrderBy) {num : α → ℕ} {xs : List α}
    (h : xs.Pairwise fun x y => num x < num y) (n : ℕ) :
    (xs.filter fun x =>
      num x ∈ ((sql.orderBy (fun x => -(num x : ℤ)) xs).take n).map num) = newest n xs := by
  have hreverse : sql.orderBy (fun x => -(num x : ℤ)) xs = xs.reverse := by
    refine sql.orderBy_eq_of_perm (List.reverse_perm xs).symm ?_
    rw [List.pairwise_reverse]
    exact h.imp fun hlt => by omega
  have htake : (xs.reverse.take n).map num = ((newest n xs).map num).reverse := by
    unfold newest
    rw [List.take_reverse, List.map_reverse]
  rw [hreverse, htake]
  simp only [List.mem_reverse]
  have hdistinct : (xs.map num).Nodup := List.pairwise_map.mpr (h.imp fun hlt => hlt.ne)
  rw [← take_append_newest n xs, List.map_append, List.nodup_append] at hdistinct
  -- no dropped number is among the kept ones
  have hdropped : (xs.take (xs.length - n)).filter
      (fun x => num x ∈ (newest n xs).map num) = [] := by
    refine List.filter_eq_nil_iff.mpr fun x hx hmem => ?_
    exact hdistinct.2.2 _ (List.mem_map_of_mem hx) _ (by simpa using hmem) rfl
  have hkept : (newest n xs).filter (fun x => num x ∈ (newest n xs).map num) = newest n xs :=
    List.filter_eq_self.mpr fun x hx => by simpa using ⟨x, hx, rfl⟩
  conv_lhs => rw [← take_append_newest n xs]
  rw [List.filter_append, take_append_newest, hdropped, hkept, List.nil_append]

/-! ### Queues -/

section Queue

variable {α κ : Type*} [DecidableEq κ] (key : α → κ) (cap : ℕ)

/-- Write one value: in place under a known key, else last; then drop the oldest value if there are
too many. -/
def enqueue (x : α) (queue : List α) : List α :=
  if cap < (upsertBy key x queue).length then (upsertBy key x queue).tail else upsertBy key x queue

/-- Write some values, in order. -/
def enqueueAll (xs : List α) (queue : List α) : List α :=
  xs.foldl (fun queue x => enqueue key cap x queue) queue

variable {key} {cap}

/-- A write adds one value at most. -/
theorem length_upsertBy_le (x : α) (xs : List α) : (upsertBy key x xs).length ≤ xs.length + 1 := by
  unfold upsertBy
  split_ifs <;> simp

/-- In a queue that is not too long, the cut keeps the newest. -/
theorem enqueue_eq_newest (x : α) {queue : List α} (h : queue.length ≤ cap) :
    enqueue key cap x queue = newest cap (upsertBy key x queue) := by
  have hlen : (upsertBy key x queue).length ≤ queue.length + 1 := length_upsertBy_le x queue
  unfold enqueue
  split_ifs with hcap
  · have hone : (upsertBy key x queue).length = cap + 1 := by omega
    exact (newest_eq_tail hone).symm
  · exact (newest_of_length_le (by omega)).symm

theorem length_enqueue_le (x : α) {queue : List α} (h : queue.length ≤ cap) :
    (enqueue key cap x queue).length ≤ cap := by
  have hlen := length_newest cap (upsertBy key x queue)
  rw [enqueue_eq_newest x h]
  omega

end Queue

end Mirrorlane
