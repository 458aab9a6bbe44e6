/-
  LBoot.Lib.BoundedQueue

  First-in first-out queues of bounded capacity.  Both operations move a
  block of elements and are all-or-nothing.
-/

import Mathlib.Data.List.Basic

namespace LBoot.Lib

/-- A queue of at most `cap` elements, oldest first. -/
structure BoundedQueue (α : Type*) (cap : Nat) where
  contents : List α
  bounded : contents.length ≤ cap

namespace BoundedQueue

variable {α : Type*} {cap : Nat}

def empty : BoundedQueue α cap := ⟨[], by simp⟩

/-- The number of elements that still fit. -/
def free (q : BoundedQueue α cap) : Nat := cap - q.contents.length

/-- Append a block, if all of it fits. -/
def enqueue (q : BoundedQueue α cap) (xs : List α) : Option (BoundedQueue α cap) :=
  if h : xs.length ≤ q.free then
    some ⟨q.contents ++ xs, by
      have := q.bounded
      unfold free at h
      rw [List.length_append]
      omega⟩
  else none

/-- Remove the oldest `n` elements, if there are as many. -/
def dequeue (q : BoundedQueue α cap) (n : Nat) : Option (List α × BoundedQueue α cap) :=
  if n ≤ q.contents.length then
    some (q.contents.take n, ⟨q.contents.drop n, by
      have := q.bounded
      rw [List.length_drop]
      omega⟩)
  else none

theorem enqueue_fits {q : BoundedQueue α cap} {xs : List α} (h : xs.length ≤ q.free) :
    ∃ q', q.enqueue xs = some q' ∧ q'.contents = q.contents ++ xs := by
  unfold enqueue
  rw [dif_pos h]
  exact ⟨_, rfl, rfl⟩

theorem enqueue_full {q : BoundedQueue α cap} {xs : List α} (h : q.free < xs.length) :
    q.enqueue xs = none := by
  unfold enqueue
  rw [dif_neg (by omega)]

theorem dequeue_avail {q : BoundedQueue α cap} {n : Nat} (h : n ≤ q.contents.length) :
    ∃ q', q.dequeue n = some (q.contents.take n, q') ∧ q'.contents = q.contents.drop n := by
  unfold dequeue
  rw [if_pos h]
  exact ⟨_, rfl, rfl⟩

theorem dequeue_short {q : BoundedQueue α cap} {n : Nat} (h : q.contents.length < n) :
    q.dequeue n = none := by
  unfold dequeue
  rw [if_neg (by omega)]

end BoundedQueue
end LBoot.Lib
