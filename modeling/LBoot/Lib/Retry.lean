/-
  LBoot.Lib.Retry

  Attempts that may fail.

  The outcomes are numbered in the order in which the attempts are made.  A
  request is answered by the first attempt that succeeds, if that is among
  the attempts it is given; requests that are made one after the other go on
  with the next outcome (`Served`).
-/

import Mathlib.Order.Basic

namespace LBoot.Lib

variable {ok : Nat → Prop} {i k n : Nat}

/-- From attempt `i` on, `k` attempts fail and the next one succeeds. -/
structure FirstSuccess (ok : Nat → Prop) (i k : Nat) : Prop where
  success : ok (i + k)
  failures : ∀ j < k, ¬ ok (i + j)

/-- So many requests from attempt `i` on, each answered within `b` attempts. -/
def Served (ok : Nat → Prop) (b : Nat) : Nat → Nat → Prop
  | 0, _ => True
  | n + 1, i => ∃ k < b, FirstSuccess ok i k ∧ Served ok b n (i + k + 1)

theorem firstSuccess_zero (h : ok i) : FirstSuccess ok i 0 :=
  ⟨h, fun _ hj => absurd hj (Nat.not_lt_zero _)⟩

/-- Failures behind a failure. -/
theorem failures_succ (hfail : ¬ ok i) (h : ∀ j < n, ¬ ok (i + 1 + j)) :
    ∀ j < n + 1, ¬ ok (i + j) := by
  intro j hj
  cases j with
  | zero => exact hfail
  | succ j =>
      have hnext := h j (Nat.lt_of_succ_lt_succ hj)
      rwa [Nat.add_right_comm] at hnext

/-- A success behind a failure. -/
theorem FirstSuccess.succ (hfail : ¬ ok i) (h : FirstSuccess ok (i + 1) k) :
    FirstSuccess ok i (k + 1) := by
  have hsuccess := h.success
  rw [Nat.add_right_comm] at hsuccess
  exact ⟨hsuccess, failures_succ hfail h.failures⟩

theorem FirstSuccess.le_of_ok {l : Nat} (h : FirstSuccess ok i k) (hok : ok (i + l)) : k ≤ l := by
  by_contra hlt
  exact h.failures l (Nat.lt_of_not_le hlt) hok

theorem FirstSuccess.unique {l : Nat} (h : FirstSuccess ok i k) (h' : FirstSuccess ok i l) :
    k = l :=
  Nat.le_antisymm (h.le_of_ok h'.success) (h'.le_of_ok h.success)

/-- Behind the attempt that answers the first request come the others. -/
theorem FirstSuccess.served_succ_iff {b : Nat} (h : FirstSuccess ok i k) (hk : k < b) :
    Served ok b (n + 1) i ↔ Served ok b n (i + k + 1) := by
  constructor
  · rintro ⟨l, -, hfirst, hrest⟩
    rwa [h.unique hfirst]
  · intro hrest
    exact ⟨k, hk, h, hrest⟩

theorem not_served_succ {b : Nat} (h : ∀ k < b, ¬ ok (i + k)) : ¬ Served ok b (n + 1) i := by
  rintro ⟨k, hk, hfirst, -⟩
  exact h k hk hfirst.success

end LBoot.Lib
