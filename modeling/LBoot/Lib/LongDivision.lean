/-
  LBoot.Lib.LongDivision

  Shift-subtract division, one binary place after the other.

  `longDivision d n` has `n` places left.  What is left of the dividend is
  below the divisor shifted up by them (`Places`), which one place keeps and
  which after the last is what remainder and quotient are.
-/

import Mathlib.Data.Nat.Basic
import Mathlib.Tactic.Ring

namespace LBoot.Lib

variable {a d n : Nat}

/-- One place, with the divisor shifted to it: remainder and quotient. -/
def divStep (b : Nat) (s : Nat × Nat) : Nat × Nat :=
  if b ≤ s.1 then (s.1 - b, 2 * s.2 + 1) else (s.1, 2 * s.2)

/-- The `n` lowest places. -/
def longDivision (d : Nat) : Nat → Nat × Nat → Nat × Nat
  | 0, s => s
  | n + 1, s => longDivision d n (divStep (d * 2 ^ n) s)

/-- With `n` places to go, remainder and quotient make up the dividend. -/
def Places (a d n : Nat) (s : Nat × Nat) : Prop :=
  a = s.2 * (d * 2 ^ n) + s.1 ∧ s.1 < d * 2 ^ n

theorem Places.start (h : a < d * 2 ^ n) : Places a d n (a, 0) :=
  ⟨by simp, h⟩

theorem Places.step {s : Nat × Nat} (h : Places a d (n + 1) s) :
    Places a d n (divStep (d * 2 ^ n) s) := by
  obtain ⟨hsum, hlt⟩ := h
  rw [pow_succ, ← Nat.mul_assoc d] at hsum hlt
  rw [Places, divStep]
  generalize d * 2 ^ n = b at *
  split_ifs with hfits
  · refine ⟨?_, by show s.1 - b < b; omega⟩
    calc a = s.2 * (b * 2) + s.1 := hsum
      _ = s.2 * (b * 2) + (b + (s.1 - b)) := by rw [Nat.add_sub_cancel' hfits]
      _ = (2 * s.2 + 1) * b + (s.1 - b) := by ring
  · refine ⟨?_, Nat.lt_of_not_le hfits⟩
    calc a = s.2 * (b * 2) + s.1 := hsum
      _ = 2 * s.2 * b + s.1 := by ring

/-- The quotient has room for the places to go. -/
theorem Places.quotient_le {s : Nat × Nat} (h : Places a d n s) (hd : 0 < d) :
    s.2 * 2 ^ n ≤ a := by
  calc s.2 * 2 ^ n ≤ s.2 * (d * 2 ^ n) :=
        Nat.mul_le_mul_left _ (Nat.le_mul_of_pos_left _ hd)
    _ ≤ a := by
        rw [h.1]
        exact Nat.le_add_right _ _

theorem Places.longDivision_eq {s : Nat × Nat} (h : Places a d n s) :
    longDivision d n s = (a % d, a / d) := by
  induction n generalizing s with
  | zero =>
      obtain ⟨hsum, hlt⟩ := h
      rw [pow_zero, Nat.mul_one] at hsum hlt
      have hdm := Nat.div_mod_unique (Nat.pos_of_ne_zero (by omega) : 0 < d)
        |>.mpr ⟨(by rw [hsum]; ring : s.1 + d * s.2 = a), hlt⟩
      rw [hdm.1, hdm.2]
      rfl
  | succ n ih => exact ih h.step

/-- Where the dividend ends below the first place, division is complete. -/
theorem longDivision_eq (h : a < d * 2 ^ n) : longDivision d n (a, 0) = (a % d, a / d) :=
  (Places.start h).longDivision_eq

/-! ## Where to start -/

/-- The lowest bit does not move the highest. -/
theorem log2_or_one (h : a ≠ 0) : (a ||| 1).log2 = a.log2 := by
  have hor : a ||| 1 ≠ 0 := by
    have := @Nat.left_le_or a 1
    omega
  refine (Nat.log2_eq_iff hor).mpr ⟨?_, ?_⟩
  · exact (Nat.log2_self_le h).trans Nat.left_le_or
  · exact Nat.or_lt_two_pow Nat.lt_log2_self (Nat.one_lt_two_pow (Nat.succ_ne_zero _))

theorem log2_le_log2 (h : d ≤ a) : d.log2 ≤ a.log2 := by
  by_cases h0 : d = 0
  · subst h0
    exact Nat.zero_le _
  · exact (Nat.le_log2 (by omega)).mpr ((Nat.log2_self_le h0).trans h)

/-- Shifted so that the highest bits meet, a divisor stays in range ... -/
theorem shifted_lt (hd : d ≤ a) : d * 2 ^ (a.log2 - d.log2) < 2 ^ (a.log2 + 1) := by
  have hle := log2_le_log2 hd
  calc d * 2 ^ (a.log2 - d.log2) < 2 ^ (d.log2 + 1) * 2 ^ (a.log2 - d.log2) :=
        Nat.mul_lt_mul_of_pos_right Nat.lt_log2_self (Nat.two_pow_pos _)
    _ = 2 ^ (a.log2 + 1) := by
        rw [← pow_add]
        congr 1
        omega

/-- ... and the dividend is below twice of it. -/
theorem lt_shifted_succ (h0 : d ≠ 0) (hd : d ≤ a) : a < d * 2 ^ (a.log2 - d.log2 + 1) := by
  have hle := log2_le_log2 hd
  calc a < 2 ^ (a.log2 + 1) := Nat.lt_log2_self
    _ = 2 ^ d.log2 * 2 ^ (a.log2 - d.log2 + 1) := by
        rw [← pow_add]
        congr 1
        omega
    _ ≤ d * 2 ^ (a.log2 - d.log2 + 1) := Nat.mul_le_mul_right _ (Nat.log2_self_le h0)

end LBoot.Lib
