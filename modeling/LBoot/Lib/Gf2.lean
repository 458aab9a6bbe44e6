/-
  LBoot.Lib.Gf2

  Shift registers as polynomials over the field of two elements: bit `i` of a
  register of `w` bits is the coefficient of `X ^ i`.

  A shift with the feedback `g` multiplies by `X` modulo `X ^ w + poly g`, so
  what a register holds is best said in the quotient ring, as its residue
  (`residue_mulX`).  A cyclic redundancy check is such a register that takes
  up the message on the way; it ends with the remainder of the message
  (`crc_eq_modByMonic`).

  A register whose feedback is inverted adds `g` to every step.  Its runs
  from zero are geometric sums, and they can be computed in logarithmic time
  (`jump_eq`).
-/

import Mathlib.Algebra.CharP.Two
import Mathlib.Algebra.Field.ZMod
import Mathlib.Algebra.Polynomial.Div
import Mathlib.Data.Nat.Prime.Basic
import Mathlib.Data.ZMod.Basic
import Mathlib.Dynamics.PeriodicPts.Defs
import Mathlib.RingTheory.AdjoinRoot

namespace LBoot.Lib

open Polynomial

variable {w k : Nat}

/-! ## Registers as polynomials -/

/-- The polynomial of a register. -/
noncomputable def poly (c : BitVec w) : (ZMod 2)[X] :=
  ∑ i ∈ Finset.range w, if c.getLsbD i then X ^ i else 0

/-- `X ^ w` and the feedback. -/
noncomputable def modulus (g : BitVec w) : (ZMod 2)[X] := X ^ w + poly g

theorem coeff_poly (c : BitVec w) (i : Nat) :
    (poly c).coeff i = if c.getLsbD i then 1 else 0 := by
  have hterm (j : Nat) : (if c.getLsbD j then X ^ j else 0 : (ZMod 2)[X]).coeff i
      = if i = j then (if c.getLsbD j then 1 else 0) else 0 := by
    split
    · rw [coeff_X_pow]
    · rw [coeff_zero, ite_self]
  rw [poly, finsetSum_coeff, Finset.sum_congr rfl fun j _ => hterm j, Finset.sum_ite_eq]
  split
  · rfl
  · next hi =>
      rw [BitVec.getLsbD_of_ge _ _ (Nat.le_of_not_lt fun h => hi (Finset.mem_range.mpr h))]
      rfl

theorem degree_poly_lt (c : BitVec w) : (poly c).degree < w := by
  rw [degree_lt_iff_coeff_zero]
  intro i hi
  rw [coeff_poly, BitVec.getLsbD_of_ge _ _ hi]
  rfl

theorem poly_injective : Function.Injective (poly : BitVec w → (ZMod 2)[X]) := by
  intro a b h
  apply BitVec.eq_of_getLsbD_eq
  intro i _
  have hi := congrArg (coeff · i) h
  simp only [coeff_poly] at hi
  cases ha : a.getLsbD i <;> cases hb : b.getLsbD i <;> simp [ha, hb] at hi ⊢

@[simp] theorem poly_zero : poly (0#w) = 0 := by
  ext i
  rw [coeff_poly, BitVec.getLsbD_zero]
  simp

theorem poly_xor (a b : BitVec w) : poly (a ^^^ b) = poly a + poly b := by
  ext i
  rw [coeff_add, coeff_poly, coeff_poly, coeff_poly, BitVec.getLsbD_xor]
  cases a.getLsbD i <;> cases b.getLsbD i <;> decide

/-- A shift by one: the bit that leaves the register is the coefficient of
    `X ^ w`. -/
theorem X_mul_poly (c : BitVec w) :
    X * poly c = poly (c <<< 1) + if c.msb then X ^ w else 0 := by
  ext i
  rw [coeff_add, coeff_poly, BitVec.getLsbD_shiftLeft, BitVec.msb_eq_getLsbD_last]
  cases i with
  | zero =>
      cases w with
      | zero => simp [BitVec.of_length_zero]
      | succ w => simp [apply_ite (coeff · 0)]
  | succ i =>
      rw [coeff_X_mul, coeff_poly, apply_ite (coeff · (i + 1)), coeff_X_pow, coeff_zero]
      by_cases hi : i + 1 < w
      · simp [hi, Nat.ne_of_lt hi]
      · by_cases hw : i + 1 = w
        · subst hw
          simp
        · rw [BitVec.getLsbD_of_ge c i (by omega)]
          simp [hi, hw]

/-! ## Residues -/

variable {g : BitVec w}

theorem modulus_monic (g : BitVec w) : (modulus g).Monic := monic_X_pow_add (degree_poly_lt g)

theorem degree_modulus (g : BitVec w) : (modulus g).degree = w := by
  rw [modulus, degree_add_eq_left_of_degree_lt] <;> rw [degree_X_pow]
  exact degree_poly_lt g

/-- What a register stands for. -/
noncomputable def residue (g c : BitVec w) : AdjoinRoot (modulus g) :=
  AdjoinRoot.mk (modulus g) (poly c)

theorem residue_injective (g : BitVec w) : Function.Injective (residue g) := by
  intro a b h
  rw [residue, residue, AdjoinRoot.mk_eq_mk] at h
  have hlt : (poly a - poly b).degree < (modulus g).degree := by
    rw [degree_modulus]
    exact lt_of_le_of_lt (degree_sub_le _ _) (max_lt (degree_poly_lt a) (degree_poly_lt b))
  exact poly_injective (sub_eq_zero.mp (eq_zero_of_dvd_of_degree_lt h hlt))

/-- A register holds the remainder of a polynomial if its residue is the
    polynomial's. -/
theorem poly_eq_modByMonic_iff {c : BitVec w} {p : (ZMod 2)[X]} :
    poly c = p %ₘ modulus g ↔ residue g c = AdjoinRoot.mk (modulus g) p := by
  have hself : poly c %ₘ modulus g = poly c := by
    rw [modByMonic_eq_self_iff (modulus_monic g), degree_modulus]
    exact degree_poly_lt c
  have hmk : AdjoinRoot.mk (modulus g) (p %ₘ modulus g) = AdjoinRoot.mk (modulus g) p :=
    AdjoinRoot.mk_eq_mk.mpr (dvd_modByMonic_sub p (modulus g))
  constructor
  · intro h
    rw [residue, h, hmk]
  · intro h
    rw [residue, AdjoinRoot.mk_eq_mk] at h
    rw [← hself]
    exact modByMonic_eq_of_dvd_sub (modulus_monic g) h

@[simp] theorem residue_zero : residue g 0#w = 0 := by rw [residue, poly_zero, map_zero]

theorem residue_xor (a b : BitVec w) : residue g (a ^^^ b) = residue g a + residue g b := by
  rw [residue, poly_xor, map_add, residue, residue]

theorem add_self_residue (a : AdjoinRoot (modulus g)) : a + a = 0 := by
  obtain ⟨p, rfl⟩ := AdjoinRoot.mk_surjective a
  rw [← map_add, CharTwo.add_self_eq_zero, map_zero]

/-- The root of the modulus to the power `w` is the feedback. -/
theorem root_pow (g : BitVec w) : AdjoinRoot.root (modulus g) ^ w = residue g g := by
  have h : AdjoinRoot.mk (modulus g) (X ^ w + poly g) = 0 := AdjoinRoot.mk_self
  rw [map_add, map_pow, AdjoinRoot.mk_X] at h
  rw [residue, ← sub_eq_zero, ← h, sub_eq_add_neg]
  congr 1
  exact neg_eq_of_add_eq_zero_left (add_self_residue _)

/-! ## Shifts with feedback -/

/-- A shift by one with the feedback `g`. -/
def mulX (g c : BitVec w) : BitVec w := (c <<< 1) ^^^ if c.msb then g else 0#w

/-- The same with the feedback inverted: it is added where `mulX` does not. -/
def mulXNot (g c : BitVec w) : BitVec w := (c <<< 1) ^^^ if c.msb then 0#w else g

theorem residue_mulX (c : BitVec w) :
    residue g (mulX g c) = AdjoinRoot.root (modulus g) * residue g c := by
  have hX := congrArg (AdjoinRoot.mk (modulus g)) (X_mul_poly c)
  rw [map_mul, AdjoinRoot.mk_X, map_add] at hX
  have hif : residue g (if c.msb then g else 0#w)
      = AdjoinRoot.mk (modulus g) (if c.msb then X ^ w else 0) := by
    split
    · rw [map_pow, AdjoinRoot.mk_X, root_pow]
    · rw [residue_zero, map_zero]
  rw [mulX, residue_xor, hif, residue, residue, hX]

theorem mulXNot_eq (g c : BitVec w) : mulXNot g c = mulX g c ^^^ g := by
  rw [mulXNot, mulX]
  split
  · rw [BitVec.xor_assoc, BitVec.xor_self, BitVec.xor_zero]
  · rw [BitVec.xor_zero]

theorem residue_mulXNot (c : BitVec w) :
    residue g (mulXNot g c)
      = AdjoinRoot.root (modulus g) * residue g c + AdjoinRoot.root (modulus g) ^ w := by
  rw [mulXNot_eq, residue_xor, residue_mulX, root_pow]

theorem residue_mulX_iterate (n : Nat) (c : BitVec w) :
    residue g ((mulX g)^[n] c) = AdjoinRoot.root (modulus g) ^ n * residue g c := by
  induction n with
  | zero => rw [pow_zero, one_mul, Function.iterate_zero_apply]
  | succ n ih => rw [Function.iterate_succ_apply', residue_mulX, ih, pow_succ', mul_assoc]

theorem residue_mulXNot_iterate (n : Nat) (c : BitVec w) :
    residue g ((mulXNot g)^[n] c) = AdjoinRoot.root (modulus g) ^ n * residue g c
      + AdjoinRoot.root (modulus g) ^ w * ∑ i ∈ Finset.range n, AdjoinRoot.root (modulus g) ^ i := by
  induction n with
  | zero =>
      rw [Function.iterate_zero_apply, pow_zero, one_mul, Finset.sum_range_zero, mul_zero, add_zero]
  | succ n ih =>
      rw [Function.iterate_succ_apply', residue_mulXNot, ih, Finset.sum_range_succ', pow_zero,
        Finset.sum_congr rfl fun i _ => pow_succ' (AdjoinRoot.root (modulus g)) i,
        ← Finset.mul_sum]
      ring

/-! ## Redundancy checks -/

/-- The polynomial of a message of `k`-bit words, the first word highest. -/
noncomputable def message (bs : List (BitVec k)) : (ZMod 2)[X] :=
  bs.foldl (fun p b => X ^ k * p + poly b) 0

/-- Take up one word: it goes to the high end, and the register is shifted by
    its width. -/
def crcStep (step : BitVec w → BitVec w) (c : BitVec w) (b : BitVec k) : BitVec w :=
  step^[k] (c ^^^ (b.setWidth w <<< (w - k)))

/-- The cyclic redundancy check of a message. -/
def crc (g : BitVec w) (bs : List (BitVec k)) : BitVec w := bs.foldl (crcStep (mulX g)) 0#w

theorem poly_high (hk : k ≤ w) (b : BitVec k) :
    poly (b.setWidth w <<< (w - k)) = X ^ (w - k) * poly b := by
  ext i
  rw [coeff_poly, coeff_X_pow_mul', coeff_poly, BitVec.getLsbD_shiftLeft, BitVec.getLsbD_setWidth]
  by_cases hi : w - k ≤ i
  · rw [if_pos hi]
    by_cases hw : i < w
    · simp [hw, Nat.not_lt.mpr hi, show i - (w - k) < w by omega]
    · rw [BitVec.getLsbD_of_ge b _ (by omega)]
      simp
  · rw [if_neg hi]
    simp [Nat.lt_of_not_le hi]

theorem residue_high (hk : k ≤ w) (b : BitVec k) :
    AdjoinRoot.root (modulus g) ^ k * residue g (b.setWidth w <<< (w - k))
      = AdjoinRoot.root (modulus g) ^ w * AdjoinRoot.mk (modulus g) (poly b) := by
  rw [residue, poly_high hk, map_mul, map_pow, AdjoinRoot.mk_X, ← mul_assoc, ← pow_add,
    Nat.add_sub_of_le hk]

theorem residue_crcStep (hk : k ≤ w) (c : BitVec w) (b : BitVec k) :
    residue g (crcStep (mulX g) c b) = AdjoinRoot.root (modulus g) ^ k * residue g c
      + AdjoinRoot.root (modulus g) ^ w * AdjoinRoot.mk (modulus g) (poly b) := by
  rw [crcStep, residue_mulX_iterate, residue_xor, mul_add, residue_high hk]

theorem residue_crc (hk : k ≤ w) (bs : List (BitVec k)) :
    residue g (crc g bs) = AdjoinRoot.mk (modulus g) (message bs * X ^ w) := by
  have hfold : ∀ (c : BitVec w) (p : (ZMod 2)[X]),
      residue g c = AdjoinRoot.mk (modulus g) (p * X ^ w) →
      residue g (bs.foldl (crcStep (mulX g)) c)
        = AdjoinRoot.mk (modulus g) (bs.foldl (fun p b => X ^ k * p + poly b) p * X ^ w) := by
    induction bs with
    | nil => exact fun _ _ h => h
    | cons b bs ih =>
        intro c p h
        apply ih
        rw [residue_crcStep hk, h]
        simp only [map_mul, map_add, map_pow, AdjoinRoot.mk_X]
        ring
  exact hfold 0#w 0 (by rw [residue_zero, zero_mul, map_zero])

/-- **The check** is the remainder of the message, `w` places further up. -/
theorem crc_eq_modByMonic (hk : k ≤ w) (bs : List (BitVec k)) :
    poly (crc g bs) = (message bs * X ^ w) %ₘ modulus g :=
  poly_eq_modByMonic_iff.mpr (residue_crc hk bs)

/-! ## Inverted feedback -/

theorem poly_not (b : BitVec k) :
    poly (~~~b) = poly b + ∑ i ∈ Finset.range k, (X ^ i : (ZMod 2)[X]) := by
  ext i
  have hsum : (∑ j ∈ Finset.range k, (X ^ j : (ZMod 2)[X])).coeff i = if i < k then 1 else 0 := by
    rw [finsetSum_coeff, Finset.sum_congr rfl fun j _ => coeff_X_pow j i, Finset.sum_ite_eq]
    simp only [Finset.mem_range]
  rw [coeff_add, coeff_poly, coeff_poly, hsum, BitVec.getLsbD_not]
  by_cases hi : i < k
  · rw [if_pos hi]
    cases hb : b.getLsbD i <;> simp [hi]
    decide
  · rw [if_neg hi, BitVec.getLsbD_of_ge b i (Nat.le_of_not_lt hi)]
    simp [hi]

/-- Inverted feedback checks the inverted message. -/
theorem crcStep_mulXNot (hk : k ≤ w) (c : BitVec w) (b : BitVec k) :
    crcStep (mulXNot g) c b = crcStep (mulX g) c (~~~b) := by
  apply residue_injective g
  rw [residue_crcStep hk, crcStep, residue_mulXNot_iterate, residue_xor, mul_add, residue_high hk,
    poly_not, map_add, map_sum, add_assoc, ← mul_add]
  simp only [map_pow, AdjoinRoot.mk_X]

theorem message_not (bs : List (BitVec k)) :
    message (bs.map (~~~·))
      = message bs + ∑ i ∈ Finset.range (k * bs.length), (X ^ i : (ZMod 2)[X]) := by
  have hfold : ∀ (p : (ZMod 2)[X]) (n : Nat),
      (bs.map (~~~·)).foldl (fun p b => X ^ k * p + poly b) (p + ∑ i ∈ Finset.range n, X ^ i)
        = bs.foldl (fun p b => X ^ k * p + poly b) p
          + ∑ i ∈ Finset.range (n + k * bs.length), X ^ i := by
    induction bs with
    | nil => exact fun _ _ => rfl
    | cons b bs ih =>
        intro p n
        have hsum : X ^ k * ∑ i ∈ Finset.range n, (X ^ i : (ZMod 2)[X]) + ∑ i ∈ Finset.range k, X ^ i
            = ∑ i ∈ Finset.range (n + k), X ^ i := by
          rw [Nat.add_comm n k, Finset.sum_range_add, Finset.mul_sum, add_comm]
          simp only [pow_add]
        have hinit : X ^ k * (p + ∑ i ∈ Finset.range n, X ^ i) + (poly b + ∑ i ∈ Finset.range k, X ^ i)
            = X ^ k * p + poly b + (X ^ k * ∑ i ∈ Finset.range n, X ^ i
              + ∑ i ∈ Finset.range k, X ^ i) := by
          ring
        rw [List.map_cons, List.foldl_cons, List.foldl_cons, poly_not, List.length_cons, Nat.mul_succ,
          Nat.add_comm (k * bs.length), ← Nat.add_assoc, ← ih, ← hsum, hinit]
  have h := hfold 0 0
  rwa [Finset.sum_range_zero, add_zero, Nat.zero_add] at h

/-- What inverting a message does to its check depends on its length only. -/
theorem crc_not (hk : k ≤ w) (bs : List (BitVec k)) :
    crc g (bs.map (~~~·)) = crc g bs ^^^ (mulXNot g)^[k * bs.length] 0#w := by
  apply residue_injective g
  rw [residue_xor, residue_crc hk, residue_crc hk, message_not, residue_mulXNot_iterate,
    residue_zero, mul_zero, zero_add, add_mul, map_add]
  congr 1
  rw [map_mul, map_sum, mul_comm]
  simp only [map_pow, AdjoinRoot.mk_X]

/-! ## Long runs -/

/-- The product modulo the modulus, from the highest bit of `v` on. -/
def mulTop (g a v : BitVec w) : Nat → BitVec w
  | 0 => 0#w
  | j + 1 => mulX g (mulTop g a v j) ^^^ if v.getLsbD (w - 1 - j) then a else 0#w

theorem residue_mulTop (a v : BitVec w) {j : Nat} (hj : j ≤ w) :
    residue g (mulTop g a v j) = residue g a * residue g (v >>> (w - j)) := by
  induction j with
  | zero =>
      have hzero : v >>> (w - 0) = 0#w := BitVec.ushiftRight_eq_zero (Nat.le_refl w)
      rw [hzero, mulTop, residue_zero, mul_zero]
  | succ j ih =>
      have hshift : poly (v >>> (w - (j + 1)))
          = X * poly (v >>> (w - j)) + if v.getLsbD (w - 1 - j) then 1 else 0 := by
        ext i
        rw [coeff_poly, coeff_add, BitVec.getLsbD_ushiftRight, apply_ite (coeff · i)]
        cases i with
        | zero =>
            rw [mul_coeff_zero, coeff_X_zero, zero_mul, zero_add, coeff_one_zero, coeff_zero,
              show w - (j + 1) + 0 = w - 1 - j by omega]
        | succ i =>
            rw [coeff_X_mul, coeff_poly, BitVec.getLsbD_ushiftRight, coeff_one, coeff_zero,
              if_neg (Nat.succ_ne_zero i), ite_self, add_zero,
              show w - (j + 1) + (i + 1) = w - j + i by omega]
      have hif : residue g (if v.getLsbD (w - 1 - j) then a else 0#w)
          = residue g a * AdjoinRoot.mk (modulus g) (if v.getLsbD (w - 1 - j) then 1 else 0) := by
        split
        · rw [map_one, mul_one]
        · rw [residue_zero, map_zero, mul_zero]
      rw [mulTop, residue_xor, residue_mulX, ih (by omega), hif, ← mul_left_comm, ← mul_add]
      congr 1
      rw [residue, residue, hshift, map_add, map_mul, AdjoinRoot.mk_X]

/-- From the registers behind `n` steps to those behind `2 * n` or `2 * n + 1`. -/
def jumpStep (g : BitVec w) (s : BitVec w × BitVec w) (odd : Bool) : BitVec w × BitVec w :=
  let s := (s.1 ^^^ mulTop g s.2 s.1 w, mulTop g s.2 s.2 w)
  if odd then (mulXNot g s.1, mulX g s.2) else s

/-- Both kinds of register, run for the number of steps with these binary
    digits: with the feedback inverted from zero, and plain from one. -/
def jump (g : BitVec w) (digits : List Bool) : BitVec w × BitVec w :=
  digits.foldl (jumpStep g) (0#w, 1#w)

theorem residue_one (hw : 0 < w) : residue g 1#w = 1 := by
  have hpoly : poly (1#w) = 1 := by
    ext i
    rw [coeff_poly, BitVec.getLsbD_one, coeff_one]
    simp [hw, eq_comm]
  rw [residue, hpoly, map_one]

theorem residue_mulTop_self (a v : BitVec w) :
    residue g (mulTop g a v w) = residue g a * residue g v := by
  rw [residue_mulTop a v (Nat.le_refl w), Nat.sub_self, BitVec.ushiftRight_zero]

theorem jumpStep_eq (hw : 0 < w) (n : Nat) (odd : Bool) :
    jumpStep g ((mulXNot g)^[n] 0#w, (mulX g)^[n] 1#w) odd
      = ((mulXNot g)^[Nat.bit odd n] 0#w, (mulX g)^[Nat.bit odd n] 1#w) := by
  have hdouble : ((mulXNot g)^[n] 0#w ^^^ mulTop g ((mulX g)^[n] 1#w) ((mulXNot g)^[n] 0#w) w,
      mulTop g ((mulX g)^[n] 1#w) ((mulX g)^[n] 1#w) w)
        = ((mulXNot g)^[2 * n] 0#w, (mulX g)^[2 * n] 1#w) := by
    congr 1 <;> apply residue_injective g
    · rw [residue_xor, residue_mulTop_self, residue_mulXNot_iterate, residue_mulX_iterate,
        residue_mulXNot_iterate, residue_zero, residue_one hw, Nat.two_mul, Finset.sum_range_add,
        Finset.sum_congr rfl fun i _ => pow_add (AdjoinRoot.root (modulus g)) n i, ← Finset.mul_sum]
      ring
    · rw [residue_mulTop_self, residue_mulX_iterate, residue_mulX_iterate, residue_one hw]
      ring
  rw [jumpStep, hdouble]
  cases odd with
  | false => rfl
  | true =>
      show (mulXNot g _, mulX g _) = ((mulXNot g)^[2 * n + 1] 0#w, (mulX g)^[2 * n + 1] 1#w)
      rw [Function.iterate_succ_apply', Function.iterate_succ_apply']

theorem jump_eq (hw : 0 < w) (digits : List Bool) :
    jump g digits = ((mulXNot g)^[digits.foldl (fun n d => Nat.bit d n) 0] 0#w,
      (mulX g)^[digits.foldl (fun n d => Nat.bit d n) 0] 1#w) := by
  have hfold : ∀ n, digits.foldl (jumpStep g) ((mulXNot g)^[n] 0#w, (mulX g)^[n] 1#w)
      = ((mulXNot g)^[digits.foldl (fun n d => Nat.bit d n) n] 0#w,
        (mulX g)^[digits.foldl (fun n d => Nat.bit d n) n] 1#w) := by
    induction digits with
    | nil => exact fun _ => rfl
    | cons d digits ih =>
        intro n
        rw [List.foldl_cons, jumpStep_eq hw, ih, List.foldl_cons]
  exact hfold 0

/-- A period is minimal if no proper divisor of it is a period, and the largest
    of these are enough. -/
theorem minimalPeriod_eq_of_prime {α : Type*} {f : α → α} {x : α} {n : Nat}
    (hper : Function.IsPeriodicPt f n x)
    (hdiv : ∀ q, q.Prime → q ∣ n → ¬ Function.IsPeriodicPt f (n / q) x) :
    Function.minimalPeriod f x = n := by
  obtain ⟨m, hm⟩ := hper.minimalPeriod_dvd
  by_contra hne
  have hm1 : m ≠ 1 := by
    intro h
    rw [h, Nat.mul_one] at hm
    exact hne hm.symm
  obtain ⟨q, hq, r, hr⟩ := Nat.exists_prime_and_dvd hm1
  apply hdiv q hq
  · exact ⟨Function.minimalPeriod f x * r, by rw [hm, hr]; ring⟩
  · rw [Function.isPeriodicPt_iff_minimalPeriod_dvd]
    have hnr : n = q * (Function.minimalPeriod f x * r) := by
      rw [← Nat.mul_left_comm, ← hr]
      exact hm
    rw [hnr, Nat.mul_div_cancel_left _ hq.pos]
    exact Nat.dvd_mul_right _ r

end LBoot.Lib
