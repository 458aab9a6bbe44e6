/-
  LBoot.Lib.LittleEndian

  Little-endian numbers as byte lists: `leNat` reads one, `toLe` writes one
  of a given width.  Writing keeps the value modulo the width; reading back
  what was written, and writing back what was read, are the identity.
-/

import Mathlib.Data.List.Basic
import Mathlib.Tactic.Ring

namespace LBoot.Lib

/-- The number whose little-endian bytes are given. -/
def leNat : List UInt8 → Nat
  | [] => 0
  | b :: bs => b.toNat + 256 * leNat bs

/-- The `w` little-endian bytes of a number. -/
def toLe : Nat → Nat → List UInt8
  | 0, _ => []
  | w + 1, x => UInt8.ofNat x :: toLe w (x / 256)

/-- The field of `w` bytes at offset `off`. -/
def leField (bs : List UInt8) (off w : Nat) : Nat := leNat ((bs.drop off).take w)

@[simp] theorem length_toLe (w x : Nat) : (toLe w x).length = w := by
  induction w generalizing x with
  | zero => rfl
  | succ w ih => rw [toLe, List.length_cons, ih]

theorem leNat_append (bs cs : List UInt8) :
    leNat (bs ++ cs) = leNat bs + 256 ^ bs.length * leNat cs := by
  induction bs with
  | nil => simp [leNat]
  | cons b bs ih =>
      rw [List.cons_append, leNat, leNat, ih, List.length_cons, Nat.pow_succ]
      ring

/-- A number that fits in fewer bytes ends in zeros. -/
theorem toLe_add {v x : Nat} (w : Nat) (h : x < 256 ^ v) :
    toLe (v + w) x = toLe v x ++ List.replicate w 0 := by
  induction v generalizing x with
  | zero =>
      obtain rfl : x = 0 := by omega
      rw [Nat.zero_add, toLe, List.nil_append]
      induction w with
      | zero => rfl
      | succ w ih => rw [toLe, List.replicate_succ, Nat.zero_div, ih]; rfl
  | succ v ih =>
      rw [Nat.add_right_comm, toLe, toLe, List.cons_append, ih]
      rw [Nat.pow_succ] at h
      omega

theorem leNat_lt (bs : List UInt8) : leNat bs < 256 ^ bs.length := by
  induction bs with
  | nil => exact Nat.one_pos
  | cons b bs ih =>
      have hb : b.toNat < 256 := b.toNat_lt
      rw [leNat, List.length_cons, Nat.pow_succ]
      omega

/-- The bytes behind the first `i`. -/
theorem leNat_div (bs : List UInt8) (i : Nat) : leNat bs / 256 ^ i = leNat (bs.drop i) := by
  induction bs generalizing i with
  | nil => rw [List.drop_nil, leNat, Nat.zero_div]
  | cons b bs ih =>
      cases i with
      | zero => rw [Nat.pow_zero, Nat.div_one, List.drop_zero]
      | succ i =>
          have hb : b.toNat < 256 := b.toNat_lt
          have hdiv : (b.toNat + 256 * leNat bs) / 256 = leNat bs := by omega
          rw [List.drop_succ_cons, ← ih, leNat, Nat.pow_succ', ← Nat.div_div_eq_div_mul, hdiv]

/-- The first `i` bytes. -/
theorem leNat_mod (bs : List UInt8) (i : Nat) : leNat bs % 256 ^ i = leNat (bs.take i) := by
  induction bs generalizing i with
  | nil => rw [List.take_nil, leNat, Nat.zero_mod]
  | cons b bs ih =>
      cases i with
      | zero => rw [Nat.pow_zero, Nat.mod_one, List.take_zero, leNat]
      | succ i =>
          have hb : b.toNat < 256 := b.toNat_lt
          have hlow : (b.toNat + 256 * leNat bs) % 256 = b.toNat := by omega
          have hdiv : (b.toNat + 256 * leNat bs) / 256 = leNat bs := by omega
          rw [List.take_succ_cons, leNat, leNat, Nat.pow_succ', Nat.mod_mul, hlow, hdiv, ih]

/-- What is read back is the number modulo the width. -/
theorem leNat_toLe (w x : Nat) : leNat (toLe w x) = x % 256 ^ w := by
  induction w generalizing x with
  | zero => rw [toLe, leNat, Nat.pow_zero, Nat.mod_one]
  | succ w ih =>
      have hlow : (UInt8.ofNat x).toNat = x % 256 := UInt8.toNat_ofNat'
      rw [toLe, leNat, ih, hlow, Nat.pow_succ', Nat.mod_mul]

theorem leNat_toLe_of_lt {w x : Nat} (h : x < 256 ^ w) : leNat (toLe w x) = x := by
  rw [leNat_toLe, Nat.mod_eq_of_lt h]

theorem toLe_leNat (bs : List UInt8) : toLe bs.length (leNat bs) = bs := by
  induction bs with
  | nil => rfl
  | cons b bs ih =>
      have hb : b.toNat < 256 := b.toNat_lt
      rw [List.length_cons, toLe, leNat]
      have hdiv : (b.toNat + 256 * leNat bs) / 256 = leNat bs := by omega
      have hmod : UInt8.ofNat (b.toNat + 256 * leNat bs) = b := by
        apply UInt8.toNat_inj.mp
        rw [UInt8.toNat_ofNat']
        omega
      rw [hdiv, hmod, ih]

end LBoot.Lib
