/-
  LBoot.Stdlib.Strtoul

  How far `strtoul` reads (src/stdlib/stdlib.c, ctype.c).

  It takes characters as long as `isalnum` and `_char_to_num` let it.  The
  former refuses all lower case letters, and of what is left a digit that is
  as large as the base passes for one below it (`strtoulEndLoop_cons`).  So
  the numeral is read as it should be unless one of these comes next behind
  its decimal digits and capital letters.
-/

import LBoot.Lib.Numeral
import LBoot.Stdlib.Strings
import Mathlib.Tactic.Ring

namespace LBoot.Stdlib

open LBoot.Lib

/-! ## Model -/

/-- The loop of `strtoul`, with the offset of `nptr`. -/
def strtoulEndLoop (base : Nat) : List UInt8 → Nat → Nat → Option (Nat × Nat)
  | [], _, _ => none
  | b :: s, res, pos =>
      if b = 0 ∨ isalnum (schar b) = false then some (res, pos)
      else if charToNum (schar b) > base then some (res, pos)
      else strtoulEndLoop base s (u32 (res * base + toU32 (charToNum (schar b)))) (pos + 1)

/-- `strtoul`: the value, and the offset of `*endptr`. -/
def strtoulEnd (nptr : List UInt8) (base : Nat) : Option (Nat × Nat) :=
  strtoulEndLoop base nptr 0 0

/-! ## Digits -/

def isLowerCase (b : UInt8) : Bool := 0x61 ≤ b ∧ b ≤ 0x7a

/-- The digits of a base. -/
def isDigitOf (base : Nat) (b : UInt8) : Bool := (digitValue b.toNat).any (· < base)

/-- What `strtoul` takes for a digit. -/
def strtoulAccepts (base : Nat) (b : UInt8) : Bool :=
  !isLowerCase b && (digitValue b.toNat).any (· ≤ base)

/-! ## The loop -/

/-- The value is that of `strtoul` without `endptr`. -/
theorem strtoulEndLoop_fst (base : Nat) (s : List UInt8) (res pos : Nat) :
    (strtoulEndLoop base s res pos).map Prod.fst = strtoulLoop base s res := by
  induction s generalizing res pos with
  | nil => rfl
  | cons b s ih =>
      rw [strtoulEndLoop, strtoulLoop]
      split_ifs
      · rfl
      · rfl
      · exact ih _ _

theorem strtoulEnd_fst (nptr : List UInt8) (base : Nat) :
    (strtoulEnd nptr base).map Prod.fst = strtoul nptr base := strtoulEndLoop_fst base nptr 0 0

/-- The characters that `isalnum` knows: decimal digits and capital letters. -/
theorem isalnum_schar (b : UInt8) :
    (∃ d : Nat, digitValue b.toNat = some d ∧ charToNum (schar b) = d ∧ d < 36 ∧ b ≠ 0 ∧
      isalnum (schar b) = true ∧ isLowerCase b = false) ∨
    isalnum (schar b) = false ∧ (isLowerCase b = true ∨ digitValue b.toNat = none) := by
  have hlt := b.toNat_lt
  have hzero : b = 0 ↔ b.toNat = 0 := UInt8.toNat_inj.symm
  simp only [digitValue, isLowerCase, UInt8.le_iff_toNat_le, UInt8.reduceToNat, ne_eq, hzero,
    decide_eq_true_eq, decide_eq_false_iff_not]
  by_cases halnum : (0x30 ≤ b.toNat ∧ b.toNat ≤ 0x39) ∨ (0x41 ≤ b.toNat ∧ b.toNat ≤ 0x5a)
  · left
    have hchar : schar b = b.toNat := by rw [schar, if_pos (by omega)]
    rw [hchar]
    have hknown : isalnum b.toNat = true := decide_eq_true (by omega)
    obtain hdec | hcap := halnum
    · refine ⟨b.toNat - 0x30, if_pos hdec, ?_, by omega, by omega, hknown, by omega⟩
      rw [charToNum, if_pos (by omega)]
      omega
    · refine ⟨10 + (b.toNat - 0x41), ?_, ?_, by omega, by omega, hknown, by omega⟩
      · rw [if_neg (by omega), if_pos hcap]
      · rw [charToNum, if_neg (by omega), if_pos (by omega)]
        omega
  · right
    refine ⟨?_, ?_⟩
    · rw [isalnum, decide_eq_false_iff_not, schar]
      split <;> omega
    · by_cases hlower : 0x61 ≤ b.toNat ∧ b.toNat ≤ 0x7a
      · exact Or.inl hlower
      · right
        rw [if_neg (by omega), if_neg (by omega), if_neg hlower]

/-- What the loop does at a character. -/
theorem strtoulEndLoop_cons (base : Nat) (b : UInt8) (s : List UInt8) (res pos : Nat) :
    strtoulEndLoop base (b :: s) res pos =
      if strtoulAccepts base b then
        strtoulEndLoop base s (u32 (res * base + (digitValue b.toNat).getD 0)) (pos + 1)
      else some (res, pos) := by
  rw [strtoulEndLoop, strtoulAccepts]
  obtain ⟨d, hvalue, hnum, hd, hb, halnum, hlower⟩ | ⟨halnum, hstop⟩ := isalnum_schar b
  · rw [hvalue, hnum, halnum, hlower, if_neg (by simp [hb]),
      toU32_of_nonneg (by omega) (by omega), Int.toNat_natCast]
    show _ = if decide (d ≤ base) = true then _ else _
    by_cases hle : d ≤ base
    · rw [if_neg (by omega), if_pos (decide_eq_true hle)]
      rfl
    · rw [if_pos (by omega), if_neg (by simpa using hle)]
  · rw [if_pos (Or.inr halnum), if_neg]
    obtain hlower | hnone := hstop
    · simp [hlower]
    · simp [hnone]

/-- The numeral that is read, and its end. -/
theorem strtoulEndLoop_eq (base : Nat) (l w : List UInt8) {res : Nat} (hres : res < 2 ^ 32)
    (pos : Nat) :
    strtoulEndLoop base (l ++ 0 :: w) res pos =
      some (u32 (res * base ^ (l.takeWhile (strtoulAccepts base)).length +
          numeralValue base ((l.takeWhile (strtoulAccepts base)).map UInt8.toNat)),
        pos + (l.takeWhile (strtoulAccepts base)).length) := by
  induction l generalizing res pos with
  | nil =>
      rw [List.nil_append, strtoulEndLoop, if_pos (Or.inl rfl)]
      show some (res, pos) = some (u32 (res * 1 + 0), pos + 0)
      rw [Nat.mul_one, Nat.add_zero, u32_of_lt hres, Nat.add_zero]
  | cons b l ih =>
      rw [List.cons_append, strtoulEndLoop_cons, List.takeWhile_cons]
      split_ifs with haccept
      · have hnext : u32 (res * base + (digitValue b.toNat).getD 0) < 2 ^ 32 :=
          Nat.mod_lt _ (by decide)
        rw [ih hnext, List.length_cons, List.map_cons, numeralValue_cons, List.length_map]
        congr 2
        · generalize (l.takeWhile (strtoulAccepts base)).length = k
          have hhorner : ∀ d v, res * base ^ (k + 1) + (d * base ^ k + v) =
              (res * base + d) * base ^ k + v := by
            intro d v
            ring
          rw [hhorner, u32, u32, u32, Nat.add_mod, Nat.mul_mod, Nat.mod_mod, ← Nat.mul_mod,
            ← Nat.add_mod]
        · omega
      · show some (res, pos) = some (u32 (res * 1 + 0), pos + 0)
        rw [Nat.mul_one, Nat.add_zero, u32_of_lt hres, Nat.add_zero]

theorem strtoulEnd_eq (base : Nat) (l w : List UInt8) :
    strtoulEnd (l ++ 0 :: w) base =
      some (numeralValue base ((l.takeWhile (strtoulAccepts base)).map UInt8.toNat) % 2 ^ 32,
        (l.takeWhile (strtoulAccepts base)).length) := by
  rw [strtoulEnd, strtoulEndLoop_eq base l w (by decide), Nat.zero_mul, Nat.zero_add, Nat.zero_add]
  rfl

/-! ## Where it stops -/

/-- Two conditions that agree on a prefix take equally much exactly if neither
    goes on behind it. -/
theorem length_takeWhile_eq_iff {α : Type*} (p q : α → Bool) (l : List α) :
    (l.takeWhile p).length = (l.takeWhile q).length ↔
      ∀ b, (l.dropWhile fun b => p b && q b).head? = some b → p b = false ∧ q b = false := by
  induction l with
  | nil => simp
  | cons b l ih =>
      rw [List.takeWhile_cons, List.takeWhile_cons, List.dropWhile_cons]
      cases hp : p b with
      | true =>
          cases hq : q b with
          | true => simpa using ih
          | false => simp [hp]
      | false =>
          cases hq : q b with
          | true => simp [hq]
          | false => simp [hp, hq]

theorem takeWhile_eq_of_length {α : Type*} {p q : α → Bool} {l : List α}
    (h : (l.takeWhile p).length = (l.takeWhile q).length) : l.takeWhile p = l.takeWhile q :=
  (List.prefix_of_prefix_length_le (List.takeWhile_prefix p) (List.takeWhile_prefix q)
    (Nat.le_of_eq h)).eq_of_length h

/-- Of the digits of the base, `strtoul` takes those that are no lower case
    letters. -/
theorem isDigitOf_and_accepts (base : Nat) :
    (fun b => isDigitOf base b && strtoulAccepts base b) =
      fun b => isDigitOf base b && !isLowerCase b := by
  funext b
  rw [isDigitOf, strtoulAccepts]
  cases digitValue b.toNat with
  | none => rfl
  | some d =>
      show (decide (d < base) && (!isLowerCase b && decide (d ≤ base))) =
        (decide (d < base) && !isLowerCase b)
      by_cases hlt : d < base
      · rw [decide_eq_true (Nat.le_of_lt hlt), Bool.and_true]
      · rw [decide_eq_false hlt, Bool.false_and, Bool.false_and]

/-- What it takes besides counts as much as the base. -/
theorem strtoulAccepts_eq_false_iff {base : Nat} {b : UInt8} (h : isDigitOf base b = false) :
    strtoulAccepts base b = false ↔ isLowerCase b = true ∨ digitValue b.toNat ≠ some base := by
  rw [isDigitOf] at h
  rw [strtoulAccepts]
  cases hvalue : digitValue b.toNat with
  | none => simp
  | some d =>
      rw [hvalue] at h
      have hge : base ≤ d := by simpa using h
      have hle : d ≤ base ↔ d = base := ⟨fun hle => Nat.le_antisymm hle hge, Nat.le_of_eq⟩
      simp [hle, or_iff_not_imp_left]

/-- `strtoul` reads the longest prefix of digits of the base, to its end and
    modulo `2 ^ 32`, exactly if what follows the decimal digits and capital
    letters below the base is neither a lower case letter below it nor a
    decimal digit or capital letter that counts as much as the base. -/
theorem strtoulEnd_eq_iff (l w : List UInt8) (base : Nat) :
    strtoulEnd (l ++ 0 :: w) base =
        some (numeralValue base ((l.takeWhile (isDigitOf base)).map UInt8.toNat) % 2 ^ 32,
          (l.takeWhile (isDigitOf base)).length) ↔
      ∀ b, (l.dropWhile fun b => isDigitOf base b && !isLowerCase b).head? = some b →
        isDigitOf base b = false ∧ (isLowerCase b = true ∨ digitValue b.toNat ≠ some base) := by
  have hstop := length_takeWhile_eq_iff (isDigitOf base) (strtoulAccepts base) l
  rw [isDigitOf_and_accepts] at hstop
  rw [strtoulEnd_eq]
  constructor
  · intro h b hb
    have hlen := (Prod.mk.inj (Option.some.inj h)).2
    obtain ⟨hdigit, haccept⟩ := hstop.mp hlen.symm b hb
    exact ⟨hdigit, (strtoulAccepts_eq_false_iff hdigit).mp haccept⟩
  · intro h
    have hlen := hstop.mpr fun b hb =>
      ⟨(h b hb).1, (strtoulAccepts_eq_false_iff (h b hb).1).mpr (h b hb).2⟩
    rw [takeWhile_eq_of_length hlen]

/-- `ff` is no number in base 16, and `A` is one in base ten. -/
theorem strtoulEnd_not_numeral :
    strtoulEnd [0x66, 0x66, 0] 16 ≠
        some (numeralValue 16 (([0x66, 0x66].takeWhile (isDigitOf 16)).map UInt8.toNat) % 2 ^ 32,
          ([0x66, 0x66].takeWhile (isDigitOf 16)).length) ∧
      strtoulEnd [0x41, 0] 10 ≠
        some (numeralValue 10 (([0x41].takeWhile (isDigitOf 10)).map UInt8.toNat) % 2 ^ 32,
          ([0x41].takeWhile (isDigitOf 10)).length) := by
  decide

end LBoot.Stdlib
