/-
  LBoot.Stdlib.Strings

  The string functions of the C library (src/stdlib/string.c, ctype.c,
  stdlib.c).

  A string is the memory from its first byte on, up to the last byte there
  is: a function that gets there has read too far, which is `none`.  On a
  string that ends with a NUL it depends on nothing behind it
  (`strchr_eq`, `strcmp_eq`, `strtoul_eq`).
-/

import LBoot.Lib.Word32
import Mathlib.Data.List.Basic

namespace LBoot.Stdlib

open LBoot.Lib

/-- A byte as the `char` it is. -/
def schar (b : UInt8) : Int := if b.toNat < 128 then b.toNat else b.toNat - 256

/-- `strchr`: the offset of the byte, `some none` for `NULL`. -/
def strchr : List UInt8 → UInt8 → Option (Option Nat)
  | [], _ => none
  | b :: s, c =>
      if b = 0 then some none
      else if b = c then some (some 0)
      else (strchr s c).map (·.map (· + 1))

/-- `strlen`. -/
def strlen : List UInt8 → Option Nat
  | [] => none
  | b :: s => if b = 0 then some 0 else (strlen s).map (· + 1)

/-- `strcpy`: what it writes, without the NUL. -/
def strcpy : List UInt8 → Option (List UInt8)
  | [] => none
  | b :: s => if b = 0 then some [] else (strcpy s).map (b :: ·)

/-- `strcmp`. -/
def strcmp : List UInt8 → List UInt8 → Option Int
  | b :: s, c :: t => if b ≠ 0 ∧ b = c then strcmp s t else some (schar b - schar c)
  | _, _ => none

/-- `isalnum`.  Its last comparison is with `-'z'`. -/
def isalnum (c : Int) : Bool :=
  (0x30 ≤ c ∧ c ≤ 0x39) ∨ (0x41 ≤ c ∧ c ≤ 0x5a) ∨ (0x61 ≤ c ∧ c < -0x7a)

/-- `_char_to_num`. -/
def charToNum (c : Int) : Int :=
  if 0x30 ≤ c ∧ c ≤ 0x39 then c - 0x30
  else if 0x41 ≤ c ∧ c ≤ 0x5a then 10 + (c - 0x41)
  else if 0x61 ≤ c ∧ c ≤ 0x7a then 10 + (c - 0x61)
  else -1

/-- The loop of `strtoul`. -/
def strtoulLoop (base : Nat) : List UInt8 → Nat → Option Nat
  | [], _ => none
  | b :: s, res =>
      if b = 0 ∨ isalnum (schar b) = false then some res
      else if charToNum (schar b) > base then some res
      else strtoulLoop base s (u32 (res * base + toU32 (charToNum (schar b))))

/-- `strtoul`. -/
def strtoul (nptr : List UInt8) (base : Nat) : Option Nat := strtoulLoop base nptr 0

variable {l w : List UInt8} {c : UInt8}

/-! ## Reading too far -/

/-- `strchr` stops at the byte or at a NUL. -/
theorem strchr_isSome {m : List UInt8} : strchr m c ≠ none ↔ c ∈ m ∨ 0 ∈ m := by
  induction m with
  | nil => simp [strchr]
  | cons b m ih =>
      rw [strchr, List.mem_cons, List.mem_cons]
      by_cases hzero : b = 0
      · rw [if_pos hzero]
        exact iff_of_true (Option.some_ne_none _) (Or.inr (Or.inl hzero.symm))
      rw [if_neg hzero]
      by_cases hc : b = c
      · rw [if_pos hc]
        exact iff_of_true (Option.some_ne_none _) (Or.inl (Or.inl hc.symm))
      rw [if_neg hc, Ne, Option.map_eq_none_iff, ← Ne, ih]
      constructor
      · exact Or.imp Or.inr Or.inr
      · rintro ((rfl | hm) | (rfl | hm))
        · exact absurd rfl hc
        · exact Or.inl hm
        · exact absurd rfl hzero
        · exact Or.inr hm

/-! ## Strings that end -/

/-- The search goes on behind bytes that do not end it. -/
theorem strchr_append (hl : c ∉ l) (hz : 0 ∉ l) (m : List UInt8) :
    strchr (l ++ m) c = (strchr m c).map (·.map (l.length + ·)) := by
  induction l with
  | nil =>
      rw [List.nil_append]
      rcases strchr m c with _ | _ | k
      · rfl
      · rfl
      · show some (some k) = some (some (0 + k))
        rw [Nat.zero_add]
  | cons b l ih =>
      obtain ⟨hb, hl⟩ := List.ne_and_not_mem_of_not_mem_cons hl
      obtain ⟨hb', hz⟩ := List.ne_and_not_mem_of_not_mem_cons hz
      rw [List.cons_append, strchr, if_neg (Ne.symm hb'), if_neg (Ne.symm hb), ih hl hz]
      rcases strchr m c with _ | _ | k
      · rfl
      · rfl
      · show some (some (l.length + k + 1)) = some (some (l.length + 1 + k))
        rw [Nat.add_right_comm]

/-- The first such byte. -/
theorem strchr_eq (hl : c ∉ l) (hz : 0 ∉ l) (hc : c ≠ 0) (w : List UInt8) :
    strchr (l ++ c :: w) c = some (some l.length) := by
  rw [strchr_append hl hz, strchr, if_neg hc, if_pos rfl]
  rfl

/-- No such byte. -/
theorem strchr_null (hl : c ∉ l) (hz : 0 ∉ l) (w : List UInt8) :
    strchr (l ++ 0 :: w) c = some none := by
  rw [strchr_append hl hz, strchr, if_pos rfl]
  rfl

theorem strlen_eq (hz : 0 ∉ l) (w : List UInt8) : strlen (l ++ 0 :: w) = some l.length := by
  induction l with
  | nil => rw [List.nil_append, strlen, if_pos rfl, List.length_nil]
  | cons b l ih =>
      obtain ⟨hb, hz⟩ := List.ne_and_not_mem_of_not_mem_cons hz
      rw [List.cons_append, strlen, if_neg (Ne.symm hb), ih hz]
      rfl

theorem strcpy_eq (hz : 0 ∉ l) (w : List UInt8) : strcpy (l ++ 0 :: w) = some l := by
  induction l with
  | nil => rw [List.nil_append, strcpy, if_pos rfl]
  | cons b l ih =>
      obtain ⟨hb, hz⟩ := List.ne_and_not_mem_of_not_mem_cons hz
      rw [List.cons_append, strcpy, if_neg (Ne.symm hb), ih hz]
      rfl

theorem schar_inj {b b' : UInt8} (h : schar b = schar b') : b = b' := by
  have hb := b.toNat_lt
  have hb' := b'.toNat_lt
  apply UInt8.toNat_inj.mp
  rw [schar, schar] at h
  split at h <;> split at h <;> omega

/-- `strcmp` is zero if the strings are equal. -/
theorem strcmp_eq {k : List UInt8} (hz : 0 ∉ l) (hk : 0 ∉ k) (w w' : List UInt8) :
    ∃ d, strcmp (l ++ 0 :: w) (k ++ 0 :: w') = some d ∧ (d = 0 ↔ l = k) := by
  -- `strcmp` stops at the first difference or at the end of the first string
  induction l generalizing k with
  | nil =>
      cases k with
      | nil =>
          rw [List.nil_append, List.nil_append, strcmp, if_neg (fun h => h.1 rfl)]
          exact ⟨_, rfl, iff_of_true (Int.sub_self _) rfl⟩
      | cons c k =>
          rw [List.nil_append, List.cons_append, strcmp, if_neg (fun h => h.1 rfl)]
          refine ⟨_, rfl, iff_of_false (fun hd => ?_) (List.cons_ne_nil _ _).symm⟩
          exact (List.ne_and_not_mem_of_not_mem_cons hk).1 (schar_inj (Int.sub_eq_zero.mp hd))
  | cons b l ih =>
      obtain ⟨hb, hz⟩ := List.ne_and_not_mem_of_not_mem_cons hz
      cases k with
      | nil =>
          rw [List.nil_append, List.cons_append, strcmp, if_neg (fun h => h.1 h.2)]
          refine ⟨_, rfl, iff_of_false (fun hd => ?_) (List.cons_ne_nil _ _)⟩
          exact hb (schar_inj (Int.sub_eq_zero.mp hd)).symm
      | cons c k =>
          obtain ⟨-, hk⟩ := List.ne_and_not_mem_of_not_mem_cons hk
          rw [List.cons_append, List.cons_append, strcmp]
          by_cases hbc : b = c
          · rw [if_pos ⟨Ne.symm hb, hbc⟩]
            obtain ⟨d, hd, hiff⟩ := ih hz hk
            refine ⟨d, hd, hiff.trans ?_⟩
            rw [List.cons.injEq]
            exact (and_iff_right hbc).symm
          · rw [if_neg (fun h => hbc h.2)]
            refine ⟨_, rfl, iff_of_false (fun hd => ?_) (fun heq => hbc (List.cons.inj heq).1)⟩
            exact hbc (schar_inj (Int.sub_eq_zero.mp hd))

/-- What follows the string does not matter, nor does the loop read it. -/
theorem strtoulLoop_eq (base : Nat) (l w w' : List UInt8) (res : Nat) :
    strtoulLoop base (l ++ 0 :: w) res = strtoulLoop base (l ++ 0 :: w') res ∧
      strtoulLoop base (l ++ 0 :: w) res ≠ none := by
  induction l generalizing res with
  | nil =>
      rw [List.nil_append, List.nil_append, strtoulLoop, strtoulLoop, if_pos (Or.inl rfl)]
      exact ⟨rfl, Option.some_ne_none _⟩
  | cons b l ih =>
      rw [List.cons_append, List.cons_append, strtoulLoop, strtoulLoop]
      split
      · exact ⟨rfl, Option.some_ne_none _⟩
      · split
        · exact ⟨rfl, Option.some_ne_none _⟩
        · exact ih _

/-- The value of a string. -/
def strtoulValue (l : List UInt8) (base : Nat) : Nat := (strtoul (l ++ [0]) base).getD 0

theorem strtoul_eq (l w : List UInt8) (base : Nat) :
    strtoul (l ++ 0 :: w) base = some (strtoulValue l base) := by
  obtain ⟨heq, hsome⟩ := strtoulLoop_eq base l w [] 0
  rw [strtoulValue, strtoul, strtoul, ← heq]
  cases hr : strtoulLoop base (l ++ 0 :: w) 0 with
  | none => exact absurd hr hsome
  | some n => rfl

/-! ## Base ten -/

/-- The digits that `strtoul` takes in base ten: `A` is ten. -/
def isStrtoulDigit (b : UInt8) : Bool := (0x30 ≤ b ∧ b ≤ 0x39) ∨ b = 0x41

/-- What such a digit counts. -/
def strtoulDigit (b : UInt8) : Nat := if b = 0x41 then 10 else b.toNat - 0x30

/-- The loop of `strtoul` stops at anything else. -/
theorem strtoulLoop_cons (b : UInt8) (s : List UInt8) (res : Nat) :
    strtoulLoop 10 (b :: s) res =
      if isStrtoulDigit b then strtoulLoop 10 s (u32 (res * 10 + strtoulDigit b))
      else some res := by
  have hb := b.toNat_lt
  have hA : b = 0x41 ↔ b.toNat = 0x41 := UInt8.toNat_inj.symm
  have hzero : b = 0 ↔ b.toNat = 0 := UInt8.toNat_inj.symm
  have hlo : 0x30 ≤ b ↔ 0x30 ≤ b.toNat := UInt8.le_iff_toNat_le
  have hhi : b ≤ 0x39 ↔ b.toNat ≤ 0x39 := UInt8.le_iff_toNat_le
  rw [strtoulLoop, isStrtoulDigit, strtoulDigit]
  simp only [decide_eq_true_eq, hA, hlo, hhi, hzero]
  -- `A` passes for a digit: its value 10 is not above the base
  by_cases hdigit : (0x30 ≤ b.toNat ∧ b.toNat ≤ 0x39) ∨ b.toNat = 0x41
  · have hchar : schar b = b.toNat := by rw [schar, if_pos (by omega)]
    have halnum : isalnum (schar b) = true := by
      rw [isalnum, hchar]
      exact decide_eq_true (by omega)
    have hnum : ∃ d : Nat, d ≤ 10 ∧ charToNum (schar b) = d ∧
        (if b.toNat = 0x41 then 10 else b.toNat - 0x30) = d := by
      refine ⟨_, ?_, ?_, rfl⟩
      · split <;> omega
      · rw [charToNum, hchar]
        repeat' split
        all_goals omega
    obtain ⟨d, hd, hvalue, hdigit'⟩ := hnum
    have hgo : ¬ (b.toNat = 0 ∨ isalnum (schar b) = false) := by
      rintro (h | h)
      · omega
      · exact Bool.false_ne_true (h.symm.trans halnum)
    rw [if_pos hdigit, if_neg hgo, hvalue, hdigit', if_neg (by omega),
      toU32_of_nonneg (by omega) (by omega), Int.toNat_natCast]
  · rw [if_neg hdigit]
    by_cases hstop : b.toNat = 0 ∨ isalnum (schar b) = false
    · rw [if_pos hstop]
    · rw [if_neg hstop]
      have halnum : isalnum (schar b) = true := by
        cases h : isalnum (schar b) with
        | true => rfl
        | false => exact absurd (Or.inr h) hstop
      have hrange := of_decide_eq_true halnum
      have hnum : charToNum (schar b) > (10 : Nat) := by
        rw [charToNum]
        rw [schar] at hrange ⊢
        split <;> omega
      rw [if_pos hnum]

end LBoot.Stdlib
