/-
  LBoot.Io.PrintStore

  What `_print_int` stores (src/io/output.c).

  The text goes into the output buffer character by character, at an index
  that is returned at the end: sign, padding, and the digits from the last one
  in `ans` down to the first (`printIntOut_eq`).  The number can be read back
  from it (`printIntOut_invertible`).
-/

import LBoot.Io.PrintInt
import LBoot.Lib.Memory
import LBoot.Lib.Numeral

namespace LBoot.Io

open LBoot.Lib

/-! ## Model -/

/-- `out` and `outidx`. -/
structure PrintOut where
  out : Int → Char
  outidx : Nat

/-- `out[outidx++] = c`. -/
def PrintOut.put (o : PrintOut) (c : Char) : PrintOut :=
  ⟨storeAt o.out o.outidx [c], o.outidx + 1⟩

/-- The loop `while(p--)`. -/
def printPad (c : Char) : Nat → PrintOut → PrintOut
  | 0, o => o
  | p + 1, o => printPad c p (o.put c)

/-- The loop `while(--i >= 0)`. -/
def printDigits (ans : List Char) : Nat → PrintOut → Option PrintOut
  | 0, o => some o
  | i + 1, o => do
      let c ← ans[i]?
      printDigits ans i (o.put c)

/-- `_print_int`: the buffer, and the index that it returns. -/
def printIntOut (num base : UInt64) (pad : Nat) (flags : PrintFlags) (out : Int → Char) :
    Option PrintOut := do
  let neg := printNeg num flags
  let ans ← printIntLoop flags.nums base 25 (if neg then ~~~num + 1 else num)
  -- `ans` starts with a 0, which is counted if nothing is there
  let ans := if ans = [] then ['0'] else ans
  let o : PrintOut := ⟨out, 0⟩
  let o :=
    if neg then o.put '-'
    else if flags.possign then o.put '+'
    else if flags.posspace then o.put ' '
    else o
  let o := printPad (if flags.padzero then '0' else ' ') (pad - ans.length) o
  printDigits ans ans.length o

/-! ## The text -/

/-- The buffer with a text in it. -/
def PrintOut.written (out : Int → Char) (text : List Char) : PrintOut :=
  ⟨storeAt out 0 text, text.length⟩

section

variable {out : Int → Char} {text : List Char}

theorem put_written (c : Char) :
    (PrintOut.written out text).put c = .written out (text ++ [c]) := by
  rw [PrintOut.put, PrintOut.written, PrintOut.written, List.length_append]
  congr 1
  exact storeAt_behind out (by simp) [c]

theorem printPad_written (c : Char) (p : Nat) :
    printPad c p (.written out text) = .written out (text ++ List.replicate p c) := by
  induction p generalizing text with
  | zero => rw [printPad, List.replicate_zero, List.append_nil]
  | succ p ih => rw [printPad, put_written, ih, List.append_assoc, List.replicate_succ]; rfl

theorem printDigits_written {ans : List Char} {i : Nat} (hi : i ≤ ans.length) :
    printDigits ans i (.written out text) = some (.written out (text ++ (ans.take i).reverse)) := by
  induction i generalizing text with
  | zero => rw [printDigits, List.take_zero, List.reverse_nil, List.append_nil]
  | succ i ih =>
      rw [printDigits, List.getElem?_eq_getElem hi]
      show printDigits ans i ((PrintOut.written out text).put ans[i]) = _
      rw [put_written, ih (Nat.le_of_succ_le hi), List.append_assoc,
        List.take_succ_eq_append_getElem hi, List.reverse_append]
      rfl

end

/-- The text of `_print_int` is stored from the beginning of the buffer on,
    and its length returned. -/
theorem printIntOut_eq (num base : UInt64) (pad : Nat) (flags : PrintFlags) (out : Int → Char) :
    printIntOut num base pad flags out = (printInt num base pad flags).map (.written out) := by
  rw [printIntOut, printInt]
  cases printIntLoop flags.nums base 25 (if printNeg num flags then ~~~num + 1 else num) with
  | none => rfl
  | some ans =>
      have hsign : (if printNeg num flags then PrintOut.put ⟨out, 0⟩ '-'
          else if flags.possign then PrintOut.put ⟨out, 0⟩ '+'
          else if flags.posspace then PrintOut.put ⟨out, 0⟩ ' '
          else ⟨out, 0⟩) = .written out (printSign num flags) := by
        have hempty : (⟨out, 0⟩ : PrintOut) = .written out [] := by
          rw [PrintOut.written, storeAt_nil]
          rfl
        rw [hempty, put_written, put_written, put_written, printSign]
        split_ifs <;> rfl
      show printDigits (if ans = [] then ['0'] else ans) _ (printPad _ _ _) = some _
      rw [hsign, printPad_written, printDigits_written (Nat.le_refl _), List.take_length]

/-! ## Reading it back -/

/-- The number that is meant. -/
def printValue (num : UInt64) (flags : PrintFlags) : Int :=
  if flags.unsigned then num.toNat else num.toBitVec.toInt

/-- Its sign. -/
def signText (num : UInt64) (flags : PrintFlags) : List Char :=
  if printValue num flags < 0 then ['-']
  else if flags.possign then ['+']
  else if flags.posspace then [' ']
  else []

/-- Two's complement. -/
theorem printValue_eq (num : UInt64) (flags : PrintFlags) :
    printValue num flags =
      if printNeg num flags then (num.toNat : Int) - 2 ^ 64 else (num.toNat : Int) := by
  have hint : num.toBitVec.toInt =
      if 2 * num.toNat < 2 ^ 64 then (num.toNat : Int) else (num.toNat : Int) - 2 ^ 64 :=
    BitVec.toInt_eq_toNat_cond num.toBitVec
  rw [printValue, hint]
  by_cases hneg : printNeg num flags = true
  · obtain ⟨hsigned, hhigh⟩ := (printNeg_iff num flags).mp hneg
    rw [if_pos hneg, hsigned, if_neg Bool.false_ne_true, if_neg (by omega)]
  · rw [if_neg hneg]
    rw [printNeg_iff, not_and] at hneg
    cases hsigned : flags.unsigned with
    | true => rw [if_pos rfl]
    | false => rw [if_neg Bool.false_ne_true, if_pos (by have hlow := hneg hsigned; omega)]

theorem printNeg_iff_value (num : UInt64) (flags : PrintFlags) :
    printNeg num flags = true ↔ printValue num flags < 0 := by
  have hlt := num.toNat_lt
  rw [printValue_eq]
  split_ifs with hneg
  · exact iff_of_true hneg (by omega)
  · exact iff_of_false hneg (by omega)

theorem printSign_eq (num : UInt64) (flags : PrintFlags) :
    printSign num flags = signText num flags := by
  simp only [printSign, signText, printNeg_iff_value]

theorem printMagnitude_eq_natAbs (num : UInt64) (flags : PrintFlags) :
    printMagnitude num flags = (printValue num flags).natAbs := by
  have hlt := num.toNat_lt
  rw [printValue_eq, printMagnitude]
  split_ifs <;> omega

/-- The number meant determines the number given. -/
theorem ofInt_printValue (num : UInt64) (flags : PrintFlags) :
    UInt64.ofBitVec (BitVec.ofInt 64 (printValue num flags)) = num := by
  rw [printValue]
  split_ifs
  · rw [BitVec.ofInt_natCast]
    exact UInt64.ofNat_toNat
  · rw [BitVec.ofInt_toInt]

/-- Sign, padding to the width, and the numeral of the magnitude are stored;
    their length is returned; and sign and digits give the number back. -/
theorem printIntOut_invertible (num base : UInt64) (pad : Nat) (flags : PrintFlags)
    (out : Int → Char) (hbase : base = 8 ∨ base = 10 ∨ base = 16) :
    ∃ digits, IsNumeral base.toNat (printValue num flags).natAbs digits ∧
      printIntOut num base pad flags out = some (.written out (signText num flags ++
        List.replicate (pad - digits.length) (if flags.padzero then '0' else ' ') ++ digits)) ∧
      .ofBitVec (BitVec.ofInt 64 (if (signText num flags).head? = some '-'
        then -(numeralValue base.toNat (digits.map Char.toNat))
        else numeralValue base.toNat (digits.map Char.toNat))) = num := by
  have hrange : 8 ≤ base.toNat ∧ base.toNat ≤ 16 := by
    obtain rfl | rfl | rfl := hbase <;> decide
  refine ⟨_, isNumeral_numeral flags.uppercase (by omega) hrange.2 _, ?_, ?_⟩
  · rw [printIntOut_eq, printInt_eq num pad flags hrange.1 hrange.2, intText, printSign_eq,
      printMagnitude_eq_natAbs]
    rfl
  · have hminus : (signText num flags).head? = some '-' ↔ printValue num flags < 0 := by
      rw [signText]
      split_ifs with hneg <;> simp [hneg]
    simp only [hminus, numeralValue_numeral flags.uppercase (by omega : 1 < base.toNat) hrange.2]
    have hvalue : (if printValue num flags < 0 then -((printValue num flags).natAbs : Int)
        else (printValue num flags).natAbs) = printValue num flags := by
      split_ifs <;> omega
    rw [hvalue, ofInt_printValue]

/-- The most negative number. -/
theorem printIntOut_invertible_min :
    ∃ digits, IsNumeral 10 (2 ^ 63) digits ∧
      printIntOut 0x8000000000000000 10 0 {} (fun _ => ' ') =
        some (.written (fun _ => ' ') ('-' :: digits)) := by
  obtain ⟨digits, hdigits, hout, -⟩ := printIntOut_invertible 0x8000000000000000 10 0 {}
    (fun _ => ' ') (Or.inr (Or.inl rfl))
  refine ⟨digits, hdigits, hout.trans ?_⟩
  rw [Nat.zero_sub]
  rfl

end LBoot.Io
