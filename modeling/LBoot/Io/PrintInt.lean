/-
  LBoot.Io.PrintInt

  Numbers in `printf` (`_print_int`, `_get_arg` and `_sign_extend` in
  src/io/output.c).

  An argument list is the words it takes on the stack.  `_print_int` writes
  the digits into an array of 25, which holds every number in base 8 and
  above (`printInt_eq`).
-/

import LBoot.Io.Udiv64
import LBoot.Lib.CFormat
import Mathlib.Data.Nat.Bitwise

namespace LBoot.Io

open LBoot.Lib

/-! ## Model -/

/-- `PRINTFLAG_UNSIGNED` to `PRINTFLAG_LEFTALIGN`. -/
structure PrintFlags where
  unsigned : Bool := false
  padzero : Bool := false
  possign : Bool := false
  posspace : Bool := false
  uppercase : Bool := false
  leftalign : Bool := false
  deriving DecidableEq, Repr

/-- `nums`. -/
def PrintFlags.nums (flags : PrintFlags) : List Char :=
  if flags.uppercase then
    ['0', '1', '2', '3', '4', '5', '6', '7', '8', '9', 'A', 'B', 'C', 'D', 'E', 'F']
  else ['0', '1', '2', '3', '4', '5', '6', '7', '8', '9', 'a', 'b', 'c', 'd', 'e', 'f']

/-- The loop of `_print_int`: what it writes into `ans`, where there is this
    much room. -/
def printIntLoop (nums : List Char) (base : UInt64) : Nat → UInt64 → Option (List Char)
  | 0, num => if num = 0 then some [] else none
  | room + 1, num =>
      if num = 0 then some []
      else do
        let (num, rem) ← udiv64 num base
        let digit ← nums[rem.toNat]?
        (digit :: ·) <$> printIntLoop nums base room num

/-- `neg` of `_print_int`. -/
def printNeg (num : UInt64) (flags : PrintFlags) : Bool :=
  !flags.unsigned && num &&& 0x8000000000000000 ≠ 0

/-- What is written in front. -/
def printSign (num : UInt64) (flags : PrintFlags) : List Char :=
  if printNeg num flags then ['-']
  else if flags.possign then ['+']
  else if flags.posspace then [' ']
  else []

/-- `_print_int`: what it puts into `out`. -/
def printInt (num base : UInt64) (pad : Nat) (flags : PrintFlags) : Option (List Char) := do
  let ans ← printIntLoop flags.nums base 25 (if printNeg num flags then ~~~num + 1 else num)
  let ans := if ans = [] then ['0'] else ans
  let p := pad - ans.length
  some (printSign num flags ++ List.replicate p (if flags.padzero then '0' else ' ') ++ ans.reverse)

/-- `va_arg` of a word. -/
def vaWord : List UInt32 → Option (UInt32 × List UInt32)
  | [] => none
  | w :: varg => some (w, varg)

/-- A word that is converted to 64 bits as a `long`. -/
def ofLong (w : UInt32) : UInt64 := .ofBitVec (w.toBitVec.signExtend 64)

/-- `_get_arg`: the argument, and the list behind it. -/
def getArg (varg : List UInt32) (size : Int) : Option (UInt64 × List UInt32) :=
  if size = -2 then (vaWord varg).map fun (w, varg) => ((w &&& 0xFF).toUInt64, varg)
  else if size = -1 then (vaWord varg).map fun (w, varg) => ((w &&& 0xFFFF).toUInt64, varg)
  else if size = 0 then (vaWord varg).map fun (w, varg) => (w.toUInt64, varg)
  else if size = 1 then (vaWord varg).map fun (w, varg) => (ofLong w, varg)
  else if size = 2 then do
    let (lo, varg) ← vaWord varg
    let (hi, varg) ← vaWord varg
    some (hi.toUInt64 <<< 32 ||| lo.toUInt64, varg)
  else some (0, varg)

/-- A cast to a signed type of so many bits and back. -/
def castSigned (bits : Nat) (val : UInt64) : UInt64 :=
  .ofBitVec ((val.toBitVec.setWidth bits).signExtend 64)

/-- `_sign_extend`. -/
def signExtend (val : UInt64) (size : Int) : UInt64 :=
  if size = -2 then castSigned 8 val
  else if size = -1 then castSigned 16 val
  else if size = 0 then castSigned 32 val
  else if size = 1 then castSigned 32 val
  else val

/-! ## The numeral -/

/-- What is printed of a number, apart from its sign. -/
def printMagnitude (num : UInt64) (flags : PrintFlags) : Nat :=
  if printNeg num flags then 2 ^ 64 - num.toNat else num.toNat

theorem nums_getElem? (flags : PrintFlags) {r : Nat} (h : r < 16) :
    flags.nums[r]? = some (if flags.uppercase then r.digitChar.toUpper else r.digitChar) := by
  have hall : ∀ r < 16, ∀ u : Bool, (if u = true then
      ['0', '1', '2', '3', '4', '5', '6', '7', '8', '9', 'A', 'B', 'C', 'D', 'E', 'F']
      else ['0', '1', '2', '3', '4', '5', '6', '7', '8', '9', 'a', 'b', 'c', 'd', 'e', 'f'])[r]? =
      some (if u = true then r.digitChar.toUpper else r.digitChar) := by decide
  exact hall r h flags.uppercase

section

variable {flags : PrintFlags} {base : UInt64}

/-- The loop writes a numeral, the last digit first. -/
theorem printIntLoop_eq (hb : 1 < base.toNat) (hb16 : base.toNat ≤ 16) {room : Nat}
    {num : UInt64} (hroom : num.toNat < base.toNat ^ room) :
    printIntLoop flags.nums base room num = some (if num = 0 then []
      else (numeral flags.uppercase base.toNat num.toNat).reverse) := by
  induction room generalizing num with
  | zero =>
      have hnum : num = 0 := UInt64.toNat_inj.mp (Nat.lt_one_iff.mp hroom)
      rw [printIntLoop, if_pos hnum, if_pos hnum]
  | succ room ih =>
      rw [printIntLoop]
      split_ifs with hnum
      · rfl
      · have hb1 : 1 ≤ base := UInt64.le_iff_toNat_le.mpr (Nat.le_of_lt hb)
        have hb32 : base < 0x100000000 :=
          UInt64.lt_iff_toNat_lt.mpr (hb16.trans_lt (by decide))
        have hmod : num.toNat % base.toNat < base.toNat := Nat.mod_lt _ (by omega)
        have hquot : (num / base).toNat < base.toNat ^ room := by
          rw [UInt64.toNat_div]
          exact Nat.div_lt_of_lt_mul (by rwa [pow_succ, Nat.mul_comm] at hroom)
        rw [udiv64_of_lt hb1 hb32]
        show (flags.nums[(num % base).toNat]?).bind (fun digit =>
          (digit :: ·) <$> printIntLoop flags.nums base room (num / base)) = _
        rw [UInt64.toNat_mod, nums_getElem? flags (hmod.trans_le hb16), ih hquot]
        show some (_ :: _) = _
        congr 1
        have hzero : num / base = 0 ↔ num.toNat < base.toNat := by
          rw [← UInt64.toNat_inj, UInt64.toNat_div]
          exact Nat.div_eq_zero_iff_lt (by omega)
        by_cases hq : num / base = 0
        · have hlt := hzero.mp hq
          rw [if_pos hq, numeral_of_lt hlt, Nat.mod_eq_of_lt hlt]
          rfl
        · have hge := Nat.not_lt.mp (mt hzero.mpr hq)
          rw [if_neg hq, numeral_of_base_le hb hge, numeral_of_lt hmod, List.reverse_append,
            UInt64.toNat_div]
          rfl

/-- The sign is bit 63. -/
theorem printNeg_iff (num : UInt64) (flags : PrintFlags) :
    printNeg num flags = true ↔ flags.unsigned = false ∧ 2 ^ 63 ≤ num.toNat := by
  have hlt := num.toNat_lt
  have hand : (num &&& 0x8000000000000000).toNat = num.toNat / 2 ^ 63 % 2 * 2 ^ 63 := by
    rw [UInt64.toNat_and]
    show num.toNat &&& 2 ^ 63 = _
    rw [Nat.and_two_pow, Nat.testBit_eq_decide_div_mod_eq]
    obtain h | h := Nat.mod_two_eq_zero_or_one (num.toNat / 2 ^ 63)
    · rw [h]
      rfl
    · rw [h]
      rfl
  have hbit : num &&& 0x8000000000000000 ≠ 0 ↔ 2 ^ 63 ≤ num.toNat := by
    rw [ne_eq, ← UInt64.toNat_inj, hand, UInt64.toNat_zero]
    omega
  rw [printNeg, Bool.and_eq_true, Bool.not_eq_true', decide_eq_true_iff, hbit]

theorem printMagnitude_eq (num : UInt64) (flags : PrintFlags) :
    (if printNeg num flags then ~~~num + 1 else num).toNat = printMagnitude num flags := by
  rw [printMagnitude]
  split_ifs with hneg
  · have hpos : 0 < num.toNat := by
      have hhigh := ((printNeg_iff num flags).mp hneg).2
      omega
    have hlt := num.toNat_lt
    rw [← UInt64.neg_eq_not_add, UInt64.toNat_neg]
    show (2 ^ 64 - num.toNat) % 2 ^ 64 = 2 ^ 64 - num.toNat
    exact Nat.mod_eq_of_lt (by omega)
  · rfl

/-- The sign, then the numeral to the width. -/
def intText (num base : UInt64) (pad : Nat) (flags : PrintFlags) : List Char :=
  let digits := numeral flags.uppercase base.toNat (printMagnitude num flags)
  printSign num flags ++
    List.replicate (pad - digits.length) (if flags.padzero then '0' else ' ') ++ digits

/-- Its length, from the number of digits. -/
def intLength (num base : UInt64) (pad : Nat) (flags : PrintFlags) : Nat :=
  (if printNeg num flags ∨ flags.possign ∨ flags.posspace then 1 else 0) +
    max pad (Nat.toDigits base.toNat (printMagnitude num flags)).length

theorem length_intText (num base : UInt64) (pad : Nat) (flags : PrintFlags) :
    (intText num base pad flags).length = intLength num base pad flags := by
  have hsign : (printSign num flags).length =
      if printNeg num flags ∨ flags.possign ∨ flags.posspace then 1 else 0 := by
    rw [printSign]
    cases printNeg num flags <;> cases flags.possign <;> cases flags.posspace <;> rfl
  rw [intLength, ← hsign]
  simp only [intText, List.length_append, List.length_replicate, numeral_length]
  omega

theorem printInt_eq (num : UInt64) (pad : Nat) (flags : PrintFlags) (hb : 8 ≤ base.toNat)
    (hb16 : base.toNat ≤ 16) :
    printInt num base pad flags = some (intText num base pad flags) := by
  have hmag := printMagnitude_eq num flags
  rw [printInt]
  generalize (if printNeg num flags then ~~~num + 1 else num) = n at hmag
  rw [intText, ← hmag]
  have hroom : n.toNat < base.toNat ^ 25 :=
    n.toNat_lt.trans_le ((by decide : 2 ^ 64 ≤ 8 ^ 25).trans (Nat.pow_le_pow_left hb 25))
  rw [printIntLoop_eq (by omega) hb16 hroom]
  -- what is left in `ans` for 0 is the numeral
  have hans : (if (if n = 0 then [] else (numeral flags.uppercase base.toNat n.toNat).reverse) = []
      then ['0'] else if n = 0 then [] else (numeral flags.uppercase base.toNat n.toNat).reverse) =
      (numeral flags.uppercase base.toNat n.toNat).reverse := by
    by_cases hn : n = 0
    · subst hn
      rw [if_pos rfl, if_pos rfl, UInt64.toNat_zero, numeral_of_lt (by omega)]
      cases flags.uppercase with
      | false => rfl
      | true => rfl
    · rw [if_neg hn, if_neg (by simpa using numeral_ne_nil)]
  show some _ = _
  rw [hans, List.length_reverse, List.reverse_reverse]

end

/-! ## The argument -/

/-- The words an argument takes. -/
def argWords (size : Int) : Nat :=
  if size = 2 then 2 else if -2 ≤ size ∧ size ≤ 1 then 1 else 0

/-- The argument, where words that are not there are 0. -/
def argValue (varg : List UInt32) (size : Int) : UInt64 :=
  ((getArg (varg ++ [0, 0]) size).map Prod.fst).getD 0

theorem getArg_eq {varg : List UInt32} {size : Int} (h : argWords size ≤ varg.length) :
    getArg varg size = some (argValue varg size, varg.drop (argWords size)) := by
  rw [argWords] at h ⊢
  split_ifs at h ⊢ with h2 h1
  · subst h2
    obtain ⟨lo, hi, rest, rfl⟩ : ∃ lo hi rest, varg = lo :: hi :: rest := by
      match varg, h with
      | lo :: hi :: rest, _ => exact ⟨lo, hi, rest, rfl⟩
    rfl
  · obtain ⟨w, rest, rfl⟩ := List.exists_cons_of_length_pos (by omega : 0 < varg.length)
    obtain rfl | rfl | rfl | rfl : size = -2 ∨ size = -1 ∨ size = 0 ∨ size = 1 := by omega
    · rfl
    · rfl
    · rfl
    · rfl
  · rw [not_and_or] at h1
    have hnone : ∀ varg : List UInt32, getArg varg size = some (0, varg) := by
      intro varg
      rw [getArg, if_neg (by omega), if_neg (by omega), if_neg (by omega), if_neg (by omega),
        if_neg h2]
    rw [argValue, hnone, hnone]
    rfl

end LBoot.Io
