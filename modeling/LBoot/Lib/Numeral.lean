/-
  LBoot.Lib.Numeral

  Numerals read back.

  A decimal digit or a letter of either case counts what it does in bases up
  to 36; a numeral is read from its first digit on (`numeralValue_cons`), and
  reading what is written gives the number (`numeralValue_numeral`).
  Characters are given by their codes.
-/

import LBoot.Lib.CFormat

namespace LBoot.Lib

/-- What a decimal digit or a letter counts. -/
def digitValue (c : Nat) : Option Nat :=
  if 0x30 ≤ c ∧ c ≤ 0x39 then some (c - 0x30)
  else if 0x41 ≤ c ∧ c ≤ 0x5a then some (10 + (c - 0x41))
  else if 0x61 ≤ c ∧ c ≤ 0x7a then some (10 + (c - 0x61))
  else none

/-- The value of a numeral. -/
def numeralValue (base : Nat) (cs : List Nat) : Nat :=
  Nat.ofDigits base (cs.map fun c => (digitValue c).getD 0).reverse

/-- Digits of a base with the value `n`, the first of them not 0 unless it is
    the only one. -/
structure IsNumeral (base n : Nat) (digits : List Char) : Prop where
  ne_nil : digits ≠ []
  digit : ∀ c ∈ digits, ∃ d < base, digitValue c.toNat = some d
  lead : digits.head? = some '0' → digits = ['0']
  value : numeralValue base (digits.map Char.toNat) = n

variable {base : Nat}

theorem numeralValue_append (cs ds : List Nat) :
    numeralValue base (cs ++ ds) =
      numeralValue base cs * base ^ ds.length + numeralValue base ds := by
  rw [numeralValue, numeralValue, numeralValue, List.map_append, List.reverse_append,
    Nat.ofDigits_append, List.length_reverse, List.length_map, Nat.add_comm, Nat.mul_comm]

theorem numeralValue_singleton (c : Nat) : numeralValue base [c] = (digitValue c).getD 0 := by
  rw [numeralValue]
  exact Nat.ofDigits_singleton

theorem numeralValue_cons (c : Nat) (ds : List Nat) :
    numeralValue base (c :: ds) =
      (digitValue c).getD 0 * base ^ ds.length + numeralValue base ds := by
  rw [← List.singleton_append, numeralValue_append, numeralValue_singleton]

/-- The digits that are written, read back. -/
theorem digitValue_digitChar {r : Nat} (h : r < 16) (upper : Bool) :
    digitValue (if upper then r.digitChar.toUpper else r.digitChar).toNat = some r := by
  have hall : ∀ r < 16, ∀ u : Bool,
      digitValue (if u = true then r.digitChar.toUpper else r.digitChar).toNat = some r := by decide
  exact hall r h upper

/-- A numeral that is written, read back. -/
theorem numeralValue_numeral (upper : Bool) (hb : 1 < base) (hb16 : base ≤ 16) (n : Nat) :
    numeralValue base ((numeral upper base n).map Char.toNat) = n := by
  induction n using Nat.strongRecOn with
  | ind n ih =>
      obtain hlt | hge := Nat.lt_or_ge n base
      · rw [numeral_of_lt hlt, List.map_singleton, numeralValue_singleton,
          digitValue_digitChar (by omega)]
        rfl
      · have hmod := Nat.mod_lt n (by omega : 0 < base)
        rw [numeral_of_base_le hb hge, List.map_append, numeralValue_append,
          ih (n / base) (Nat.div_lt_self (by omega) hb), numeral_of_lt hmod, List.map_singleton,
          numeralValue_singleton, digitValue_digitChar (by omega)]
        show n / base * base ^ 1 + n % base = n
        rw [Nat.pow_one]
        exact Nat.div_add_mod' n base

theorem isNumeral_numeral (upper : Bool) (hb : 1 < base) (hb16 : base ≤ 16) (n : Nat) :
    IsNumeral base n (numeral upper base n) where
  ne_nil := numeral_ne_nil
  digit := forall_mem_numeral hb fun r hr => ⟨r, hr, digitValue_digitChar (by omega) upper⟩
  lead := by
    intro hhead
    obtain rfl | hn := Nat.eq_zero_or_pos n
    · rw [numeral_of_lt (by omega)]
      cases upper <;> rfl
    · exact absurd hhead (head_numeral_ne_zero hb hb16 hn)
  value := numeralValue_numeral upper hb hb16 n

end LBoot.Lib
