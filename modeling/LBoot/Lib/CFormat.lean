/-
  LBoot.Lib.CFormat

  The integer conversions of C's `fprintf`, for data models with a `long` of
  32 bits.

  An argument is the bits it is passed in.  A conversion reduces them to its
  type, signed or not, and writes sign and numeral to at least the width of
  the field, which is filled on the right, or with zeros behind the sign, or
  on the left.
-/

import Mathlib.Data.List.Basic
import Mathlib.Data.Nat.Digits.Defs

namespace LBoot.Lib

/-! ## Numerals -/

/-- The numeral of a number in a base up to 16. -/
def numeral (upper : Bool) (base n : Nat) : List Char :=
  (Nat.toDigits base n).map fun c => if upper then c.toUpper else c

section

variable {upper : Bool} {base n m : Nat}

@[simp] theorem numeral_length : (numeral upper base n).length = (Nat.toDigits base n).length :=
  List.length_map _

theorem numeral_ne_nil : numeral upper base n ≠ [] := by
  simp [numeral]

theorem numeral_of_lt (h : n < base) :
    numeral upper base n = [if upper then n.digitChar.toUpper else n.digitChar] := by
  rw [numeral, Nat.toDigits_of_lt_base h]
  rfl

/-- The last digit comes off the end. -/
theorem numeral_of_base_le (hb : 1 < base) (h : base ≤ n) :
    numeral upper base n = numeral upper base (n / base) ++ numeral upper base (n % base) := by
  rw [numeral, Nat.toDigits_of_base_le hb h, List.map_append, ← numeral,
    numeral_of_lt (Nat.mod_lt n (by omega))]
  rfl

theorem length_numeral_le_iff {k : Nat} (hb : 1 < base) (hk : 0 < k) :
    (numeral upper base n).length ≤ k ↔ n < base ^ k := by
  rw [numeral_length, Nat.length_toDigits_le_iff hb hk]

/-- What is true of the digits is true of all characters of a numeral. -/
theorem forall_mem_numeral {P : Char → Prop} (hb : 1 < base)
    (h : ∀ r < base, P (if upper then r.digitChar.toUpper else r.digitChar)) :
    ∀ c ∈ numeral upper base n, P c := by
  induction n using Nat.strongRecOn with
  | ind n ih =>
      obtain hlt | hge := Nat.lt_or_ge n base
      · rw [numeral_of_lt hlt]
        simpa using h n hlt
      · have hmod := Nat.mod_lt n (by omega : 0 < base)
        rw [numeral_of_base_le hb hge, numeral_of_lt hmod]
        intro c hc
        rcases List.mem_append.mp hc with hc | hc
        · exact ih (n / base) (Nat.div_lt_self (by omega) hb) c hc
        · obtain rfl := List.mem_singleton.mp hc
          exact h _ hmod

/-- No blank is in a numeral. -/
theorem blank_not_mem_numeral (hb : 1 < base) (hb16 : base ≤ 16) :
    ' ' ∉ numeral upper base n := by
  intro hmem
  refine forall_mem_numeral (P := fun c => c ≠ ' ') hb (fun r hr => ?_) ' ' hmem rfl
  have hall : ∀ r < 16, ∀ u : Bool,
      (if u = true then r.digitChar.toUpper else r.digitChar) ≠ ' ' := by decide
  exact hall r (by omega) upper

/-- The numeral of a positive number begins with a positive digit. -/
theorem head_numeral (hb : 1 < base) (hn : 0 < n) :
    ∃ r, 0 < r ∧ r < base ∧ (numeral upper base n).head? =
      some (if upper then r.digitChar.toUpper else r.digitChar) := by
  induction n using Nat.strongRecOn with
  | ind n ih =>
      obtain hlt | hge := Nat.lt_or_ge n base
      · exact ⟨n, hn, hlt, by rw [numeral_of_lt hlt]; rfl⟩
      · rw [numeral_of_base_le hb hge, List.head?_append_of_ne_nil _ numeral_ne_nil]
        exact ih (n / base) (Nat.div_lt_self hn hb) (Nat.div_pos hge (by omega))

theorem head_numeral_ne_zero (hb : 1 < base) (hb16 : base ≤ 16) (hn : 0 < n) :
    (numeral upper base n).head? ≠ some '0' := by
  have hall : ∀ r < 16, ∀ u : Bool, 0 < r →
      (if u = true then r.digitChar.toUpper else r.digitChar) ≠ '0' := by decide
  obtain ⟨r, hpos, hlt, hhead⟩ := @head_numeral upper base n hb hn
  rw [hhead]
  intro h
  exact hall r (by omega) upper hpos (Option.some.inj h)

end

/-! ## Directives -/

/-- The flags of an integer conversion (`#` left out). -/
inductive CFlag where
  | minus | zero | plus | space
  deriving DecidableEq, Repr

/-- A length modifier, or none. -/
inductive CLength where
  | hh | h | none | l | ll
  deriving DecidableEq, Repr

inductive CConv where
  | d | i | u | x | X | o
  deriving DecidableEq, Repr

/-- A directive; the width is 0 where none is given. -/
structure CDirective where
  flags : List CFlag
  width : Nat
  length : CLength
  conv : CConv
  deriving DecidableEq, Repr

def CFlag.char : CFlag → Char
  | .minus => '-'
  | .zero => '0'
  | .plus => '+'
  | .space => ' '

def CLength.text : CLength → List Char
  | .hh => ['h', 'h']
  | .h => ['h']
  | .none => []
  | .l => ['l']
  | .ll => ['l', 'l']

def CConv.char : CConv → Char
  | .d => 'd'
  | .i => 'i'
  | .u => 'u'
  | .x => 'x'
  | .X => 'X'
  | .o => 'o'

/-- How a directive is written. -/
def CDirective.text (d : CDirective) : List Char :=
  '%' :: (d.flags.map CFlag.char ++ ((if d.width = 0 then [] else Nat.toDigits 10 d.width) ++
    (d.length.text ++ [d.conv.char])))

/-! ## What is printed -/

/-- The bits of the type the argument is converted to. -/
def CLength.bits : CLength → Nat
  | .hh => 8
  | .h => 16
  | .none | .l => 32
  | .ll => 64

def CConv.signed : CConv → Bool
  | .d | .i => true
  | .u | .x | .X | .o => false

def CConv.base : CConv → Nat
  | .d | .i | .u => 10
  | .x | .X => 16
  | .o => 8

def CConv.upper : CConv → Bool
  | .X => true
  | .d | .i | .u | .x | .o => false

/-- Sign and digits in a field: filled on the right, or with zeros behind the
    sign, or on the left. -/
def field (minus zero : Bool) (width : Nat) (sign digits : List Char) : List Char :=
  let fill := width - (sign.length + digits.length)
  if minus then sign ++ digits ++ List.replicate fill ' '
  else if zero then sign ++ List.replicate fill '0' ++ digits
  else List.replicate fill ' ' ++ sign ++ digits

theorem length_field (minus zero : Bool) (width : Nat) (sign digits : List Char) :
    (field minus zero width sign digits).length = max width (sign.length + digits.length) := by
  rw [field]
  split_ifs
  · simp only [List.length_append, List.length_replicate]
    omega
  · simp only [List.length_append, List.length_replicate]
    omega
  · simp only [List.length_append, List.length_replicate]
    omega

/-- Without room to fill. -/
theorem field_of_le {width : Nat} {sign digits : List Char} (minus zero : Bool)
    (h : width ≤ sign.length + digits.length) :
    field minus zero width sign digits = sign ++ digits := by
  rw [field, Nat.sub_eq_zero_of_le h]
  split_ifs <;> simp

/-- A field that is filled on the right ends with a blank. -/
theorem getLast?_field {width : Nat} {sign digits : List Char} (zero : Bool)
    (h : sign.length + digits.length < width) :
    (field true zero width sign digits).getLast? = some ' ' := by
  obtain ⟨fill, hfill⟩ := Nat.exists_eq_succ_of_ne_zero (Nat.sub_ne_zero_of_lt h)
  rw [field, if_pos rfl, hfill, List.replicate_succ', ← List.append_assoc, List.getLast?_concat]

namespace CDirective

variable (d : CDirective)

/-- The value of an argument that is passed in these bits. -/
def value (v : Nat) : Int :=
  if d.conv.signed then (v : Int).bmod (2 ^ d.length.bits) else (v % 2 ^ d.length.bits : Nat)

def digits (v : Nat) : List Char := numeral d.conv.upper d.conv.base (d.value v).natAbs

/-- Signs belong to signed conversions; `+` goes before a blank. -/
def sign (v : Nat) : List Char :=
  if d.value v < 0 then ['-']
  else if d.conv.signed ∧ .plus ∈ d.flags then ['+']
  else if d.conv.signed ∧ .space ∈ d.flags then [' ']
  else []

/-- What `fprintf` writes. -/
def printed (v : Nat) : List Char :=
  field (decide (.minus ∈ d.flags)) (decide (.zero ∈ d.flags)) d.width (d.sign v) (d.digits v)

variable {d}

theorem base_cases : d.conv.base = 8 ∨ d.conv.base = 10 ∨ d.conv.base = 16 := by
  cases d.conv with
  | d | i | u => exact .inr (.inl rfl)
  | x | X => exact .inr (.inr rfl)
  | o => exact .inl rfl

theorem natAbs_value (h : d.conv.signed = false) (v : Nat) :
    (d.value v).natAbs = v % 2 ^ d.length.bits := by
  rw [value, h]
  rfl

/-- An unsigned conversion writes no sign. -/
theorem sign_of_unsigned (h : d.conv.signed = false) (v : Nat) : d.sign v = [] := by
  have hvalue : ¬ d.value v < 0 := by
    rw [value, h]
    exact Int.not_lt.mpr (Int.natCast_nonneg _)
  rw [sign, if_neg hvalue, h]
  simp

end CDirective

end LBoot.Lib
