/-
  LBoot.Stdlib.Search

  Comparing the beginnings of strings, and searching in them
  (src/stdlib/string.c).

  `strncmp` tells whether the second string is a prefix, where that is as long
  as the count (`strncmp_eq`), `strncasecmp` does so for strings in any letter
  case (`strncasecmp_eq`), and `strstr` finds the first occurrence
  (`strstr_eq`).
-/

import LBoot.Lib.Occurrence
import LBoot.Stdlib.Strings

namespace LBoot.Stdlib

open LBoot.Lib

/-! ## Model -/

/-- `--num`, on a `size_t`. -/
def decSize (num : Nat) : Nat := if num = 0 then 2 ^ 32 - 1 else num - 1

/-- `strncmp`. -/
def strncmp : List UInt8 → List UInt8 → Nat → Option Int
  | b :: s, c :: t, num =>
      if b ≠ 0 ∧ b = c ∧ decSize num ≠ 0 then strncmp s t (decSize num)
      else some (schar b - schar c)
  | _, _, _ => none

/-- `_tolower`. -/
def tolower (c : Int) : Int := if 0x41 ≤ c ∧ c ≤ 0x5a then c + (0x61 - 0x41) else c

/-- `strncasecmp`. -/
def strncasecmp : List UInt8 → List UInt8 → Nat → Option Int
  | b :: s, c :: t, num =>
      let c1 := tolower (schar b)
      let c2 := tolower (schar c)
      if c1 ≠ 0 ∧ c1 = c2 ∧ decSize num ≠ 0 then strncasecmp s t (decSize num) else some (c1 - c2)
  | _, _, _ => none

/-- The outer loop of `strstr`, with the turns that are left; the inner one
    compares so many bytes. -/
def strstrLoop (needle : List UInt8) (needleSz : Nat) : List UInt8 → Nat → Option Nat
  | _, 0 => none
  | haystack, n + 1 =>
      if haystack.take needleSz = needle.take needleSz then some 0
      else (strstrLoop needle needleSz haystack.tail n).map (· + 1)

/-- `strstr`: the offset, `some none` for `NULL`. -/
def strstr (haystack needle : List UInt8) : Option (Option Nat) :=
  match strlen haystack, strlen needle with
  | some haystackSz, some needleSz =>
      if haystackSz < needleSz then some none
      else some (strstrLoop needle needleSz haystack (haystackSz - needleSz + 1))
  | _, _ => none

/-! ## Letters -/

/-- The small letter of a capital. -/
def lowerByte (b : UInt8) : UInt8 := if 0x41 ≤ b ∧ b ≤ 0x5a then b + 0x20 else b

/-- Equal in any letter case. -/
def EqIgnoreCase (l m : List UInt8) : Prop := l.map lowerByte = m.map lowerByte

instance (l m : List UInt8) : Decidable (EqIgnoreCase l m) := inferInstanceAs (Decidable (_ = _))

theorem lowerByte_toNat (b : UInt8) : (lowerByte b).toNat =
    if 0x41 ≤ b.toNat ∧ b.toNat ≤ 0x5a then b.toNat + 0x20 else b.toNat := by
  have hcapital : 0x41 ≤ b ∧ b ≤ 0x5a ↔ 0x41 ≤ b.toNat ∧ b.toNat ≤ 0x5a :=
    and_congr UInt8.le_iff_toNat_le UInt8.le_iff_toNat_le
  rw [lowerByte]
  split_ifs with h h' h'
  · rw [UInt8.toNat_add]
    show (b.toNat + 0x20) % 2 ^ 8 = b.toNat + 0x20
    omega
  · exact absurd (hcapital.mp h) h'
  · exact absurd (hcapital.mpr h') h
  · rfl

theorem tolower_schar (b : UInt8) : tolower (schar b) = schar (lowerByte b) := by
  have hb := b.toNat_lt
  rw [tolower, schar, schar, lowerByte_toNat]
  split_ifs <;> omega

theorem schar_eq_zero_iff {b : UInt8} : schar b = 0 ↔ b = 0 :=
  ⟨fun h => schar_inj h, fun h => h ▸ rfl⟩

theorem lowerByte_ne_zero {b : UInt8} (hb : b ≠ 0) : lowerByte b ≠ 0 := by
  intro h
  have hval := congrArg UInt8.toNat h
  rw [lowerByte_toNat] at hval
  apply hb
  apply UInt8.toNat_inj.mp
  show b.toNat = 0
  have hzero : (0 : UInt8).toNat = 0 := rfl
  split_ifs at hval <;> omega

variable {l m w : List UInt8}

/-- A character without case that is not in a string is in none that is equal
    to it in some letter case. -/
theorem not_mem_of_eqIgnoreCase {b : UInt8} (h : EqIgnoreCase l m)
    (hb : lowerByte b ∉ l.map lowerByte) : b ∉ m := by
  intro hmem
  apply hb
  rw [h]
  exact List.mem_map_of_mem hmem

theorem length_of_eqIgnoreCase (h : EqIgnoreCase l m) : m.length = l.length := by
  have hlen := congrArg List.length h
  rw [List.length_map, List.length_map] at hlen
  exact hlen.symm

/-! ## Prefixes -/

/-- `strncmp` with the length of the second string. -/
theorem strncmp_eq (hm : 0 ∉ m) (hne : m ≠ []) (l w w' : List UInt8) :
    ∃ d, strncmp (l ++ 0 :: w) (m ++ w') m.length = some d ∧ (d = 0 ↔ m <+: l) := by
  induction m generalizing l with
  | nil => exact absurd rfl hne
  | cons c m ih =>
      obtain ⟨hc, hm⟩ := List.ne_and_not_mem_of_not_mem_cons hm
      have hdec : decSize (c :: m).length = m.length := rfl
      cases l with
      | nil =>
          rw [List.nil_append, List.cons_append, strncmp, if_neg (fun h => h.1 rfl)]
          refine ⟨_, rfl, iff_of_false (fun hd => ?_) (fun hpre => ?_)⟩
          · exact hc (schar_inj (Int.sub_eq_zero.mp hd))
          · exact List.cons_ne_nil c m (List.prefix_nil.mp hpre)
      | cons b l =>
          rw [List.cons_append, List.cons_append, strncmp, hdec, List.cons_prefix_cons]
          by_cases hbc : b = c
          · by_cases hend : m = []
            · -- the count is used up
              rw [hend, List.length_nil, if_neg (fun h => h.2.2 rfl), hbc]
              exact ⟨_, rfl, iff_of_true (Int.sub_self _) ⟨rfl, List.nil_prefix⟩⟩
            · -- the next two characters are compared
              have hmore : m.length ≠ 0 := fun h => hend (List.eq_nil_of_length_eq_zero h)
              rw [if_pos ⟨fun h => hc (h.symm.trans hbc), hbc, hmore⟩]
              obtain ⟨d, hd, hiff⟩ := ih hm hend l
              exact ⟨d, hd, hiff.trans (and_iff_right hbc.symm).symm⟩
          · rw [if_neg (fun h => hbc h.2.1)]
            refine ⟨_, rfl, iff_of_false (fun hd => ?_) (fun h => hbc h.1.symm)⟩
            exact hbc (schar_inj (Int.sub_eq_zero.mp hd))

/-- `strncasecmp` of strings of one length. -/
theorem strncasecmp_eq (hl : 0 ∉ l) (hne : l ≠ []) (hlen : l.length = m.length)
    (w w' : List UInt8) :
    ∃ d, strncasecmp (l ++ w) (m ++ w') l.length = some d ∧ (d = 0 ↔ EqIgnoreCase l m) := by
  induction l generalizing m with
  | nil => exact absurd rfl hne
  | cons b l ih =>
      obtain ⟨hb, hl⟩ := List.ne_and_not_mem_of_not_mem_cons hl
      have hdec : decSize (b :: l).length = l.length := rfl
      cases m with
      | nil => cases hlen
      | cons c m =>
          have hcase : EqIgnoreCase (b :: l) (c :: m) ↔
              lowerByte b = lowerByte c ∧ EqIgnoreCase l m := by
            rw [EqIgnoreCase, List.map_cons, List.map_cons, List.cons.injEq]
            rfl
          have hlower : schar (lowerByte b) ≠ 0 :=
            fun h => lowerByte_ne_zero (Ne.symm hb) (schar_eq_zero_iff.mp h)
          rw [List.cons_append, List.cons_append, strncasecmp, hdec, hcase]
          simp only [tolower_schar]
          by_cases hbc : lowerByte b = lowerByte c
          · by_cases hend : l = []
            · obtain rfl : m = [] := List.eq_nil_of_length_eq_zero (by simpa [hend] using hlen)
              rw [hend, List.length_nil, if_neg (fun h => h.2.2 rfl), hbc]
              exact ⟨_, rfl, iff_of_true (Int.sub_self _) ⟨rfl, rfl⟩⟩
            · have hmore : l.length ≠ 0 := fun h => hend (List.eq_nil_of_length_eq_zero h)
              rw [if_pos ⟨hlower, congrArg schar hbc, hmore⟩]
              obtain ⟨d, hd, hiff⟩ := ih hl hend (Nat.succ.inj hlen)
              exact ⟨d, hd, hiff.trans (and_iff_right hbc).symm⟩
          · rw [if_neg (fun h => hbc (schar_inj h.2.1))]
            refine ⟨_, rfl, iff_of_false (fun hd => ?_) (fun h => hbc h.1)⟩
            exact hbc (schar_inj (Int.sub_eq_zero.mp hd))

/-! ## Searching -/

/-- The comparison of the inner loop, where there are enough bytes. -/
theorem take_eq_take_iff (h : m.length ≤ l.length) (w w' : List UInt8) :
    (l ++ w).take m.length = (m ++ w').take m.length ↔ m <+: l := by
  rw [List.take_append_of_le_length h, List.take_left, List.prefix_iff_eq_take]
  exact eq_comm

/-- The outer loop, from any place with enough bytes. -/
theorem strstrLoop_eq (hne : m ≠ []) (h : m.length ≤ l.length) (w w' : List UInt8) :
    (∃ l₁ r, FirstOccurrence m l l₁ r ∧
      strstrLoop (m ++ w') m.length (l ++ w) (l.length - m.length + 1) = some l₁.length) ∨
    ¬ m <:+: l ∧ strstrLoop (m ++ w') m.length (l ++ w) (l.length - m.length + 1) = none := by
  have hpos : 0 < m.length := List.length_pos_iff.mpr hne
  induction l with
  | nil => exact absurd hpos (Nat.not_lt.mpr h)
  | cons b l ih =>
      rw [strstrLoop]
      simp only [take_eq_take_iff h]
      by_cases hpre : m <+: b :: l
      · left
        obtain ⟨r, hr⟩ := hpre
        rw [if_pos ⟨r, hr⟩, ← hr]
        exact ⟨[], r, firstOccurrence_nil hne r, rfl⟩
      · rw [if_neg hpre]
        by_cases hrest : m.length ≤ l.length
        · have hcount : (b :: l).length - m.length = l.length - m.length + 1 := by
            rw [List.length_cons]
            omega
          rw [hcount, List.cons_append, List.tail_cons]
          obtain ⟨l₁, r, hocc, hloop⟩ | ⟨hnone, hloop⟩ := ih hrest
          · left
            rw [hloop]
            exact ⟨b :: l₁, r, hocc.cons hpre, rfl⟩
          · right
            rw [hloop, List.infix_cons_iff]
            exact ⟨not_or.mpr ⟨hpre, hnone⟩, rfl⟩
        · -- this was the last place where the needle fits in
          right
          have hcount : (b :: l).length - m.length = 0 := by
            rw [List.length_cons] at h ⊢
            omega
          rw [hcount, strstrLoop, List.infix_cons_iff]
          exact ⟨not_or.mpr ⟨hpre, fun hinfix => hrest hinfix.length_le⟩, rfl⟩

/-- `strstr` finds the first occurrence. -/
theorem strstr_eq (hne : m ≠ []) (hm : 0 ∉ m) (hl : 0 ∉ l) (w w' : List UInt8) :
    (∃ l₁ r, FirstOccurrence m l l₁ r ∧
      strstr (l ++ 0 :: w) (m ++ 0 :: w') = some (some l₁.length)) ∨
    ¬ m <:+: l ∧ strstr (l ++ 0 :: w) (m ++ 0 :: w') = some none := by
  rw [strstr, strlen_eq hl, strlen_eq hm]
  dsimp only
  by_cases hshort : l.length < m.length
  · right
    rw [if_pos hshort]
    exact ⟨fun hinfix => absurd hinfix.length_le (Nat.not_le.mpr hshort), rfl⟩
  · rw [if_neg hshort]
    obtain ⟨l₁, r, hocc, hloop⟩ | ⟨hnone, hloop⟩ :=
      @strstrLoop_eq l m hne (Nat.not_lt.mp hshort) (0 :: w) (0 :: w')
    · left
      rw [hloop]
      exact ⟨l₁, r, hocc, rfl⟩
    · right
      rw [hloop]
      exact ⟨hnone, rfl⟩

end LBoot.Stdlib
