/-
  LBoot.Lib.Occurrence

  The first occurrence of a word in a list.

  That the word does not occur earlier is said of the part before it: an
  earlier occurrence may reach into the word, but not to its end
  (`FirstOccurrence.first`).
-/

import Mathlib.Data.List.Basic

namespace LBoot.Lib

variable {α : Type*} {word h l r p : List α} {c : α}

/-- `h` is `l`, the word and `r`, and the word does not occur earlier. -/
structure FirstOccurrence (word h l r : List α) : Prop where
  split : h = l ++ (word ++ r)
  first : ¬ word <:+: l ++ word.dropLast

theorem length_dropLast_lt (hword : word ≠ []) : word.dropLast.length < word.length := by
  rw [List.length_dropLast]
  exact Nat.sub_lt (List.length_pos_iff.mpr hword) Nat.one_pos

/-- At the front. -/
theorem firstOccurrence_nil (hword : word ≠ []) (r : List α) :
    FirstOccurrence word (word ++ r) [] r := by
  refine ⟨rfl, fun hinfix => ?_⟩
  have hlen := hinfix.length_le
  exact absurd (length_dropLast_lt hword) (Nat.not_lt.mpr hlen)

/-- Behind an element with which the word does not begin. -/
theorem FirstOccurrence.cons {b : α} (hocc : FirstOccurrence word h l r)
    (hb : ¬ word <+: b :: h) : FirstOccurrence word (b :: h) (b :: l) r := by
  refine ⟨by rw [hocc.split]; rfl, fun hinfix => ?_⟩
  rw [List.cons_append, List.infix_cons_iff] at hinfix
  obtain hpre | hinfix := hinfix
  · -- an occurrence at the front would be one in the whole list
    apply hb
    have hrest : l ++ word.dropLast <+: h := by
      rw [hocc.split, List.prefix_append_right_inj]
      exact (List.dropLast_prefix word).trans (List.prefix_append word r)
    exact hpre.trans (List.cons_prefix_cons.mpr ⟨rfl, hrest⟩)
  · exact hocc.first hinfix

/-- Behind elements with which the word does not begin, nothing changes. -/
theorem firstOccurrence_append_iff {cs : List α} (hc : c ∉ p) :
    FirstOccurrence (c :: cs) (p ++ h) l r ↔
      ∃ l', l = p ++ l' ∧ FirstOccurrence (c :: cs) h l' r := by
  constructor
  · intro hocc
    induction p generalizing l with
    | nil => exact ⟨l, rfl, hocc⟩
    | cons b p ih =>
        obtain ⟨hcb, hcp⟩ := List.ne_and_not_mem_of_not_mem_cons hc
        obtain ⟨hsplit, hfirst⟩ := hocc
        cases l with
        | nil => exact absurd (List.cons.inj hsplit).1.symm hcb
        | cons b' l =>
            obtain ⟨rfl, htail⟩ := List.cons.inj hsplit
            obtain ⟨l', rfl, hocc'⟩ := ih hcp ⟨htail, fun hinfix =>
              hfirst (List.infix_cons_iff.mpr (Or.inr hinfix))⟩
            exact ⟨l', rfl, hocc'⟩
  · rintro ⟨l', rfl, hocc⟩
    induction p with
    | nil => exact hocc
    | cons b p ih =>
        obtain ⟨hcb, hcp⟩ := List.ne_and_not_mem_of_not_mem_cons hc
        exact (ih hcp).cons fun hpre => hcb (List.cons_prefix_cons.mp hpre).1

/-- The first time an element occurs. -/
theorem firstOccurrence_singleton (hc : c ∉ p) (r : List α) :
    FirstOccurrence [c] (p ++ c :: r) p r :=
  firstOccurrence_append_iff hc |>.mpr
    ⟨[], (List.append_nil p).symm, firstOccurrence_nil (List.cons_ne_nil c []) r⟩

/-- There is one first occurrence. -/
theorem FirstOccurrence.unique {l' r' : List α} (hocc : FirstOccurrence word h l r)
    (hocc' : FirstOccurrence word h l' r') : l = l' ∧ r = r' := by
  have hle : ∀ {l₁ r₁ l₂ r₂ : List α}, FirstOccurrence word h l₁ r₁ →
      FirstOccurrence word h l₂ r₂ → l₂.length ≤ l₁.length := by
    intro l₁ r₁ l₂ r₂ h₁ h₂
    -- the one that comes first lies in the front part of the other
    by_contra hlt
    apply h₂.first
    have hpre₁ : l₁ ++ word <+: h := ⟨r₁, by rw [h₁.split, List.append_assoc]⟩
    have hpre₂ : l₂ ++ word.dropLast <+: h := by
      rw [h₂.split, List.prefix_append_right_inj]
      exact (List.dropLast_prefix word).trans (List.prefix_append word r₂)
    have hlen : (l₁ ++ word).length ≤ (l₂ ++ word.dropLast).length := by
      rw [List.length_append, List.length_append, List.length_dropLast]
      omega
    exact (List.suffix_append l₁ word).isInfix.trans
      (List.prefix_of_prefix_length_le hpre₁ hpre₂ hlen).isInfix
  have hlen : l.length = l'.length := Nat.le_antisymm (hle hocc' hocc) (hle hocc hocc')
  obtain ⟨rfl, hrest⟩ := List.append_inj (hocc.split.symm.trans hocc'.split) hlen
  exact ⟨rfl, List.append_cancel_left hrest⟩

end LBoot.Lib
