/-
  LBoot.Lib.Recency

  Least recently used first: recency lists and rank counters.

  `recent` lists what has been used, the last one used in front.  A replacer
  with `n` places is right if it holds the first `n` of these; they can be
  kept without the rest (`take_toFront`).

  The counters are one for each slot.  Using a slot sets its counter to zero
  and moves the smaller ones up (`touchRank`).  The counters of the slots that
  have been used say the order of their use as long as the others are out of
  the way (`Ranked.touch`), and for that no more than `t` counters may be
  below `t` (`Spread`): this is neither gained nor lost by using slots
  (`spread_touch_iff`).
-/

import Mathlib.Data.Finset.Card
import Mathlib.Data.Fintype.Card
import Mathlib.Data.List.Nodup

namespace LBoot.Lib

/-! ## Recency lists -/

section Lists

variable {α : Type*} [DecidableEq α]

/-- The last one used goes to the front. -/
def toFront (a : α) (l : List α) : List α := a :: l.erase a

/-- What has been used, the last one in front. -/
def recent (hs : List α) : List α := hs.foldl (fun l a => toFront a l) []

theorem nodup_toFront {a : α} {l : List α} (h : l.Nodup) : (toFront a l).Nodup :=
  List.nodup_cons.mpr ⟨h.not_mem_erase, h.erase a⟩

theorem mem_toFront {a b : α} {l : List α} (h : l.Nodup) : b ∈ toFront a l ↔ b = a ∨ b ∈ l := by
  rw [toFront, List.mem_cons, h.mem_erase_iff]
  tauto

theorem recent_append (hs : List α) (a : α) : recent (hs ++ [a]) = toFront a (recent hs) := by
  rw [recent, List.foldl_append]
  rfl

theorem nodup_recent (hs : List α) : (recent hs).Nodup := by
  induction hs using List.reverseRecOn with
  | nil => exact List.nodup_nil
  | append_singleton hs a ih =>
      rw [recent_append]
      exact nodup_toFront ih

/-- The first places depend on the first places only. -/
theorem take_toFront (n : Nat) (a : α) (l : List α) :
    (toFront a (l.take n)).take n = (toFront a l).take n := by
  have herase : ∀ (m : Nat) (l : List α),
      ((l.take (m + 1)).erase a).take m = (l.erase a).take m := by
    intro m l
    induction l generalizing m with
    | nil => rfl
    | cons b l ih =>
        rw [List.take_succ_cons, List.erase_cons, List.erase_cons]
        split
        · rw [List.take_take, Nat.min_self]
        · cases m with
          | zero => rfl
          | succ m => rw [List.take_succ_cons, List.take_succ_cons, ih]
  cases n with
  | zero => rfl
  | succ n => rw [toFront, toFront, List.take_succ_cons, List.take_succ_cons, herase]

/-- Places move up by one in front of the one that is used, and stay behind
    it. -/
theorem idxOf_toFront {a b : α} {l : List α} (hb : b ∈ l) (hne : b ≠ a) :
    (toFront a l).idxOf b = if l.idxOf b < l.idxOf a then l.idxOf b + 1 else l.idxOf b := by
  rw [toFront, List.idxOf_cons_ne _ hne.symm]
  induction l with
  | nil => exact absurd hb List.not_mem_nil
  | cons c l ih =>
      rw [List.erase_cons]
      by_cases hca : c = a
      · rw [if_pos (beq_iff_eq.mpr hca), hca, List.idxOf_cons_self, List.idxOf_cons_ne _ hne.symm,
          if_neg (Nat.not_lt_zero _)]
      · rw [if_neg (by rwa [beq_iff_eq]), List.idxOf_cons_ne l hca]
        by_cases hcb : c = b
        · rw [hcb, List.idxOf_cons_self, List.idxOf_cons_self, if_pos (Nat.succ_pos _)]
        · rw [List.idxOf_cons_ne _ hcb, List.idxOf_cons_ne _ hcb,
            ih ((List.mem_cons.mp hb).resolve_left (Ne.symm hcb))]
          simp only [Nat.succ_eq_add_one, Nat.add_lt_add_iff_right]
          split
          · rfl
          · rfl

end Lists

/-! ## Rank counters -/

section Ranks

variable {β : Type*} [DecidableEq β] {rank : β → Nat} {l : List β}

/-- The counters behind a use of slot `i`. -/
def touchRank (rank : β → Nat) (i : β) : β → Nat := fun j =>
  if j = i then 0 else if rank j < rank i then rank j + 1 else rank j

/-- The counters of these slots are their places. -/
structure Ranked (rank : β → Nat) (l : List β) : Prop where
  nodup : l.Nodup
  rank_eq : ∀ i ∈ l, rank i = l.idxOf i

variable [Fintype β]

/-- The slots whose counter is below `t`. -/
def below (rank : β → Nat) (t : Nat) : Finset β := Finset.univ.filter fun i => rank i < t

/-- No more than `t` counters are below `t`. -/
def Spread (rank : β → Nat) : Prop := ∀ t, (below rank t).card ≤ t

omit [DecidableEq β] in
theorem mem_below {t : Nat} {i : β} : i ∈ below rank t ↔ rank i < t := by
  rw [below, Finset.mem_filter, and_iff_right (Finset.mem_univ i)]

omit [DecidableEq β] in
/-- Distinct counters are spread. -/
theorem spread_of_injective (h : Function.Injective rank) : Spread rank := by
  intro t
  have hcard := Finset.card_le_card_of_injOn (s := below rank t) (t := Finset.range t) rank
    (fun i hi => Finset.mem_range.mpr (mem_below.mp hi)) h.injOn
  rwa [Finset.card_range] at hcard

theorem below_touch_of_lt {t : Nat} {i : β} (h : rank i < t) :
    below (touchRank rank i) t = below rank t := by
  ext j
  rw [mem_below, mem_below, touchRank]
  split
  · next hj =>
      subst hj
      omega
  · split <;> omega

theorem below_touch_of_le {t : Nat} {i : β} (h : t < rank i) :
    (below (touchRank rank i) (t + 1)).card = (below rank t).card + 1 := by
  have hinsert : below (touchRank rank i) (t + 1) = insert i (below rank t) := by
    ext j
    rw [Finset.mem_insert, mem_below, mem_below, touchRank]
    split
    · next hj => simp [hj]
    · next hj =>
        rw [or_iff_right hj]
        split <;> omega
  rw [hinsert, Finset.card_insert_of_notMem]
  rw [mem_below]
  omega

/-- **Using a slot** does not change whether the counters are spread. -/
theorem spread_touch_iff {i : β} : Spread (touchRank rank i) ↔ Spread rank := by
  constructor
  · intro h t
    rcases Nat.lt_trichotomy t (rank i) with hlt | heq | hgt
    · have hnew := h (t + 1)
      rw [below_touch_of_le hlt] at hnew
      omega
    · -- the slot itself is not below its own counter
      have hnew := h (t + 1)
      rw [below_touch_of_lt (by omega)] at hnew
      have hlt : (below rank t).card < (below rank (t + 1)).card := by
        apply Finset.card_lt_card
        rw [Finset.ssubset_iff]
        refine ⟨i, by rw [mem_below]; omega, fun j hj => ?_⟩
        rcases Finset.mem_insert.mp hj with rfl | hj
        · rw [mem_below]
          omega
        · rw [mem_below] at hj ⊢
          omega
      omega
    · have hnew := h t
      rwa [below_touch_of_lt hgt] at hnew
  · intro h t
    rcases Nat.lt_or_ge (rank i) t with hlt | hge
    · rw [below_touch_of_lt hlt]
      exact h t
    · cases t with
      | zero =>
          have hnone : below (touchRank rank i) 0 = ∅ := by
            ext j
            simp [mem_below]
          rw [hnone, Finset.card_empty]
      | succ t =>
          rw [below_touch_of_le hge]
          exact Nat.succ_le_succ (h t)

namespace Ranked

/-- The other counters are out of the way. -/
theorem length_le (h : Ranked rank l) (hs : Spread rank) {i : β} (hi : i ∉ l) :
    l.length ≤ rank i := by
  by_contra hlt
  have hsub : insert i l.toFinset ⊆ below rank l.length := by
    intro j hj
    rw [mem_below]
    rcases Finset.mem_insert.mp hj with rfl | hj
    · omega
    · rw [List.mem_toFinset] at hj
      rw [h.rank_eq j hj]
      exact List.idxOf_lt_length_of_mem hj
  have hcard := Finset.card_le_card hsub
  rw [Finset.card_insert_of_notMem (by rwa [List.mem_toFinset]),
    List.toFinset_card_of_nodup h.nodup] at hcard
  have hle := hs l.length
  omega

/-- Behind a use the counters are the places again. -/
theorem touch (h : Ranked rank l) (hs : Spread rank) (i : β) :
    Ranked (touchRank rank i) (toFront i l) := by
  refine ⟨nodup_toFront h.nodup, fun j hj => ?_⟩
  rw [touchRank]
  by_cases hji : j = i
  · rw [if_pos hji, hji, toFront, List.idxOf_cons_self]
  · have hjl : j ∈ l := ((mem_toFront h.nodup).mp hj).resolve_left hji
    have hlt := List.idxOf_lt_length_of_mem hjl
    rw [if_neg hji, idxOf_toFront hjl hji, h.rank_eq j hjl]
    by_cases hil : i ∈ l
    · rw [h.rank_eq i hil]
    · have hle := h.length_le hs hil
      rw [List.idxOf_eq_length hil, if_pos (by omega), if_pos hlt]

/-- A slot that no counter exceeds is one that was not used, or the last. -/
theorem oldest (h : Ranked rank l) (hs : Spread rank) {e : β} (hmax : ∀ i, rank i ≤ rank e) :
    (e ∉ l ∧ l.length < Fintype.card β) ∨ (e ∈ l ∧ l.length = Fintype.card β ∧
      l.idxOf e + 1 = l.length) := by
  have hlen := h.nodup.length_le_card
  rcases Nat.lt_or_ge l.length (Fintype.card β) with hlt | hge
  · left
    refine ⟨fun he => ?_, hlt⟩
    -- some slot was not used, and its counter is above all places
    obtain ⟨i, hi⟩ : ∃ i, i ∉ l := by
      by_contra hall
      push Not at hall
      have hcard := Finset.card_le_card (s := Finset.univ) (t := l.toFinset) fun i _ =>
        List.mem_toFinset.mpr (hall i)
      rw [List.toFinset_card_of_nodup h.nodup, Finset.card_univ] at hcard
      omega
    have hout := h.length_le hs hi
    have hin := List.idxOf_lt_length_of_mem he
    have hle := hmax i
    rw [h.rank_eq e he] at hle
    omega
  · right
    have hall : ∀ i, i ∈ l := by
      intro i
      by_contra hi
      have hcons := (List.nodup_cons.mpr ⟨hi, h.nodup⟩).length_le_card
      rw [List.length_cons] at hcons
      omega
    refine ⟨hall e, by omega, ?_⟩
    have hin := List.idxOf_lt_length_of_mem (hall e)
    -- the slot in the last place
    have hlast : l.length - 1 < l.length := by omega
    have hle := hmax l[l.length - 1]
    rw [h.rank_eq _ (hall _), h.rank_eq e (hall e), h.nodup.idxOf_getElem] at hle
    omega

end Ranked

end Ranks

end LBoot.Lib
