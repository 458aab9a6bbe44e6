/-
  LBoot.Lib.Chain

  Following a chain of links with a state: each step tells the next element
  and changes the state, and the element zero ends the chain.

  Two followers whose steps agree on all elements but the bad ones see the
  same chain from an element exactly if no element on it is bad
  (`follow_agree_iff`).

  Where the links do not change, element `k` of a chain is a function of the
  element it starts from (`chainAt`).  A chain in which no element comes twice
  is no longer than there are elements (`Acyclic.lt_card`).
-/

import Mathlib.Data.Finset.Card
import Mathlib.Data.List.Nodup

namespace LBoot.Lib

variable {σ τ α : Type*} [Zero α] [DecidableEq α]

/-- The first elements of the chain from `c` on. -/
def follow (next : σ → α → α × σ) : Nat → σ → α → List α
  | 0, _, _ => []
  | n + 1, s, c => c :: if (next s c).1 = 0 then [] else follow next n (next s c).2 (next s c).1

theorem follow_succ (next : σ → α → α × σ) (n : Nat) (s : σ) (c : α) :
    follow next (n + 1) s c
      = c :: if (next s c).1 = 0 then [] else follow next n (next s c).2 (next s c).1 := rfl

/-- Two elements show which link was followed. -/
theorem follow_two (next : σ → α → α × σ) (s : σ) (c : α) :
    follow next 2 s c = c :: if (next s c).1 = 0 then [] else [(next s c).1] := by
  rw [follow_succ, follow_succ]
  simp only [follow, ite_self]

section Agree

variable {f : σ → α → α × σ} {g : τ → α → α × τ} {R : σ → τ → Prop} {D Bad : α → Prop}

/-- Two followers that agree except at bad elements, in related states. -/
def AgreeBut (f : σ → α → α × σ) (g : τ → α → α × τ) (R : σ → τ → Prop) (D Bad : α → Prop) : Prop :=
  ∀ s t c, R s t → D c → R (f s c).2 (g t c).2 ∧ D (g t c).1 ∧ ((f s c).1 = (g t c).1 ↔ ¬ Bad c)

theorem follow_agree (h : AgreeBut f g R D Bad) {n : Nat} {s : σ} {t : τ} {c : α} (hR : R s t)
    (hc : D c) (hgood : ∀ d ∈ follow g n t c, ¬ Bad d) : follow f n s c = follow g n t c := by
  induction n generalizing s t c with
  | zero => rfl
  | succ n ih =>
      obtain ⟨hR', hc', hiff⟩ := h s t c hR hc
      rw [follow_succ] at hgood ⊢
      have heq := hiff.mpr (hgood c List.mem_cons_self)
      rw [follow_succ, heq]
      congr 1
      split
      · rfl
      · next hne =>
          rw [if_neg hne] at hgood
          exact ih hR' hc' fun d hd => hgood d (List.mem_cons_of_mem _ hd)

/-- If all the chains agree, so does the first link. -/
theorem follow_agree_first {s : σ} {t : τ} {c : α}
    (h : ∀ n, follow f n s c = follow g n t c) :
    (f s c).1 = (g t c).1 := by
  have htwo := h 2
  rw [follow_two, follow_two, List.cons_eq_cons] at htwo
  obtain ⟨-, htail⟩ := htwo
  split at htail
  · next hf =>
      split at htail
      · next hg => rw [hf, hg]
      · exact absurd htail (by simp)
  · split at htail
    · exact absurd htail (by simp)
    · simpa using htail

theorem follow_good (h : AgreeBut f g R D Bad) {n : Nat} {s : σ} {t : τ} {c d : α} (hR : R s t)
    (hc : D c) (heq : ∀ n, follow f n s c = follow g n t c) (hd : d ∈ follow g n t c) :
    ¬ Bad d := by
  induction n generalizing s t c with
  | zero => exact absurd hd List.not_mem_nil
  | succ n ih =>
      obtain ⟨hR', hc', hiff⟩ := h s t c hR hc
      have hfirst := follow_agree_first heq
      rw [follow_succ] at hd
      rcases List.mem_cons.mp hd with rfl | hd
      · exact hiff.mp hfirst
      · split at hd
        · exact absurd hd List.not_mem_nil
        · next hne =>
            refine ih hR' hc' (fun m => ?_) hd
            have hm := heq (m + 1)
            rw [follow_succ, follow_succ, hfirst, if_neg hne, if_neg hne] at hm
            exact (List.cons_eq_cons.mp hm).2

/-- The chains agree exactly if no element on them is bad. -/
theorem follow_agree_iff (h : AgreeBut f g R D Bad) {s : σ} {t : τ} {c : α} (hR : R s t)
    (hc : D c) : (∀ n, follow f n s c = follow g n t c) ↔
      ∀ n, ∀ d ∈ follow g n t c, ¬ Bad d :=
  ⟨fun heq _ _ hd => follow_good h hR hc heq hd, fun hgood n => follow_agree h hR hc (hgood n)⟩

end Agree

/-! ## Elements -/

/-- Element `k` of the chain from `c` on. -/
def chainAt (next : α → α) : Nat → α → Option α
  | 0, c => some c
  | k + 1, c => if next c = 0 then none else chainAt next k (next c)

/-- No element comes twice. -/
def Acyclic (next : α → α) (c : α) : Prop :=
  ∀ i j d, chainAt next i c = some d → chainAt next j c = some d → i = j

section Elements

variable {next : α → α} {c d : α}

/-- The chain goes on from its last element. -/
theorem chainAt_succ (next : α → α) (k : Nat) (c : α) :
    chainAt next (k + 1) c
      = (chainAt next k c).bind fun d => if next d = 0 then none else some (next d) := by
  induction k generalizing c with
  | zero => rfl
  | succ k ih =>
      rw [chainAt]
      split
      · next hend => rw [chainAt, if_pos hend, Option.bind_none]
      · next hnext => rw [ih, chainAt, if_neg hnext]

theorem chainAt_succ_of_some {k : Nat} (h : chainAt next k c = some d) :
    chainAt next (k + 1) c = if next d = 0 then none else some (next d) := by
  rw [chainAt_succ, h, Option.bind_some]

theorem chainAt_none_of_le {k j : Nat} (h : k ≤ j) (hk : chainAt next k c = none) :
    chainAt next j c = none := by
  induction j, h using Nat.le_induction with
  | base => exact hk
  | succ j _ ih => rw [chainAt_succ, ih, Option.bind_none]

/-- What holds of the first element and along the links holds of all. -/
theorem chainAt_mem {D : α → Prop} (hstep : ∀ d, D d → D (next d)) (hc : D c) {k : Nat}
    (hk : chainAt next k c = some d) : D d := by
  induction k generalizing c with
  | zero => rwa [← Option.some.inj hk]
  | succ k ih =>
      rw [chainAt] at hk
      split at hk
      · exact absurd hk nofun
      · exact ih (hstep c hc) hk

/-- A list whose elements follow each other is the chain. -/
theorem chainAt_eq_getElem? {l : List α} (hfirst : l.head? = some c) (hzero : 0 ∉ l)
    (hstep : ∀ k d, l[k]? = some d → next d = l[k + 1]?.getD 0) (k : Nat) :
    chainAt next k c = l[k]? := by
  induction k with
  | zero => rw [chainAt, ← hfirst, List.head?_eq_getElem?]
  | succ k ih =>
      cases hk : l[k]? with
      | none =>
          rw [chainAt_none_of_le (Nat.le_succ k) (ih.trans hk)]
          exact (List.getElem?_eq_none (Nat.le_succ_of_le (List.getElem?_eq_none_iff.mp hk))).symm
      | some d =>
          rw [chainAt_succ_of_some (ih.trans hk), hstep k d hk]
          cases hnext : l[k + 1]? with
          | none => exact if_pos rfl
          | some e =>
              have hne : e ≠ 0 := ne_of_mem_of_not_mem (List.mem_of_getElem? hnext) hzero
              exact if_neg hne

/-- A chain without a cycle is no longer than there are elements. -/
theorem Acyclic.lt_card (h : Acyclic next c) {F : Finset α}
    (hF : ∀ k d, chainAt next k c = some d → d ∈ F) {k : Nat} (hk : chainAt next k c = some d) :
    k < F.card := by
  have hall : ∀ i ∈ Finset.range (k + 1), ∃ e, chainAt next i c = some e := by
    intro i hi
    apply Option.ne_none_iff_exists'.mp
    intro hnone
    rw [chainAt_none_of_le (Nat.le_of_lt_succ (Finset.mem_range.mp hi)) hnone] at hk
    exact absurd hk nofun
  have hle : (Finset.range (k + 1)).card ≤ F.card := by
    apply Finset.card_le_card_of_injOn fun i => (chainAt next i c).getD c
    · intro i hi
      obtain ⟨e, he⟩ := hall i hi
      simpa [he] using hF i e he
    · intro i hi j hj heq
      obtain ⟨e, he⟩ := hall i hi
      obtain ⟨e', he'⟩ := hall j hj
      obtain rfl : e = e' := by simpa [he, he'] using heq
      exact h i j e he he'
  rwa [Finset.card_range] at hle

/-- It ends. -/
theorem Acyclic.exists_none (h : Acyclic next c) {F : Finset α}
    (hF : ∀ k d, chainAt next k c = some d → d ∈ F) : ∃ n, chainAt next n c = none := by
  by_contra hnone
  obtain ⟨d, hd⟩ := Option.ne_none_iff_exists'.mp fun h => hnone ⟨F.card, h⟩
  exact absurd (h.lt_card hF hd) (Nat.lt_irrefl _)

/-- A chain that ends has no cycle: behind an element that comes twice it would
    go on as before. -/
theorem acyclic_of_none {n : Nat} (hn : chainAt next n c = none) : Acyclic next c := by
  have hlt : ∀ i j d, i < j → chainAt next i c = some d → chainAt next j c ≠ some d := by
    intro i j d hij hi hj
    have hsame : ∀ m, chainAt next (i + m) c = chainAt next (j + m) c := by
      intro m
      induction m with
      | zero => exact hi.trans hj.symm
      | succ m ih => rw [← Nat.add_assoc, ← Nat.add_assoc, chainAt_succ, chainAt_succ, ih]
    -- the distance of both is added until the end of the chain is reached
    have hgo : ∀ m, chainAt next (i + m * (j - i)) c = some d := by
      intro m
      induction m with
      | zero => rwa [Nat.zero_mul, Nat.add_zero]
      | succ m ih =>
          have hnext : i + (m + 1) * (j - i) = j + m * (j - i) := by
            rw [Nat.succ_mul]
            omega
          rw [hnext, ← hsame, ih]
    have hle : n ≤ i + n * (j - i) :=
      Nat.le_add_left_of_le (Nat.le_mul_of_pos_right n (Nat.sub_pos_of_lt hij))
    have hend := hgo n
    rw [chainAt_none_of_le hle hn] at hend
    exact absurd hend nofun
  intro i j d hi hj
  rcases Nat.lt_trichotomy i j with h | h | h
  · exact absurd hj (hlt i j d h hi)
  · exact h
  · exact absurd hi (hlt j i d h hj)

/-- The first elements of a chain without a cycle are different. -/
theorem Acyclic.nodup (h : Acyclic next c) {l : List α}
    (hl : ∀ k < l.length, chainAt next k c = l[k]?) : l.Nodup := by
  rw [List.nodup_iff_getElem?_ne_getElem?]
  intro i j hij hj heq
  have hi := hl i (Nat.lt_trans hij hj)
  rw [List.getElem?_eq_getElem (Nat.lt_trans hij hj)] at hi heq
  exact Nat.ne_of_lt hij (h i j _ hi ((hl j hj).trans heq.symm))

end Elements

end LBoot.Lib
