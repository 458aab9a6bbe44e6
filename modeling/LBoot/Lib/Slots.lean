/-
  LBoot.Lib.Slots

  A table of slots, some of them occupied.

  A table may be kept in blocks of one size; its slots are numbered through
  (`getElem?_flatMap_blocks`, `flatMap_modify`).  What a table holds are its occupied slots, in no
  particular order.  The other lemmas say what writing one slot does to them,
  by whether the slot was occupied and whether it is afterwards.
-/

import Mathlib.Data.List.Perm.Basic

namespace LBoot.Lib

variable {α : Type*} {p : α → Bool} {l r : List α} {i : Nat} {a b : α}

/-! ## Chained blocks -/

/-- What a change of one block does not concern. -/
theorem map_modify_of_eq {β γ : Type*} {g : β → γ} {f : β → β} (h : ∀ b, g (f b) = g b)
    (blocks : List β) (i : Nat) : (blocks.modify i f).map g = blocks.map g := by
  apply List.ext_getElem?
  intro j
  rw [List.getElem?_map, List.getElem?_modify, List.getElem?_map]
  cases blocks[j]? with
  | none => rfl
  | some b =>
      show some (g (if i = j then f b else b)) = some (g b)
      split
      · rw [h b]
      · rfl

/-- The slot behind a list. -/
theorem set_append_cons (l r : List α) (a b : α) : (l ++ a :: r).set l.length b = l ++ b :: r := by
  rw [List.set_append_right _ _ (Nat.le_refl _), Nat.sub_self, List.set_cons_zero]

section Blocks

variable {β : Type*} {n : Nat} (view : β → List α) (hn : 0 < n) (hlen : ∀ b, (view b).length = n)
  (i : Nat) (blocks : List β)
include hn hlen

/-- A slot of the whole table, in its block. -/
theorem getElem?_flatMap_blocks :
    (blocks.flatMap view)[i]? = blocks[i / n]?.bind fun b => (view b)[i % n]? := by
  induction blocks generalizing i with
  | nil => rfl
  | cons b blocks ih =>
      rw [List.flatMap_cons, List.getElem?_append, hlen]
      rcases Nat.lt_or_ge i n with hlt | hge
      · rw [if_pos hlt, Nat.div_eq_of_lt hlt, Nat.mod_eq_of_lt hlt]
        rfl
      · rw [if_neg (Nat.not_lt_of_ge hge), Nat.div_eq_sub_div hn hge, Nat.mod_eq_sub_mod hge,
          List.getElem?_cons_succ, ih]

/-- Writing a slot of one block writes the slot of that number in the whole
    table. -/
theorem flatMap_modify (f : β → β)
    (hf : ∀ b, blocks[i / n]? = some b → view (f b) = (view b).set (i % n) a) :
    (blocks.modify (i / n) f).flatMap view = (blocks.flatMap view).set i a := by
  induction blocks generalizing i with
  | nil => rw [List.modify_nil, List.flatMap_nil, List.set_nil]
  | cons b blocks ih =>
      rw [List.flatMap_cons, List.set_append, hlen]
      rcases Nat.lt_or_ge i n with hlt | hge
      · rw [Nat.div_eq_of_lt hlt, Nat.mod_eq_of_lt hlt] at hf
        rw [if_pos hlt, Nat.div_eq_of_lt hlt, List.modify_zero_cons, List.flatMap_cons, hf b rfl]
      · rw [Nat.div_eq_sub_div hn hge, Nat.mod_eq_sub_mod hge] at hf
        rw [if_neg (Nat.not_lt_of_ge hge), Nat.div_eq_sub_div hn hge, List.modify_succ_cons,
          List.flatMap_cons, ih _ hf]

end Blocks

/-! ## Occupied slots -/

/-- The slot read, and the others. -/
theorem perm_eraseIdx (h : l[i]? = some a) : l.Perm (a :: l.eraseIdx i) := by
  obtain ⟨hi, rfl⟩ := List.getElem?_eq_some_iff.mp h
  exact (List.getElem_cons_eraseIdx_perm hi).symm

/-- Write an occupied slot. -/
theorem filter_set_replace (h : l[i]? = some a) (ha : p a = true) (hb : p b = true)
    (hp : (l.filter p).Perm (a :: r)) : ((l.set i b).filter p).Perm (b :: r) := by
  have hi := (List.getElem?_eq_some_iff.mp h).1
  have hold := (perm_eraseIdx h).filter p
  have hnew := (List.set_perm_cons_eraseIdx hi b).filter p
  rw [List.filter_cons_of_pos ha] at hold
  rw [List.filter_cons_of_pos hb] at hnew
  exact hnew.trans (((hold.symm.trans hp).cons_inv).cons b)

/-- Occupy a slot. -/
theorem filter_set_insert (h : l[i]? = some a) (ha : p a = false) (hb : p b = true) :
    ((l.set i b).filter p).Perm (b :: l.filter p) := by
  have hi := (List.getElem?_eq_some_iff.mp h).1
  have hold := (perm_eraseIdx h).filter p
  have hnew := (List.set_perm_cons_eraseIdx hi b).filter p
  rw [List.filter_cons_of_neg (by rw [ha]; exact Bool.false_ne_true)] at hold
  rw [List.filter_cons_of_pos hb] at hnew
  exact hnew.trans (hold.symm.cons b)

/-- Clear a slot. -/
theorem filter_set_remove (h : l[i]? = some a) (ha : p a = true) (hb : p b = false)
    (hp : (l.filter p).Perm (a :: r)) : ((l.set i b).filter p).Perm r := by
  have hi := (List.getElem?_eq_some_iff.mp h).1
  have hold := (perm_eraseIdx h).filter p
  have hnew := (List.set_perm_cons_eraseIdx hi b).filter p
  rw [List.filter_cons_of_pos ha] at hold
  rw [List.filter_cons_of_neg (by rw [hb]; exact Bool.false_ne_true)] at hnew
  exact hnew.trans (hold.symm.trans hp).cons_inv

/-! ## Scans -/

/-- A scan sees the slots by ascending number. -/
theorem pairwise_zipIdx (l : List α) (k : Nat) : (l.zipIdx k).Pairwise fun a b => a.2 < b.2 := by
  rw [← List.pairwise_map (f := Prod.snd) (R := (· < ·)), List.zipIdx_map_snd]
  exact List.pairwise_lt_range' 1

/-- Where keys ascend, what comes first has the lower key. -/
theorem key_le_of_idxOf_le [DecidableEq α] {key : α → Nat} (h : l.Pairwise fun a b => key a < key b)
    (ha : a ∈ l) (hb : b ∈ l) (hle : l.idxOf a ≤ l.idxOf b) : key a ≤ key b := by
  rcases Nat.eq_or_lt_of_le hle with heq | hlt
  · exact Nat.le_of_eq (congrArg key ((List.idxOf_inj ha).mp heq))
  · have hkeys := List.pairwise_iff_getElem.mp h _ _ (List.idxOf_lt_length_of_mem ha)
      (List.idxOf_lt_length_of_mem hb) hlt
    rw [List.getElem_idxOf, List.getElem_idxOf] at hkeys
    exact Nat.le_of_lt hkeys

/-- What a scan finds at an element and does not lose again, it has found at
    the end. -/
theorem foldl_of_mem {β : Type*} {f : β → α → β} {P : β → Prop} (hkeep : ∀ s b, P s → P (f s b))
    (hfind : ∀ s, P (f s a)) (h : a ∈ l) (s : β) : P (l.foldl f s) := by
  obtain ⟨before, after, rfl⟩ := List.append_of_mem h
  rw [List.foldl_append, List.foldl_cons]
  exact List.foldlRecOn after f (hfind _) fun s hs b _ => hkeep s b hs

end LBoot.Lib
