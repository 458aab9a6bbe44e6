/-
  LBoot.Lib.Splice

  Overwriting a window of a list: what a block copy into a buffer does.
-/

import Mathlib.Data.List.Basic

namespace LBoot.Lib

variable {α : Type*}

/-- `dst` with the window that starts at `off` overwritten by `src`. -/
def splice (dst : List α) (off : Nat) (src : List α) : List α :=
  dst.take off ++ src ++ dst.drop (off + src.length)

/-- A byte behind what was copied to the start. -/
theorem splice_zero_set {d bs : List α} (h : bs.length < d.length) (b : α) :
    (splice d 0 bs).set bs.length b = splice d 0 (bs ++ [b]) := by
  rw [splice, splice, List.take_zero, List.nil_append, List.nil_append, Nat.zero_add, Nat.zero_add,
    List.set_append_right _ _ (Nat.le_refl _), Nat.sub_self, List.drop_eq_getElem_cons h, List.set_cons_zero,
    List.length_append, List.length_singleton, List.append_assoc, List.singleton_append]

/-- A block behind what was copied to the start. -/
theorem splice_zero_append (d xs ys : List α) :
    (splice d 0 xs).take xs.length ++ splice ((splice d 0 xs).drop xs.length) 0 ys =
      splice d 0 (xs ++ ys) := by
  have hsplice : ∀ zs : List α, splice d 0 zs = zs ++ d.drop zs.length := fun zs => by
    rw [splice, List.take_zero, List.nil_append, Nat.zero_add]
  rw [hsplice, hsplice, List.take_left', List.drop_left', splice, List.take_zero, List.nil_append,
    Nat.zero_add, List.drop_drop, List.length_append, List.append_assoc]
  · rfl
  · rfl

end LBoot.Lib
