/-
  LBoot.Lib.Memory

  A memory addressed by integers, seen from some base: blocks of cells are
  stored and loaded at an offset, which may well be negative.

  `storeAt` replaces the cells of one block and leaves the others alone;
  `loadAt` reads a block back.  What the two do together is stated once here:
  a load of the stored block, a load that misses it, and the split of a load
  at an intermediate address.
-/

import Mathlib.Algebra.Group.Int.Defs
import Mathlib.Algebra.Group.Nat.Defs
import Mathlib.Data.List.Basic

namespace LBoot.Lib

variable {α : Type*}

/-- The cells `[a, a + bs.length)` overwritten by `bs`. -/
def storeAt (m : Int → α) (a : Int) (bs : List α) : Int → α := fun x =>
  if a ≤ x then (bs[(x - a).toNat]?).getD (m x) else m x

/-- The `n` cells from `a` on. -/
def loadAt (m : Int → α) : Int → Nat → List α
  | _, 0 => []
  | a, n + 1 => m a :: loadAt m (a + 1) n

@[simp] theorem length_loadAt (m : Int → α) (a : Int) (n : Nat) : (loadAt m a n).length = n := by
  induction n generalizing a with
  | zero => rfl
  | succ n ih => rw [loadAt, List.length_cons, ih]

/-- A load is determined by the cells it reads. -/
theorem loadAt_congr {m m' : Int → α} {a : Int} {n : Nat}
    (h : ∀ x, a ≤ x → x < a + n → m x = m' x) : loadAt m a n = loadAt m' a n := by
  induction n generalizing a with
  | zero => rfl
  | succ n ih =>
      rw [loadAt, loadAt, h a (Int.le_refl a) (by omega),
        ih fun x hlo hhi => h x (by omega) (by omega)]

theorem loadAt_append (m : Int → α) (a : Int) (n k : Nat) :
    loadAt m a (n + k) = loadAt m a n ++ loadAt m (a + n) k := by
  induction n generalizing a with
  | zero => simp [loadAt]
  | succ n ih =>
      rw [Nat.succ_add, loadAt, ih, loadAt, List.cons_append]
      congr 3
      omega

/-- The cell at index `i` of a load. -/
theorem getElem?_loadAt {m : Int → α} {a : Int} {n i : Nat} (h : i < n) :
    (loadAt m a n)[i]? = some (m (a + i)) := by
  induction n generalizing a i with
  | zero => exact absurd h (Nat.not_lt_zero i)
  | succ n ih =>
      cases i with
      | zero =>
          rw [loadAt, List.getElem?_cons_zero]
          congr 2
          omega
      | succ i =>
          rw [loadAt, List.getElem?_cons_succ, ih (by omega)]
          congr 2
          omega

/-- A list is what a load reads if it agrees with every cell. -/
theorem loadAt_eq_iff {m : Int → α} {a : Int} {n : Nat} {bs : List α} (h : bs.length = n) :
    loadAt m a n = bs ↔ ∀ i < n, bs[i]? = some (m (a + i)) := by
  constructor
  · rintro rfl i hi
    exact getElem?_loadAt hi
  · intro hall
    apply List.ext_getElem?
    intro i
    by_cases hi : i < n
    · rw [getElem?_loadAt hi, hall i hi]
    · rw [List.getElem?_eq_none (by rw [length_loadAt]; omega), List.getElem?_eq_none (by omega)]

/-- Outside the block stored, the memory is unchanged. -/
theorem storeAt_of_outside {m : Int → α} {a x : Int} {bs : List α}
    (h : x < a ∨ a + bs.length ≤ x) : storeAt m a bs x = m x := by
  rw [storeAt]
  rcases h with hlt | hge
  · rw [if_neg (by omega)]
  · rw [if_pos (by omega), List.getElem?_eq_none (by omega), Option.getD_none]

/-- A single cell. -/
theorem storeAt_singleton (m : Int → α) (a : Int) (b : α) (x : Int) :
    storeAt m a [b] x = if x = a then b else m x := by
  by_cases hx : x = a
  · rw [if_pos hx, hx, storeAt, if_pos (Int.le_refl a), Int.sub_self]
    rfl
  · rw [if_neg hx, storeAt_of_outside (by rw [List.length_singleton]; omega)]

/-- A load that sees it. -/
theorem loadAt_set (m : Int → α) (a : Int) {k n : Nat} (hk : k < n) (b : α) :
    loadAt (storeAt m (a + k) [b]) a n = (loadAt m a n).set k b := by
  rw [loadAt_eq_iff (by rw [List.length_set, length_loadAt])]
  intro i hi
  rw [storeAt_singleton, List.getElem?_set, getElem?_loadAt hi, length_loadAt, if_pos hk]
  by_cases hki : k = i
  · rw [if_pos hki, if_pos (by omega)]
  · rw [if_neg hki, if_neg (by omega)]

@[simp] theorem storeAt_nil (m : Int → α) (a : Int) : storeAt m a [] = m := by
  funext x
  exact storeAt_of_outside (by rw [List.length_nil]; omega)

/-- Inside it, the memory holds the block. -/
theorem storeAt_of_inside {m : Int → α} {a : Int} {bs : List α} {i : Nat} (h : i < bs.length) :
    storeAt m a bs (a + i) = bs[i] := by
  rw [storeAt, if_pos (by omega)]
  have hidx : (a + i - a).toNat = i := by omega
  rw [hidx, List.getElem?_eq_getElem h, Option.getD_some]

/-- A load that misses the block stored sees the old memory. -/
theorem loadAt_storeAt_disjoint {m : Int → α} {a b : Int} {n : Nat} {bs : List α}
    (h : b + n ≤ a ∨ a + bs.length ≤ b) : loadAt (storeAt m a bs) b n = loadAt m b n := by
  apply loadAt_congr
  intro x hlo hhi
  apply storeAt_of_outside
  omega

/-- The block stored is what a load of its cells reads. -/
theorem loadAt_storeAt (m : Int → α) (a : Int) (bs : List α) :
    loadAt (storeAt m a bs) a bs.length = bs := by
  rw [loadAt_eq_iff rfl]
  intro i hi
  rw [storeAt_of_inside hi, List.getElem?_eq_getElem hi]

/-- A block copied from another memory. -/
theorem storeAt_loadAt (m : Int → α) {m' : Int → α} (a : Int) {b : Int} {n i : Nat} (h : i < n) :
    storeAt m a (loadAt m' b n) (a + i) = m' (b + i) := by
  have hlen : i < (loadAt m' b n).length := by rwa [length_loadAt]
  have hcell := getElem?_loadAt (m := m') (a := b) h
  rw [List.getElem?_eq_getElem hlen] at hcell
  rw [storeAt_of_inside hlen]
  exact Option.some.inj hcell

/-- Two blocks stored next to each other are one block. -/
theorem storeAt_append (m : Int → α) (a : Int) (bs cs : List α) :
    storeAt (storeAt m a bs) (a + bs.length) cs = storeAt m a (bs ++ cs) := by
  funext x
  rw [storeAt, storeAt, storeAt]
  by_cases hlo : a ≤ x
  · by_cases hmid : a + bs.length ≤ x
    · rw [if_pos hmid, if_pos hlo, if_pos hlo, List.getElem?_append_right (by omega),
        List.getElem?_eq_none (l := bs) (by omega), Option.getD_none]
      congr 2
      omega
    · rw [if_neg hmid, if_pos hlo, if_pos hlo, List.getElem?_append_left (by omega)]
  · rw [if_neg (by omega), if_neg hlo, if_neg hlo]

/-- Two blocks stored apart from each other, in either order. -/
theorem storeAt_comm (m : Int → α) {a b : Int} {bs cs : List α}
    (h : a + bs.length ≤ b ∨ b + cs.length ≤ a) :
    storeAt (storeAt m a bs) b cs = storeAt (storeAt m b cs) a bs := by
  funext x
  by_cases hb : b ≤ x ∧ x < b + cs.length
  · obtain ⟨i, rfl⟩ := Int.exists_add_of_le hb.1
    have hi : i < cs.length := by omega
    have hout : b + i < a ∨ a + bs.length ≤ b + i := by omega
    rw [storeAt_of_inside hi, storeAt_of_outside hout, storeAt_of_inside hi]
  · have hout : x < b ∨ b + cs.length ≤ x := by omega
    rw [storeAt_of_outside hout, storeAt, storeAt, storeAt_of_outside hout]

/-- Two blocks, one behind the other, at addresses that are numbers. -/
theorem storeAt_behind (m : Int → α) {a k : Nat} {bs : List α} (hk : k = a + bs.length)
    (cs : List α) : storeAt (storeAt m a bs) k cs = storeAt m a (bs ++ cs) := by
  have haddr : (k : Int) = a + bs.length := by omega
  rw [haddr, storeAt_append]

/-- What is there already may be stored again. -/
theorem storeAt_same {m : Int → α} {a : Int} {bs : List α}
    (h : ∀ i (hi : i < bs.length), m (a + i) = bs[i]) : storeAt m a bs = m := by
  funext y
  by_cases hin : a ≤ y ∧ y < a + bs.length
  · obtain ⟨i, rfl⟩ := Int.exists_add_of_le hin.1
    have hi : i < bs.length := by omega
    rw [storeAt_of_inside hi, h i hi]
  · exact storeAt_of_outside (by omega)

/-- So a block need not end in what follows it. -/
theorem storeAt_replicate {m : Int → α} {a : Int} {bs : List α} {n : Nat} {x : α}
    (h : ∀ i < n, m (a + bs.length + i) = x) :
    storeAt m a (bs ++ List.replicate n x) = storeAt m a bs := by
  rw [← storeAt_append]
  apply storeAt_same
  intro i hi
  rw [storeAt_of_outside (by omega), List.getElem_replicate]
  exact h i (by rwa [List.length_replicate] at hi)

/-- The beginning of a block that was stored, overwritten. -/
theorem storeAt_front (m : Int → α) (a : Int) {qs qs' : List α} (h : qs.length = qs'.length)
    (rs : List α) : storeAt (storeAt m a (qs ++ rs)) a qs' = storeAt m a (qs' ++ rs) := by
  funext y
  by_cases hin : a ≤ y ∧ y < a + qs'.length
  · obtain ⟨i, rfl⟩ := Int.exists_add_of_le hin.1
    have hi : i < qs'.length := by omega
    rw [storeAt_of_inside hi, storeAt_of_inside (by rw [List.length_append]; omega),
      List.getElem_append_left hi]
  · rw [storeAt_of_outside (by omega), storeAt, storeAt]
    split
    · rw [List.getElem?_append_right (by omega), List.getElem?_append_right (by omega), h]
    · rfl

/-- The same for a block in the middle. -/
theorem storeAt_middle (m : Int → α) {a k : Nat} {ps qs qs' : List α} (rs : List α)
    (hk : k = a + ps.length) (h : qs.length = qs'.length) :
    storeAt (storeAt m a (ps ++ (qs ++ rs))) k qs' = storeAt m a (ps ++ (qs' ++ rs)) := by
  rw [← storeAt_behind m hk, ← storeAt_behind m hk, storeAt_front _ _ h]

/-- A shorter load is the beginning of a longer one. -/
theorem take_loadAt (m : Int → α) (a : Int) {n k : Nat} (h : n ≤ k) :
    (loadAt m a k).take n = loadAt m a n := by
  obtain ⟨j, rfl⟩ := Nat.exists_eq_add_of_le h
  rw [loadAt_append]
  exact List.take_left' (length_loadAt m a n)

/-- A load from a later cell on is the end of a longer one. -/
theorem drop_loadAt (m : Int → α) (a : Int) {n k : Nat} (h : n ≤ k) :
    (loadAt m a k).drop n = loadAt m (a + n) (k - n) := by
  obtain ⟨j, rfl⟩ := Nat.exists_eq_add_of_le h
  rw [loadAt_append, Nat.add_sub_cancel_left]
  exact List.drop_left' (length_loadAt m a n)

/-- A load inside a block whose bytes are known. -/
theorem loadAt_inside {m : Int → α} {a : Int} {n off k : Nat} {bs : List α}
    (h : loadAt m a n = bs) (hfit : off + k ≤ n) :
    loadAt m (a + off) k = (bs.drop off).take k := by
  rw [← h, drop_loadAt _ _ (by omega), take_loadAt _ _ (by omega)]

/-- A load from a block that was copied. -/
theorem loadAt_copy (m : Int → α) (a b : Int) {n off k : Nat} (h : off + k ≤ n) :
    loadAt (storeAt m a (loadAt m b n)) (a + off) k = loadAt m (b + off) k := by
  have hcopy := loadAt_storeAt m a (loadAt m b n)
  rw [length_loadAt] at hcopy
  rw [loadAt_inside hcopy h, loadAt_inside rfl h]

/-! ## Blocks of one size -/

/-- A concatenation of blocks of one size, from the start of a block on. -/
theorem drop_flatten_blocks {bss : List (List α)} {n : Nat} (hlen : ∀ bs ∈ bss, bs.length = n)
    {k : Nat} {bs : List α} (hk : bss[k]? = some bs) :
    bss.flatten.drop (k * n) = bs ++ bss.flatten.drop ((k + 1) * n) := by
  induction bss generalizing k with
  | nil => cases hk
  | cons b bss ih =>
      have hb := hlen b List.mem_cons_self
      have hrest : ∀ k, (b ++ bss.flatten).drop ((k + 1) * n) = bss.flatten.drop (k * n) := by
        intro k
        rw [Nat.succ_mul, Nat.add_comm, ← List.drop_drop, ← hb, List.drop_left]
      rw [List.flatten_cons]
      cases k with
      | zero =>
          rw [List.getElem?_cons_zero, Option.some.injEq] at hk
          rw [hrest 0, Nat.zero_mul, List.drop_zero, List.drop_zero, hk]
      | succ k =>
          rw [List.getElem?_cons_succ] at hk
          rw [hrest k, hrest (k + 1)]
          exact ih (fun bs hbs => hlen bs (List.mem_cons_of_mem _ hbs)) hk

theorem length_flatten_blocks {bss : List (List α)} {n : Nat}
    (hlen : ∀ bs ∈ bss, bs.length = n) : bss.flatten.length = bss.length * n := by
  induction bss with
  | nil => rw [List.flatten_nil, List.length_nil, List.length_nil, Nat.zero_mul]
  | cons bs bss ih =>
      rw [List.flatten_cons, List.length_append, hlen bs List.mem_cons_self,
        ih fun b hb => hlen b (List.mem_cons_of_mem _ hb), List.length_cons, Nat.succ_mul,
        Nat.add_comm]

end LBoot.Lib
