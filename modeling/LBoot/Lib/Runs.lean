/-
  LBoot.Lib.Runs

  Run-length encoding of lists of numbers: a run is a start and a count of
  consecutive numbers.

  `runs` is greedy: it goes on with the open run as long as the next number
  continues it.  Expanding gives the list back (`expand_runs`), the ends of
  every run are members of the list (`mem_runs`), and no run goes on where the
  one before it ends (`runs_maximal`).
-/

import Mathlib.Data.List.Chain

namespace LBoot.Lib

/-- The runs of a list behind an open run of `n` numbers from `s` on. -/
def runsFrom (s n : Nat) : List Nat → List (Nat × Nat)
  | [] => [(s, n)]
  | x :: xs => if x = s + n then runsFrom s (n + 1) xs else (s, n) :: runsFrom x 1 xs

def runs : List Nat → List (Nat × Nat)
  | [] => []
  | x :: xs => runsFrom x 1 xs

def expand (es : List (Nat × Nat)) : List Nat := es.flatMap fun e => List.range' e.1 e.2

@[simp] theorem expand_cons (e : Nat × Nat) (es : List (Nat × Nat)) :
    expand (e :: es) = List.range' e.1 e.2 ++ expand es := List.flatMap_cons

theorem expand_runsFrom (s n : Nat) (xs : List Nat) :
    expand (runsFrom s n xs) = List.range' s n ++ xs := by
  induction xs generalizing s n with
  | nil => rw [runsFrom, expand_cons]; rfl
  | cons x xs ih =>
      rw [runsFrom]
      split
      · next hx =>
        rw [ih, List.range'_1_concat, ← hx, List.append_assoc]
        rfl
      · rw [expand_cons, ih]
        rfl

theorem expand_runs (xs : List Nat) : expand (runs xs) = xs := by
  cases xs with
  | nil => rfl
  | cons x xs =>
      rw [runs, expand_runsFrom]
      rfl

theorem length_runs_pos {xs : List Nat} (hne : xs ≠ []) : 0 < (runs xs).length := by
  rw [List.length_pos_iff]
  intro hnil
  have hexpand := expand_runs xs
  rw [hnil] at hexpand
  exact hne hexpand.symm

theorem runsFrom_pos {s n : Nat} (hn : 0 < n) (xs : List Nat) :
    ∀ e ∈ runsFrom s n xs, 0 < e.2 := by
  induction xs generalizing s n with
  | nil =>
      intro e he
      rw [List.mem_singleton.mp he]
      exact hn
  | cons x xs ih =>
      rw [runsFrom]
      split
      · exact ih (Nat.succ_pos n)
      · intro e he
        rcases List.mem_cons.mp he with rfl | he
        · exact hn
        · exact ih Nat.one_pos e he

/-- A run is not empty, and its first and last numbers are in the list. -/
theorem mem_runs {xs : List Nat} {e : Nat × Nat} (he : e ∈ runs xs) :
    0 < e.2 ∧ e.1 ∈ xs ∧ e.1 + (e.2 - 1) ∈ xs := by
  have hpos : 0 < e.2 := by
    cases xs with
    | nil => cases he
    | cons x xs => exact runsFrom_pos Nat.one_pos xs e he
  have hsub : ∀ y ∈ List.range' e.1 e.2, y ∈ xs := by
    intro y hy
    rw [← expand_runs xs]
    exact List.mem_flatMap.mpr ⟨e, he, hy⟩
  refine ⟨hpos, hsub _ ?_, hsub _ ?_⟩
  · rw [List.mem_range'_1]
    omega
  · rw [List.mem_range'_1]
    omega

/-- What follows a run that is closed does not continue it. -/
theorem runsFrom_maximal (s n : Nat) (xs : List Nat) :
    (runsFrom s n xs).IsChain (fun a b => b.1 ≠ a.1 + a.2) ∧
      ∃ k rest, runsFrom s n xs = (s, k) :: rest := by
  induction xs generalizing s n with
  | nil => exact ⟨List.isChain_singleton _, n, [], rfl⟩
  | cons x xs ih =>
      rw [runsFrom]
      split
      · exact ih s (n + 1)
      · next hx =>
        obtain ⟨hchain, k, rest, heq⟩ := ih x 1
        refine ⟨?_, n, _, rfl⟩
        rw [heq] at hchain ⊢
        exact List.isChain_cons_cons.mpr ⟨hx, hchain⟩

theorem runs_maximal (xs : List Nat) : (runs xs).IsChain fun a b => b.1 ≠ a.1 + a.2 := by
  cases xs with
  | nil => exact List.isChain_nil
  | cons x xs => exact (runsFrom_maximal x 1 xs).1

end LBoot.Lib
