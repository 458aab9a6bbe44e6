/-
  LBoot.Lib.Iteration

  Loops as a step function: `none` where the loop is left.

  `steps f n s` is the state after `n` iterations that all go on.  A loop
  whose iterations raise a measure that they need below a bound ends
  (`steps_le_of_measure`); one that comes back to the state it is in does not
  (`steps_stays`).  Two loops that agree along a projection take the same
  iterations (`map_steps`).  `Exits` is a loop that is left, and where.
-/

import Mathlib.Order.Basic

namespace LBoot.Lib

variable {σ τ : Type*} {f : σ → Option σ}

/-- The state after so many iterations. -/
def steps (f : σ → Option σ) : Nat → σ → Option σ
  | 0, s => some s
  | n + 1, s => (f s).bind (steps f n)

@[simp] theorem steps_zero (f : σ → Option σ) (s : σ) : steps f 0 s = some s := rfl

theorem steps_succ (f : σ → Option σ) (n : Nat) (s : σ) :
    steps f (n + 1) s = (f s).bind (steps f n) := rfl

/-- The first iteration. -/
theorem steps_succ_eq_some {n : Nat} {s u : σ} (h : steps f (n + 1) s = some u) :
    ∃ t, f s = some t ∧ steps f n t = some u := by
  simpa [steps_succ, Option.bind_eq_some_iff] using h

/-- The last iteration. -/
theorem steps_succ_last {n : Nat} {s t u : σ} (h : steps f n s = some t) (hstep : f t = some u) :
    steps f (n + 1) s = some u := by
  induction n generalizing s with
  | zero =>
      obtain rfl : s = t := Option.some.inj h
      rw [steps_succ, hstep]
      rfl
  | succ n ih =>
      obtain ⟨r, hr, hrest⟩ := steps_succ_eq_some h
      rw [steps_succ, hr]
      exact ih hrest

/-- The last iteration of several. -/
theorem steps_succ_eq_some_last {n : Nat} {s u : σ} (h : steps f (n + 1) s = some u) :
    ∃ t, steps f n s = some t ∧ f t = some u := by
  induction n generalizing s with
  | zero =>
      obtain ⟨t, ht, hrest⟩ := steps_succ_eq_some h
      exact ⟨s, rfl, ht.trans (congrArg some (Option.some.inj hrest))⟩
  | succ n ih =>
      obtain ⟨r, hr, hrest⟩ := steps_succ_eq_some h
      obtain ⟨t, ht, hlast⟩ := ih hrest
      refine ⟨t, ?_, hlast⟩
      rw [steps_succ, hr]
      exact ht

/-- What every iteration keeps holds after any number of them. -/
theorem steps_invariant {I : σ → Prop} (hstep : ∀ s t, I s → f s = some t → I t) {n : Nat}
    {s t : σ} (hI : I s) (h : steps f n s = some t) : I t := by
  induction n generalizing s with
  | zero => exact Option.some.inj h ▸ hI
  | succ n ih =>
      obtain ⟨r, hr, hrest⟩ := steps_succ_eq_some h
      exact ih (hstep s r hI hr) hrest

/-- A measure that every iteration raises, and needs below a bound. -/
theorem steps_le_of_measure {I : σ → Prop} {m : σ → Nat} {b : Nat}
    (hI : ∀ s t, I s → f s = some t → I t)
    (hm : ∀ s t, I s → f s = some t → m s < m t ∧ m s < b) {n : Nat} {s t : σ} (hs : I s)
    (h : steps f n s = some t) : n ≤ b - m s := by
  induction n generalizing s with
  | zero => exact Nat.zero_le _
  | succ n ih =>
      obtain ⟨r, hr, hrest⟩ := steps_succ_eq_some h
      have hrec := ih (hI s r hs hr) hrest
      obtain ⟨hlt, hb⟩ := hm s r hs hr
      omega

/-- A loop that comes back to its state does not end. -/
theorem steps_stays {s : σ} (h : f s = some s) (n : Nat) : steps f n s = some s := by
  induction n with
  | zero => rfl
  | succ n ih => rw [steps_succ, h, Option.bind_some, ih]

/-- The loop is left in this state. -/
def Exits (f : σ → Option σ) (s t : σ) : Prop := (∃ n, steps f n s = some t) ∧ f t = none

/-- A loop that does not go on for so many iterations is left. -/
theorem exits_of_steps_eq_none {n : Nat} {s : σ} (h : steps f n s = none) : ∃ t, Exits f s t := by
  induction n generalizing s with
  | zero => cases h
  | succ n ih =>
      cases hs : f s with
      | none => exact ⟨s, ⟨0, rfl⟩, hs⟩
      | some r =>
          rw [steps_succ, hs] at h
          obtain ⟨t, ⟨k, hk⟩, ht⟩ := ih h
          refine ⟨t, ⟨k + 1, ?_⟩, ht⟩
          rw [steps_succ, hs]
          exact hk

/-- It is left in one state only. -/
theorem Exits.unique {s t t' : σ} (h : Exits f s t) (h' : Exits f s t') : t = t' := by
  obtain ⟨⟨n, hn⟩, ht⟩ := h
  obtain ⟨⟨n', hn'⟩, ht'⟩ := h'
  induction n generalizing s n' with
  | zero =>
      obtain rfl : s = t := Option.some.inj hn
      cases n' with
      | zero => exact Option.some.inj hn'
      | succ n' =>
          rw [steps_succ, ht] at hn'
          cases hn'
  | succ n ih =>
      obtain ⟨r, hr, hrest⟩ := steps_succ_eq_some hn
      cases n' with
      | zero =>
          obtain rfl : s = t' := Option.some.inj hn'
          rw [ht'] at hr
          cases hr
      | succ n' =>
          rw [steps_succ, hr] at hn'
          exact ih hrest n' hn'

theorem Exits.invariant {I : σ → Prop} (hstep : ∀ s t, I s → f s = some t → I t) {s t : σ}
    (hI : I s) (h : Exits f s t) : I t := by
  obtain ⟨n, hn⟩ := h.1
  exact steps_invariant hstep hI hn

/-- The iterations of a loop on a part of the state. -/
theorem map_steps {g : τ → Option τ} {p : σ → τ} (h : ∀ s, (f s).map p = g (p s)) (n : Nat)
    (s : σ) : (steps f n s).map p = steps g n (p s) := by
  induction n generalizing s with
  | zero => rfl
  | succ n ih =>
      rw [steps_succ, steps_succ, ← h s]
      cases f s with
      | none => rfl
      | some t => exact ih t

end LBoot.Lib
