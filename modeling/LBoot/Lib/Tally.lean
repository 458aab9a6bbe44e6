/-
  LBoot.Lib.Tally

  Counting along the runs of a machine.

  `tally f` adds up what `f` says of each step of a run.  Where every step
  balances what it takes in against what it gives out and what is held, the
  run does (`tally_balance`).
-/

import Mathlib.Algebra.Group.Nat.Defs
import LBoot.Lib.Machine

namespace LBoot.Lib.Machine

variable {σ ε : Type*} (M : Machine σ ε)

theorem run_append (s : σ) (es es' : List ε) :
    M.run s (es ++ es') = (M.run s es).bind fun t => M.run t es' := by
  induction es generalizing s with
  | nil => rfl
  | cons e es ih =>
      rw [List.cons_append, run_cons, run_cons, Option.bind_assoc]
      congr 1
      funext t
      exact ih t

/-- The sum of `f` over the steps of a run; `f` sees the state before the step
    and the event. -/
def tally (f : σ → ε → Nat) : σ → List ε → Nat
  | _, [] => 0
  | s, e :: es => f s e + match M.step s e with
    | none => 0
    | some t => tally f t es

variable {M}

@[simp] theorem tally_nil (f : σ → ε → Nat) (s : σ) : M.tally f s [] = 0 := rfl

theorem tally_cons (f : σ → ε → Nat) {s t : σ} {e : ε} (h : M.step s e = some t) (es : List ε) :
    M.tally f s (e :: es) = f s e + M.tally f t es := by
  rw [tally, h]

theorem tally_add (f g : σ → ε → Nat) {es : List ε} :
    ∀ {s : σ}, M.tally (fun s e => f s e + g s e) s es = M.tally f s es + M.tally g s es := by
  induction es with
  | nil => exact fun {_} => rfl
  | cons e es ih =>
      intro s
      rw [tally, tally, tally]
      cases M.step s e with
      | none => rfl
      | some t =>
          dsimp only
          rw [ih, Nat.add_add_add_comm]

/-- A count of the events alone. -/
theorem tally_count [DecidableEq ε] (e₀ : ε) {es : List ε} :
    ∀ {s u : σ}, M.run s es = some u →
      M.tally (fun _ e => if e = e₀ then 1 else 0) s es = es.count e₀ := by
  induction es with
  | nil => exact fun _ => rfl
  | cons e es ih =>
      intro s u hrun
      obtain ⟨t, ht, hrest⟩ := run_cons_eq_some hrun
      rw [tally_cons _ ht, ih hrest, List.count_cons, Nat.add_comm]
      congr 1
      by_cases he : e = e₀
      · rw [if_pos he, he, beq_self_eq_true, if_pos rfl]
      · rw [if_neg he, if_neg]
        simpa using he

/-- **Balance**: what every step keeps even, a run does. -/
theorem tally_balance (I : σ → Prop) (held : σ → Nat) {taken given : σ → ε → Nat}
    (hinv : ∀ s e t, I s → M.step s e = some t → I t)
    (hstep : ∀ s e t, I s → M.step s e = some t → held t + given s e = held s + taken s e)
    {es : List ε} :
    ∀ {s u : σ}, I s → M.run s es = some u →
      held u + M.tally given s es = held s + M.tally taken s es := by
  induction es with
  | nil =>
      intro s u _ hrun
      simp only [run_nil, Option.some.injEq] at hrun
      rw [hrun, tally_nil, tally_nil]
  | cons e es ih =>
      intro s u hI hrun
      obtain ⟨t, ht, hrest⟩ := run_cons_eq_some hrun
      have hone := hstep s e t hI ht
      have hmore := ih (hinv s e t hI ht) hrest
      rw [tally_cons _ ht, tally_cons _ ht]
      omega

end LBoot.Lib.Machine
