/-
  LBoot.Lib.Machine

  Partial transition machines and their finite runs.

  A machine takes one event at a time; `none` means that the event is not
  enabled in that state (or that the program stops there for good).  A run is
  a list of events.  The only induction on runs is done here: an invariant
  kept by every step is kept by every run (`run_invariant`), also when it is
  only kept by the steps that satisfy a condition on the state before the
  step (`run_invariant_along`).
-/

import Mathlib.Data.List.Basic

namespace LBoot.Lib

/-- A partial transition machine: states `σ`, events `ε`. -/
structure Machine (σ ε : Type*) where
  /-- The state after one event, or `none` where the event is not enabled. -/
  step : σ → ε → Option σ

namespace Machine

variable {σ ε : Type*}

/-- Take the events of a list one after the other. -/
def run (M : Machine σ ε) : σ → List ε → Option σ
  | s, [] => some s
  | s, e :: es => (M.step s e).bind fun t => run M t es

/-- Every step of a run satisfies `G`, a condition on the state before the
    step and on the event taken. -/
def Along (M : Machine σ ε) (G : σ → ε → Prop) : σ → List ε → Prop
  | _, [] => True
  | s, e :: es => G s e ∧ ∀ t, M.step s e = some t → Along M G t es

@[simp] theorem run_nil (M : Machine σ ε) (s : σ) : M.run s [] = some s := rfl

@[simp] theorem run_cons (M : Machine σ ε) (s : σ) (e : ε) (es : List ε) :
    M.run s (e :: es) = (M.step s e).bind fun t => M.run t es := rfl

/-- The first step of a nonempty run. -/
theorem run_cons_eq_some {M : Machine σ ε} {s u : σ} {e : ε} {es : List ε}
    (h : M.run s (e :: es) = some u) :
    ∃ t, M.step s e = some t ∧ M.run t es = some u := by
  simpa [Option.bind_eq_some_iff] using h

/-- A condition along a run holds along its beginnings. -/
theorem Along.initial {M : Machine σ ε} {G : σ → ε → Prop} {es' : List ε} :
    ∀ {s : σ} {es : List ε}, M.Along G s es → es' <+: es → M.Along G s es' := by
  induction es' with
  | nil => exact fun _ _ => trivial
  | cons e es' ih =>
      intro s es hG hpre
      cases es with
      | nil => exact absurd (List.prefix_nil.mp hpre) (List.cons_ne_nil e es')
      | cons e₀ es =>
          obtain ⟨rfl, hrest⟩ := List.cons_prefix_cons.mp hpre
          exact ⟨hG.1, fun t ht => ih (hG.2 t ht) hrest⟩

theorem Along.and {M : Machine σ ε} {G H : σ → ε → Prop} {es : List ε} :
    ∀ {s : σ}, M.Along G s es → M.Along H s es → M.Along (fun s e => G s e ∧ H s e) s es := by
  induction es with
  | nil => exact fun _ _ => trivial
  | cons e es ih => exact fun hG hH => ⟨⟨hG.1, hH.1⟩, fun t ht => ih (hG.2 t ht) (hH.2 t ht)⟩

/-- A condition on the events alone. -/
theorem along_of_forall {M : Machine σ ε} {P : ε → Prop} {es : List ε} (h : ∀ e ∈ es, P e) :
    ∀ s : σ, M.Along (fun _ => P) s es := by
  induction es with
  | nil => exact fun _ => trivial
  | cons e es ih =>
      obtain ⟨hhead, htail⟩ := List.forall_mem_cons.mp h
      exact fun _ => ⟨hhead, fun t _ => ih htail t⟩

/-- An invariant kept by the steps that satisfy `G` holds after every run all
    of whose steps satisfy `G`. -/
theorem run_invariant_along {M : Machine σ ε} {G : σ → ε → Prop} {I : σ → Prop}
    (hstep : ∀ s e t, I s → G s e → M.step s e = some t → I t) :
    ∀ {es : List ε} {s u : σ}, I s → M.Along G s es → M.run s es = some u → I u := by
  intro es
  induction es with
  | nil =>
      intro s u hI _ hrun
      simp only [run_nil, Option.some.injEq] at hrun
      exact hrun ▸ hI
  | cons e es ih =>
      intro s u hI hG hrun
      obtain ⟨t, ht, hrest⟩ := run_cons_eq_some hrun
      exact ih (hstep s e t hI hG.1 ht) (hG.2 t ht) hrest

/-- Where the steps that satisfy `G` keep `I`, `I` entails `P`, and a step
    that violates `G` leads straight out of `P`, the runs along `G` are
    exactly those that stay in `P`. -/
theorem along_iff_forall_initial {M : Machine σ ε} {G : σ → ε → Prop} {I P : σ → Prop}
    (hstep : ∀ s e t, I s → G s e → M.step s e = some t → I t) (hP : ∀ s, I s → P s)
    (hbad : ∀ s e, I s → ¬ G s e → ∃ t, M.step s e = some t ∧ ¬ P t) :
    ∀ {es : List ε} {s : σ}, I s →
      (M.Along G s es ↔ ∀ es' u, es' <+: es → M.run s es' = some u → P u) := by
  intro es s hI
  refine ⟨fun hG es' u hpre hrun => ?_, fun hall => ?_⟩
  · exact hP u (run_invariant_along hstep hI (hG.initial hpre) hrun)
  · induction es generalizing s with
    | nil => exact trivial
    | cons e es ih =>
        have hGe : G s e := by
          by_contra hn
          obtain ⟨t, ht, hnP⟩ := hbad s e hI hn
          exact hnP (hall [e] t (List.prefix_append [e] es) (by rw [run_cons, ht]; rfl))
        refine ⟨hGe, fun t ht => ih (hstep s e t hI hGe ht) fun es' u hpre hrun => ?_⟩
        exact hall (e :: es') u (List.cons_prefix_cons.mpr ⟨rfl, hpre⟩)
          (by rw [run_cons, ht]; exact hrun)

/-- An invariant kept by every step holds after every run. -/
theorem run_invariant {M : Machine σ ε} {I : σ → Prop}
    (hstep : ∀ s e t, I s → M.step s e = some t → I t)
    {es : List ε} {s u : σ} (hI : I s) (hrun : M.run s es = some u) : I u := by
  induction es generalizing s with
  | nil =>
      simp only [run_nil, Option.some.injEq] at hrun
      exact hrun ▸ hI
  | cons e es ih =>
      obtain ⟨t, ht, hrest⟩ := run_cons_eq_some hrun
      exact ih (hstep s e t hI ht) hrest

/-- A decidable condition can be checked along a run. -/
instance decidableAlong (M : Machine σ ε) (G : σ → ε → Prop) [∀ s e, Decidable (G s e)] :
    ∀ (s : σ) (es : List ε), Decidable (M.Along G s es)
  | _, [] => isTrue trivial
  | s, e :: es =>
      match h : M.step s e with
      | none => decidable_of_iff (G s e) (by simp [Along, h])
      | some t =>
          have := decidableAlong M G t es
          decidable_of_iff (G s e ∧ M.Along G t es) (by simp [Along, h])

end Machine
end LBoot.Lib
