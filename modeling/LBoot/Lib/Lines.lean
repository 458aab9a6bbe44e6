/-
  LBoot.Lib.Lines

  Cutting a text into lines, at runs of separators.

  A text is its first line, the gap behind it and the rest, which does not
  start with a separator.  `linesWhile` takes lines from the front as long as
  a condition on what is left holds, and returns what is left then.  For
  anything that takes no notice of empty lines, the lines are those between
  single separators (`filterMap_splitOnP`).
-/

import Mathlib.Data.List.TakeWhile

namespace LBoot.Lib

variable {α : Type*} (sep : α → Bool)

/-- The first line. -/
def lineOf (text : List α) : List α := text.takeWhile fun b => !sep b

/-- The separators behind it. -/
def gapOf (text : List α) : List α := (text.dropWhile fun b => !sep b).takeWhile sep

/-- What is behind these. -/
def restOf (text : List α) : List α := (text.dropWhile fun b => !sep b).dropWhile sep

variable {sep} {text : List α} {b : α}

theorem line_gap_rest (sep : α → Bool) (text : List α) :
    lineOf sep text ++ (gapOf sep text ++ restOf sep text) = text := by
  rw [gapOf, restOf, List.takeWhile_append_dropWhile, lineOf, List.takeWhile_append_dropWhile]

theorem not_sep_of_mem_lineOf (h : b ∈ lineOf sep text) : sep b = false := by
  simpa using List.mem_takeWhile_imp h

theorem sep_of_mem_gapOf (h : b ∈ gapOf sep text) : sep b = true := List.mem_takeWhile_imp h

theorem mem_of_mem_lineOf (h : b ∈ lineOf sep text) : b ∈ text := by
  rw [← line_gap_rest sep text]
  exact List.mem_append_left _ h

theorem mem_of_mem_restOf (h : b ∈ restOf sep text) : b ∈ text := by
  rw [← line_gap_rest sep text]
  exact List.mem_append_right _ (List.mem_append_right _ h)

/-- The rest does not start with a separator. -/
theorem not_sep_head_restOf {rest : List α} (h : restOf sep text = b :: rest) : sep b = false := by
  have hhead := List.head?_dropWhile_not sep (text.dropWhile fun b => !sep b)
  rw [← restOf, h, List.head?_cons] at hhead
  simpa using hhead

/-- A text without separators is one line. -/
theorem lineOf_eq_self (h : ∀ b ∈ text, sep b = false) : lineOf sep text = text := by
  rw [lineOf, List.takeWhile_eq_self_iff]
  intro b hb
  rw [h b hb]
  rfl

/-- Where there is a separator, there is a gap. -/
theorem gapOf_ne_nil (hb : b ∈ text) (hsep : sep b = true) : gapOf sep text ≠ [] := by
  intro hgap
  have hsplit := line_gap_rest sep text
  rw [hgap, List.nil_append] at hsplit
  rw [← hsplit] at hb
  rcases List.mem_append.mp hb with hline | hrest
  · exact Bool.false_ne_true ((not_sep_of_mem_lineOf hline).symm.trans hsep)
  · -- the rest would begin where the line ends
    rw [gapOf] at hgap
    cases hdrop : text.dropWhile fun b => !sep b with
    | nil =>
        rw [restOf, hdrop] at hrest
        cases hrest
    | cons c more =>
        have hc := List.head?_dropWhile_not (fun b => !sep b) text
        rw [hdrop, List.head?_cons] at hc
        have hc : sep c = true := by simpa using hc
        rw [hdrop, List.takeWhile_cons_of_pos hc] at hgap
        cases hgap

theorem length_restOf_lt (h : text ≠ []) : (restOf sep text).length < text.length := by
  cases text with
  | nil => exact absurd rfl h
  | cons c text =>
      rw [restOf, List.length_cons, Nat.lt_succ_iff]
      cases hc : sep c with
      | true =>
          rw [List.dropWhile_cons_of_neg (by rw [hc]; exact Bool.false_ne_true),
            List.dropWhile_cons_of_pos hc]
          exact (List.dropWhile_sublist _).length_le
      | false =>
          rw [List.dropWhile_cons_of_pos (by rw [hc]; rfl)]
          exact Nat.le_trans (List.dropWhile_sublist _).length_le
            (List.dropWhile_sublist _).length_le

/-! ## Taking lines -/

/-- The lines taken while `go` holds of what is left, and what is left. -/
def linesWhile (sep : α → Bool) (go : List α → Bool) (text : List α) :
    List (List α) × List α :=
  if h : go text = true ∧ text ≠ [] then
    have : (restOf sep text).length < text.length := length_restOf_lt h.2
    let taken := linesWhile sep go (restOf sep text)
    (lineOf sep text :: taken.1, taken.2)
  else ([], text)
termination_by text.length

variable {go : List α → Bool}

theorem linesWhile_of_go (hgo : go text = true) (hne : text ≠ []) :
    linesWhile sep go text = (lineOf sep text :: (linesWhile sep go (restOf sep text)).1,
      (linesWhile sep go (restOf sep text)).2) := by
  rw [linesWhile, dif_pos ⟨hgo, hne⟩]

theorem linesWhile_of_not (h : go text = false) : linesWhile sep go text = ([], text) := by
  rw [linesWhile, dif_neg (fun hgo => Bool.false_ne_true (h.symm.trans hgo.1))]

/-- Induction on the lines taken. -/
theorem linesWhile_induct {P : List α → Prop} (sep : α → Bool) (go : List α → Bool)
    (htake : ∀ text, go text = true → text ≠ [] → P (restOf sep text) → P text)
    (hleft : ∀ text, go text = false ∨ text = [] → P text) (text : List α) : P text := by
  induction hn : text.length using Nat.strong_induction_on generalizing text with
  | _ n ih =>
      subst hn
      by_cases hne : text = []
      · exact hleft text (Or.inr hne)
      · cases hgo : go text with
        | false => exact hleft text (Or.inl hgo)
        | true => exact htake text hgo hne (ih _ (length_restOf_lt hne) _ rfl)

/-! ## Single separators -/

/-- No line has a separator in it. -/
theorem not_sep_of_mem_splitOnP {l : List α} (hl : l ∈ text.splitOnP sep) (hb : b ∈ l) :
    sep b = false := by
  induction text generalizing l with
  | nil =>
      rw [List.splitOnP_nil, List.mem_singleton] at hl
      rw [hl] at hb
      cases hb
  | cons c text ih =>
      rw [List.splitOnP_cons_eq_if_modifyHead] at hl
      split at hl
      · rcases List.mem_cons.mp hl with rfl | hl
        · cases hb
        · exact ih hl hb
      · next hc =>
        obtain ⟨first, rest, hsplit⟩ :=
          List.exists_cons_of_ne_nil (List.splitOnP_ne_nil sep text)
        rw [hsplit] at hl ih
        rcases List.mem_cons.mp hl with rfl | hl
        · rcases List.mem_cons.mp hb with rfl | hb
          · simpa using hc
          · exact ih List.mem_cons_self hb
        · exact ih (List.mem_cons_of_mem _ hl) hb

variable {β : Type*} {f : List α → Option β}

/-- Empty lines yield nothing. -/
theorem filterMap_splitOnP_gap (hf : f [] = none) {gap : List α} (hgap : ∀ b ∈ gap, sep b = true)
    (rest : List α) :
    ((gap ++ rest).splitOnP sep).filterMap f = (rest.splitOnP sep).filterMap f := by
  induction gap with
  | nil => rfl
  | cons b gap ih =>
      have hb := hgap b List.mem_cons_self
      have hcut := List.splitOnP_append_cons (p := sep) [] (gap ++ rest) hb
      rw [List.nil_append] at hcut
      rw [List.cons_append, hcut, List.splitOnP_nil, List.singleton_append,
        List.filterMap_cons_none hf]
      exact ih fun c hc => hgap c (List.mem_cons_of_mem _ hc)

/-- The first line, and those of the rest. -/
theorem filterMap_splitOnP (hf : f [] = none) (text : List α) :
    (text.splitOnP sep).filterMap f
      = (f (lineOf sep text)).toList ++ ((restOf sep text).splitOnP sep).filterMap f := by
  have hline : (lineOf sep text).splitOnP sep = [lineOf sep text] :=
    List.splitOnP_eq_singleton fun b hb => not_sep_of_mem_lineOf hb
  have hsplit := line_gap_rest sep text
  have hsingle : [lineOf sep text].filterMap f = (f (lineOf sep text)).toList := by
    cases hv : f (lineOf sep text) with
    | none => rw [List.filterMap_cons_none hv]; rfl
    | some v => rw [List.filterMap_cons_some hv]; rfl
  cases hgap : gapOf sep text with
  | nil =>
      -- without a gap there is no rest either
      have hrest : restOf sep text = [] := by
        by_contra hne
        obtain ⟨b, rest, hrest⟩ := List.exists_cons_of_ne_nil hne
        have hnone : ∀ b ∈ text, sep b = false := by
          intro b hb
          by_contra hsep
          exact gapOf_ne_nil hb (by simpa using hsep) hgap
        have hself := lineOf_eq_self hnone
        rw [hself, hgap, List.nil_append, hrest] at hsplit
        exact absurd (congrArg List.length hsplit) (by simp)
      rw [hgap, hrest, List.append_nil, List.append_nil] at hsplit
      rw [hrest, List.splitOnP_nil, List.filterMap_cons_none hf, List.filterMap_nil,
        List.append_nil, ← hsingle, ← hline, hsplit]
  | cons b gap =>
      have hb : sep b = true := sep_of_mem_gapOf (by rw [hgap]; exact List.mem_cons_self)
      rw [hgap, List.cons_append] at hsplit
      have hcut := List.splitOnP_append_cons (p := sep) (lineOf sep text)
        (gap ++ restOf sep text) hb
      rw [hsplit, hline] at hcut
      rw [hcut, List.filterMap_append, hsingle]
      congr 1
      apply filterMap_splitOnP_gap hf
      intro c hc
      exact sep_of_mem_gapOf (by rw [hgap]; exact List.mem_cons_of_mem _ hc)

end LBoot.Lib
