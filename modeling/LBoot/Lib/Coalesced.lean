/-
  LBoot.Lib.Coalesced

  Arenas whose free areas are as large as they can be.

  An arena is coalesced if no two free areas touch.  Such an arena leaves
  nothing to choose: its free areas are the gaps between what is taken, the
  intervals that no taken area meets and that cannot be made larger
  (`free_iff_gap`).  So what is taken determines what is free, in whatever
  order it came to be taken.
-/

import LBoot.Lib.Arena
import Mathlib.Tactic.Order

namespace LBoot.Lib

variable {α : Type*}

/-- No free area starts where another one stops. -/
def Coalesced (areas : List (Bool × (α × α))) : Prop :=
  ∀ x ∈ areas, ∀ y ∈ areas, x.1 = false → y.1 = false → x.2.2 ≠ y.2.1

theorem Coalesced.perm {areas areas' : List (Bool × (α × α))} (h : Coalesced areas)
    (hp : areas.Perm areas') : Coalesced areas' :=
  fun x hx y hy => h x (hp.mem_iff.mpr hx) y (hp.mem_iff.mpr hy)

variable [LinearOrder α]

/-- A part of `[lo, hi)`, not empty, without a point of a taken area. -/
structure Clear (lo hi : α) (taken : List (α × α)) (s : α × α) : Prop where
  nonempty : s.1 < s.2
  within : lo ≤ s.1 ∧ s.2 ≤ hi
  untaken : ∀ x, s.1 ≤ x → x < s.2 → ¬ ∃ t ∈ taken, t.1 ≤ x ∧ x < t.2

/-- A clear part that is not inside a larger one. -/
structure Gap (lo hi : α) (taken : List (α × α)) (s : α × α) : Prop where
  clear : Clear lo hi taken s
  maximal : ∀ t, Clear lo hi taken t → t.1 ≤ s.1 → s.2 ≤ t.2 → t = s

variable {lo hi : α} {taken taken' : List (α × α)} {areas : List (Bool × (α × α))} {s t : α × α}

/-- Only which areas are taken matters. -/
theorem Clear.congr (h : Clear lo hi taken s) (hmem : ∀ a, a ∈ taken' → a ∈ taken) :
    Clear lo hi taken' s where
  nonempty := h.nonempty
  within := h.within
  untaken := fun x hlo hhi ⟨a, ha, hin⟩ => h.untaken x hlo hhi ⟨a, hmem a ha, hin⟩

theorem gap_congr (hmem : ∀ a, a ∈ taken ↔ a ∈ taken') :
    Gap lo hi taken s ↔ Gap lo hi taken' s := by
  constructor
  · intro h
    exact ⟨h.clear.congr fun a => (hmem a).mpr,
      fun t ht => h.maximal t (ht.congr fun a => (hmem a).mp)⟩
  · intro h
    exact ⟨h.clear.congr fun a => (hmem a).mp,
      fun t ht => h.maximal t (ht.congr fun a => (hmem a).mpr)⟩

namespace Arena

/-- Two areas that have a point in common are the same, and so are their
    flags. -/
theorem eq_of_common (h : Arena lo hi taken areas) {x y : Bool × (α × α)} (hx : x ∈ areas)
    (hy : y ∈ areas) {p : α} (hpx : x.2.1 ≤ p ∧ p < x.2.2) (hpy : y.2.1 ≤ p ∧ p < y.2.2) :
    x = y := by
  by_contra hne
  have hapart : areas.Pairwise fun a b => Apart a.2 b.2 := List.pairwise_map.mp h.tiles.apart
  have hsymm : Std.Symm fun a b : Bool × (α × α) => Apart a.2 b.2 :=
    ⟨fun _ _ hab => Std.Symm.symm _ _ hab⟩
  rcases hapart.forall hx hy hne with hle | hle
  · exact absurd (lt_of_lt_of_le hpx.2 (le_trans hle hpy.1)) (lt_irrefl p)
  · exact absurd (lt_of_lt_of_le hpy.2 (le_trans hle hpx.1)) (lt_irrefl p)

/-- Every point of the arena lies in an area. -/
theorem exists_area (h : Arena lo hi taken areas) {p : α} (hp : lo ≤ p ∧ p < hi) :
    ∃ x ∈ areas, x.2.1 ≤ p ∧ p < x.2.2 := by
  obtain ⟨s, hs, hin⟩ := (h.tiles.cover p).mp hp
  obtain ⟨x, hx, rfl⟩ := List.mem_map.mp hs
  exact ⟨x, hx, hin⟩

/-- A point outside of what is taken lies in a free area. -/
theorem exists_free (h : Arena lo hi taken areas) {p : α} (hp : lo ≤ p ∧ p < hi)
    (huntaken : ¬ ∃ t ∈ taken, t.1 ≤ p ∧ p < t.2) :
    ∃ s, (false, s) ∈ areas ∧ s.1 ≤ p ∧ p < s.2 := by
  obtain ⟨⟨used, s⟩, hx, hin⟩ := h.exists_area hp
  cases used with
  | false => exact ⟨s, hx, hin⟩
  | true =>
      refine absurd ⟨s, ?_, hin⟩ huntaken
      exact h.held.mem_iff.mp (List.mem_map.mpr ⟨(true, s), List.mem_filter.mpr ⟨hx, rfl⟩, rfl⟩)

/-- A free area is clear. -/
theorem clear_of_free (h : Arena lo hi taken areas) (hs : (false, s) ∈ areas) :
    Clear lo hi taken s where
  nonempty := h.tiles.nonempty s (List.mem_map_of_mem hs)
  within := h.tiles.within (List.mem_map_of_mem hs)
  untaken := by
    rintro x hlo hhi ⟨t, ht, hin⟩
    have heq := h.eq_of_common hs (h.mem_of_taken ht) ⟨hlo, hhi⟩ hin
    exact absurd (congrArg Prod.fst heq) Bool.false_ne_true

/-- A clear part lies in one free area: where that one stops another one would
    have to start. -/
theorem clear_inside_free (h : Arena lo hi taken areas) (hc : Coalesced areas)
    (ht : Clear lo hi taken t) : ∃ s, (false, s) ∈ areas ∧ s.1 ≤ t.1 ∧ t.2 ≤ s.2 := by
  obtain ⟨s, hs, hstart, hstop⟩ := h.exists_free
    ⟨ht.within.1, lt_of_lt_of_le ht.nonempty ht.within.2⟩
    (ht.untaken t.1 (le_refl _) ht.nonempty)
  refine ⟨s, hs, hstart, le_of_not_gt fun hlt => ?_⟩
  obtain ⟨f, hf, hfstart, hfstop⟩ := h.exists_free
    ⟨le_trans ht.within.1 (le_of_lt hstop), lt_of_lt_of_le hlt ht.within.2⟩
    (ht.untaken s.2 (le_of_lt hstop) hlt)
  rcases lt_or_eq_of_le hfstart with hbefore | htouch
  · -- `f` would reach into `s`
    have hmax : max s.1 f.1 < s.2 := max_lt (lt_of_le_of_lt hstart hstop) hbefore
    have heq := h.eq_of_common hs hf ⟨le_max_left _ _, hmax⟩
      ⟨le_max_right _ _, lt_trans hmax hfstop⟩
    obtain rfl := (Prod.mk.inj heq).2
    exact lt_irrefl _ hfstop
  · exact hc _ hs _ hf rfl rfl htouch.symm

/-- What is taken from a free area stands between the parts that are left. -/
theorem carve_coalesced {a b c d : α} (h : Arena lo hi taken ((false, (a, d)) :: areas))
    (hc : Coalesced ((false, (a, d)) :: areas)) (hab : a ≤ b) (hbc : b < c) (hcd : c ≤ d) :
    Coalesced ((true, (b, c)) :: (freePart c d ++ (freePart a b ++ areas))) := by
  have hcarved := h.carve hab hbc hcd
  -- an area that stops or starts at `(b, c)` is a part, or `(b, c)` would not be apart
  have hmem : ∀ x ∈ (true, (b, c)) :: (freePart c d ++ (freePart a b ++ areas)), x.1 = false →
      x ∈ areas ∨ x = (false, (a, b)) ∧ a < b ∨ x = (false, (c, d)) ∧ c < d := by
    intro x hx hfree
    rcases List.mem_cons.mp hx with rfl | hx
    · cases hfree
    rcases List.mem_append.mp hx with hx | hx
    · rw [freePart] at hx
      split at hx
      · next hlt => exact Or.inr (Or.inr ⟨List.mem_singleton.mp hx, hlt⟩)
      · cases hx
    rcases List.mem_append.mp hx with hx | hx
    · rw [freePart] at hx
      split at hx
      · next hlt => exact Or.inr (Or.inl ⟨List.mem_singleton.mp hx, hlt⟩)
      · cases hx
    · exact Or.inl hx
  intro x hx y hy hxfree hyfree htouch
  have hxne := hcarved.tiles.nonempty x.2 (List.mem_map_of_mem hx)
  have hyne := hcarved.tiles.nonempty y.2 (List.mem_map_of_mem hy)
  have hapart : ∀ z ∈ areas, z.2.2 ≤ a ∨ d ≤ z.2.1 := by
    intro z hz
    have hz' := (List.pairwise_cons.mp h.tiles.apart).1 z.2 (List.mem_map_of_mem hz)
    exact hz'.symm
  have hold : (false, (a, d)) ∈ (false, (a, d)) :: areas := List.mem_cons_self
  rcases hmem x hx hxfree with hxa | ⟨rfl, -⟩ | ⟨rfl, -⟩
  · rcases hmem y hy hyfree with hya | ⟨rfl, -⟩ | ⟨rfl, -⟩
    · exact hc x (List.mem_cons_of_mem _ hxa) y (List.mem_cons_of_mem _ hya) hxfree hyfree htouch
    · exact hc x (List.mem_cons_of_mem _ hxa) _ hold hxfree rfl htouch
    · dsimp only at htouch
      rcases hapart x hxa with hle | hle
      · order
      · order
  · rcases hmem y hy hyfree with hya | ⟨rfl, -⟩ | ⟨rfl, -⟩
    · dsimp only at htouch
      rcases hapart y hya with hle | hle
      · order
      · order
    · dsimp only at *
      order
    · dsimp only at *
      order
  · rcases hmem y hy hyfree with hya | ⟨rfl, -⟩ | ⟨rfl, -⟩
    · exact hc _ hold y (List.mem_cons_of_mem _ hya) rfl hyfree htouch
    · dsimp only at *
      order
    · dsimp only at *
      order

/-- The free areas are the gaps. -/
theorem free_iff_gap (h : Arena lo hi taken areas) (hc : Coalesced areas) :
    (false, s) ∈ areas ↔ Gap lo hi taken s := by
  constructor
  · intro hs
    have hne := h.tiles.nonempty s (List.mem_map_of_mem hs)
    refine ⟨h.clear_of_free hs, fun t ht hstart hstop => ?_⟩
    obtain ⟨f, hf, hfstart, hfstop⟩ := h.clear_inside_free hc ht
    -- `f` is around `t`, which is around `s`
    have heq := h.eq_of_common hs hf ⟨le_refl _, hne⟩
      ⟨le_trans hfstart hstart, lt_of_lt_of_le hne (le_trans hstop hfstop)⟩
    obtain rfl := (Prod.mk.inj heq).2
    exact Prod.ext (le_antisymm hstart hfstart) (le_antisymm hfstop hstop)
  · intro hgap
    obtain ⟨f, hf, hfstart, hfstop⟩ := h.clear_inside_free hc hgap.clear
    rwa [← hgap.maximal f (h.clear_of_free hf) hfstart hfstop]

end Arena
end LBoot.Lib
