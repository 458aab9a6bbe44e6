/-
  LBoot.Lib.Tiling

  Half-open intervals that tile an interval, in no particular order.

  A tiling is a list of nonempty intervals, pairwise apart, that cover
  `[lo, hi)` and nothing else.  Cutting one interval in two and joining two
  that touch keep it a tiling (`cut`, `join`); so does any reordering
  (`perm`), so the interval concerned may always be brought to the front.
-/

import Mathlib.Data.List.Pairwise
import Mathlib.Data.List.Perm.Basic
import Mathlib.Order.Defs.LinearOrder
import Mathlib.Order.Lattice

namespace LBoot.Lib

variable {α : Type*} [LinearOrder α]

/-- No point is in both. -/
def Apart (s t : α × α) : Prop := s.2 ≤ t.1 ∨ t.2 ≤ s.1

instance : Std.Symm (Apart : α × α → α × α → Prop) := ⟨fun _ _ h => h.elim Or.inr Or.inl⟩

/-- Intervals apart and not empty are not listed twice. -/
theorem nodup_of_apart {segs : List (α × α)} (hne : ∀ s ∈ segs, s.1 < s.2)
    (hap : segs.Pairwise Apart) : segs.Nodup := by
  refine hap.imp_of_mem fun {s t} hs _ hst heq => ?_
  subst heq
  exact hst.elim (fun hle => absurd (hne s hs) (not_lt_of_ge hle))
    fun hle => absurd (hne s hs) (not_lt_of_ge hle)

/-- The intervals tile `[lo, hi)`. -/
structure Tiles (lo hi : α) (segs : List (α × α)) : Prop where
  nonempty : ∀ s ∈ segs, s.1 < s.2
  apart : segs.Pairwise Apart
  cover : ∀ x, (lo ≤ x ∧ x < hi) ↔ ∃ s ∈ segs, s.1 ≤ x ∧ x < s.2

namespace Tiles

variable {lo hi a b c : α} {segs segs' : List (α × α)}

theorem single (h : lo < hi) : Tiles lo hi [(lo, hi)] where
  nonempty := by
    intro s hs
    obtain rfl := List.mem_singleton.mp hs
    exact h
  apart := List.pairwise_singleton _ _
  cover x := by simp only [List.mem_singleton, exists_eq_left]

theorem perm (h : Tiles lo hi segs) (hp : segs.Perm segs') : Tiles lo hi segs' where
  nonempty s hs := h.nonempty s (hp.mem_iff.mpr hs)
  apart := h.apart.perm hp fun hap => Std.Symm.symm _ _ hap
  cover x := by
    rw [h.cover]
    exact exists_congr fun s => and_congr_left fun _ => hp.mem_iff

/-- A tile lies in the interval. -/
theorem within (h : Tiles lo hi segs) {s : α × α} (hs : s ∈ segs) : lo ≤ s.1 ∧ s.2 ≤ hi := by
  have hne := h.nonempty s hs
  obtain ⟨hlo, hhi⟩ := (h.cover s.1).mpr ⟨s, hs, le_refl _, hne⟩
  refine ⟨hlo, le_of_not_gt fun hlt => ?_⟩
  -- otherwise `hi` itself would be covered
  exact lt_irrefl hi ((h.cover hi).mpr ⟨s, hs, le_of_lt hhi, hlt⟩).2

/-- Cut a tile in two. -/
theorem cut (h : Tiles lo hi ((a, c) :: segs)) (hab : a < b) (hbc : b < c) :
    Tiles lo hi ((a, b) :: (b, c) :: segs) where
  nonempty := by
    intro s hs
    rcases List.mem_cons.mp hs with rfl | hs
    · exact hab
    rcases List.mem_cons.mp hs with rfl | hs
    · exact hbc
    · exact h.nonempty s (List.mem_cons_of_mem _ hs)
  apart := by
    -- a tile apart from the whole is apart from both halves
    obtain ⟨hfirst, hrest⟩ := List.pairwise_cons.mp h.apart
    refine List.pairwise_cons.mpr ⟨fun t ht => ?_, List.pairwise_cons.mpr ⟨fun t ht => ?_, hrest⟩⟩
    · rcases List.mem_cons.mp ht with rfl | ht
      · exact Or.inl (le_refl b)
      · exact (hfirst t ht).imp (le_trans (le_of_lt hbc)) id
    · exact (hfirst t ht).imp id fun hle => le_trans hle (le_of_lt hab)
  cover x := by
    rw [h.cover]
    simp only [List.exists_mem_cons_iff]
    rw [← or_assoc]
    refine or_congr_left ⟨fun ⟨hax, hxc⟩ => ?_, ?_⟩
    · exact (lt_or_ge x b).imp (fun hxb => ⟨hax, hxb⟩) fun hbx => ⟨hbx, hxc⟩
    · rintro (⟨hax, hxb⟩ | ⟨hbx, hxc⟩)
      · exact ⟨hax, lt_trans hxb hbc⟩
      · exact ⟨le_trans (le_of_lt hab) hbx, hxc⟩

/-- Join two tiles that touch. -/
theorem join (h : Tiles lo hi ((a, b) :: (b, c) :: segs)) : Tiles lo hi ((a, c) :: segs) where
  nonempty := by
    intro s hs
    rcases List.mem_cons.mp hs with rfl | hs
    · exact lt_trans (h.nonempty (a, b) List.mem_cons_self)
        (h.nonempty (b, c) (List.mem_cons_of_mem _ List.mem_cons_self))
    · exact h.nonempty s (List.mem_cons_of_mem _ (List.mem_cons_of_mem _ hs))
  apart := by
    obtain ⟨hfirst, hrest⟩ := List.pairwise_cons.mp h.apart
    obtain ⟨hsecond, hrest⟩ := List.pairwise_cons.mp hrest
    refine List.pairwise_cons.mpr ⟨fun t ht => ?_, hrest⟩
    -- `t` cannot lie in between: the two tiles touch at `b`
    have hne := h.nonempty t (List.mem_cons_of_mem _ (List.mem_cons_of_mem _ ht))
    rcases hfirst t (List.mem_cons_of_mem _ ht) with hbt | hta
    · rcases hsecond t ht with hct | htb
      · exact Or.inl hct
      · exact absurd (lt_of_le_of_lt hbt hne) (not_lt_of_ge htb)
    · exact Or.inr hta
  cover x := by
    have hab := h.nonempty (a, b) List.mem_cons_self
    have hbc := h.nonempty (b, c) (List.mem_cons_of_mem _ List.mem_cons_self)
    rw [h.cover]
    simp only [List.exists_mem_cons_iff]
    rw [← or_assoc]
    refine or_congr_left ⟨?_, fun ⟨hax, hxc⟩ => ?_⟩
    · rintro (⟨hax, hxb⟩ | ⟨hbx, hxc⟩)
      · exact ⟨hax, lt_trans hxb hbc⟩
      · exact ⟨le_trans (le_of_lt hab) hbx, hxc⟩
    · exact (lt_or_ge x b).imp (fun hxb => ⟨hax, hxb⟩) fun hbx => ⟨hbx, hxc⟩

/-- Two tiles that start at the same point are the same. -/
theorem start_inj (h : Tiles lo hi segs) {s t : α × α} (hs : s ∈ segs) (ht : t ∈ segs)
    (heq : s.1 = t.1) : s = t := by
  by_contra hne
  have hap : Apart s t := h.apart.forall hs ht hne
  have hsne := h.nonempty s hs
  have htne := h.nonempty t ht
  rcases hap with hle | hle
  · exact absurd (lt_of_lt_of_le hsne hle) (by rw [heq]; exact lt_irrefl _)
  · exact absurd (lt_of_lt_of_le htne hle) (by rw [heq]; exact lt_irrefl _)

end Tiles
end LBoot.Lib
