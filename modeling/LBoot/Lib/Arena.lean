/-
  LBoot.Lib.Arena

  An interval divided into areas that are free or taken.

  This is what an allocator is for, whatever table it keeps: the areas tile
  the arena, and those that are taken are the ones somebody holds.  The
  operations cut a free area, join two free areas that touch, take a free
  area and release a taken one; each keeps the arena intact.
-/

import LBoot.Lib.Tiling

namespace LBoot.Lib

variable {α : Type*} [LinearOrder α]

/-- The areas, each with whether it is taken, tile `[lo, hi)`; the taken ones
    are those of the list. -/
structure Arena (lo hi : α) (taken : List (α × α)) (areas : List (Bool × (α × α))) : Prop where
  tiles : Tiles lo hi (areas.map Prod.snd)
  held : ((areas.filter Prod.fst).map Prod.snd).Perm taken

/-- A free area, if there is room for one. -/
def freePart (a b : α) : List (Bool × (α × α)) := if a < b then [(false, (a, b))] else []

namespace Arena

variable {lo hi a b c : α} {s : α × α} {taken taken' : List (α × α)}
  {areas areas' : List (Bool × (α × α))}

theorem perm (h : Arena lo hi taken areas) (ha : areas.Perm areas') (ht : taken.Perm taken') :
    Arena lo hi taken' areas' where
  tiles := h.tiles.perm (ha.map Prod.snd)
  held := ((ha.symm.filter Prod.fst).map Prod.snd).trans (h.held.trans ht)

/-- All of it free. -/
theorem single (h : lo < hi) : Arena lo hi [] [(false, (lo, hi))] where
  tiles := Tiles.single h
  held := List.Perm.refl _

theorem cut (h : Arena lo hi taken ((false, (a, c)) :: areas)) (hab : a < b) (hbc : b < c) :
    Arena lo hi taken ((false, (a, b)) :: (false, (b, c)) :: areas) where
  tiles := h.tiles.cut hab hbc
  held := h.held

theorem join (h : Arena lo hi taken ((false, (a, b)) :: (false, (b, c)) :: areas)) :
    Arena lo hi taken ((false, (a, c)) :: areas) where
  tiles := h.tiles.join
  held := h.held

theorem take (h : Arena lo hi taken ((false, s) :: areas)) :
    Arena lo hi (s :: taken) ((true, s) :: areas) where
  tiles := h.tiles
  held := h.held.cons s

theorem release (h : Arena lo hi (s :: taken) ((true, s) :: areas)) :
    Arena lo hi taken ((false, s) :: areas) where
  tiles := h.tiles
  held := h.held.cons_inv

/-- Take a part of a free area: what is left of it before and behind stays
    free. -/
theorem carve {d : α} (h : Arena lo hi taken ((false, (a, d)) :: areas)) (hab : a ≤ b)
    (hbc : b < c) (hcd : c ≤ d) :
    Arena lo hi ((b, c) :: taken)
      ((true, (b, c)) :: (freePart c d ++ (freePart a b ++ areas))) := by
  have hbd : b < d := lt_of_lt_of_le hbc hcd
  -- first what is before, then what is behind
  have hbefore : Arena lo hi taken ((false, (b, d)) :: (freePart a b ++ areas)) := by
    rw [freePart]
    split
    · next hlt => exact (h.cut hlt hbd).perm (List.Perm.swap _ _ _) (List.Perm.refl _)
    · next hno => rwa [← le_antisymm hab (le_of_not_gt hno)]
  have hbehind : Arena lo hi taken
      ((false, (b, c)) :: (freePart c d ++ (freePart a b ++ areas))) := by
    rw [freePart]
    split
    · next hlt => exact hbefore.cut hbc hlt
    · next hno => rwa [le_antisymm hcd (le_of_not_gt hno)]
  exact hbehind.take

/-- Two areas that start at the same point are the same. -/
theorem start_inj (h : Arena lo hi taken areas) {x y : Bool × (α × α)} (hx : x ∈ areas)
    (hy : y ∈ areas) (heq : x.2.1 = y.2.1) : x.2 = y.2 :=
  h.tiles.start_inj (List.mem_map_of_mem hx) (List.mem_map_of_mem hy) heq

theorem mem_of_taken (h : Arena lo hi taken areas) (hs : s ∈ taken) : (true, s) ∈ areas := by
  obtain ⟨x, hx, rfl⟩ := List.mem_map.mp (h.held.mem_iff.mpr hs)
  obtain ⟨hmem, hused⟩ := List.mem_filter.mp hx
  rwa [← hused]

/-- What is taken is taken once. -/
theorem taken_apart (h : Arena lo hi taken areas) : taken.Pairwise Apart := by
  have hsub : ((areas.filter Prod.fst).map Prod.snd).Sublist (areas.map Prod.snd) :=
    List.filter_sublist.map Prod.snd
  exact (h.tiles.apart.sublist hsub).perm h.held fun hap => Std.Symm.symm _ _ hap

end Arena
end LBoot.Lib
