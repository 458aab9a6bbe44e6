/-
  LBoot.Lib.HeapLog

  The live blocks of a heap, by the history of its operations.

  An allocator may decide by everything that has happened so far; all that is
  asked of it is that a block it hands out is not a live one.  A free is right
  if its block is live, so a history without a wrong one frees no block twice.
-/

import Mathlib.Data.Finset.Basic

namespace LBoot.Lib

/-- What is done to a heap of blocks. -/
inductive HeapOp (β : Type*) where
  | alloc (b : β)
  | free (b : β)

/-- A history, the last operation first. -/
abbrev HeapLog (β : Type*) := List (HeapOp β)

variable {β : Type*} [DecidableEq β]

/-- The live blocks behind a history, from those live before it. -/
def liveBlocks (init : Finset β) : HeapLog β → Finset β
  | [] => init
  | .alloc b :: h => insert b (liveBlocks init h)
  | .free b :: h => (liveBlocks init h).erase b

/-- Every free is of a live block. -/
def FreesLive (init : Finset β) : HeapLog β → Prop
  | [] => True
  | .alloc _ :: h => FreesLive init h
  | .free b :: h => b ∈ liveBlocks init h ∧ FreesLive init h

/-- An allocator on a heap with these blocks live at the start; `none` if it
    does not return. -/
structure Allocator (init : Finset β) where
  pick : HeapLog β → Nat → Option β
  fresh : ∀ h n b, pick h n = some b → b ∉ liveBlocks init h

namespace Allocator

variable {init : Finset β}

def alloc (A : Allocator init) (h : HeapLog β) (n : Nat) : Option (β × HeapLog β) :=
  (A.pick h n).map fun b => (b, .alloc b :: h)

theorem alloc_some {A : Allocator init} {h h' : HeapLog β} {n : Nat} {b : β}
    (halloc : A.alloc h n = some (b, h')) : b ∉ liveBlocks init h ∧ h' = .alloc b :: h := by
  rw [alloc, Option.map_eq_some_iff] at halloc
  obtain ⟨c, hpick, heq⟩ := halloc
  obtain ⟨rfl, rfl⟩ := Prod.mk.inj heq
  exact ⟨A.fresh h n c hpick, rfl⟩

end Allocator

section Live

variable {init : Finset β} {h : HeapLog β}

@[simp] theorem liveBlocks_alloc (b : β) :
    liveBlocks init (.alloc b :: h) = insert b (liveBlocks init h) := rfl

@[simp] theorem liveBlocks_free (b : β) :
    liveBlocks init (.free b :: h) = (liveBlocks init h).erase b := rfl

@[simp] theorem freesLive_alloc (b : β) : FreesLive init (.alloc b :: h) ↔ FreesLive init h :=
  Iff.rfl

@[simp] theorem freesLive_free (b : β) :
    FreesLive init (.free b :: h) ↔ b ∈ liveBlocks init h ∧ FreesLive init h := Iff.rfl

end Live

end LBoot.Lib
