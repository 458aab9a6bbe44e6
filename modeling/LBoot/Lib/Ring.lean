/-
  LBoot.Lib.Ring

  Ring buffers over an arbitrary element type: a list of cells, the index of
  the oldest element and the index of the next free cell.  One cell always
  stays free, so that equal indices mean an empty buffer.

  Indices wrap by comparison and subtraction (`index`, `advance`), which is
  what keeps the arithmetic linear.  `Holds` says which queue the cells
  between the two indices represent; `Holds.push` and `Holds.pop` are the
  rules of the two operations, `Holds.length_of_le` and `Holds.length_of_lt`
  recover the length of the queue from the indices on each side of the wrap.
-/

import Mathlib.Algebra.Group.Nat.Defs
import Mathlib.Data.List.Basic

namespace LBoot.Lib.Ring

variable {α : Type*}

/-- The cell `i` places after `head` in a ring of `size` cells. -/
def index (size head i : Nat) : Nat :=
  if head + i < size then head + i else head + i - size

/-- The cell after `i` in a ring of `size` cells. -/
def advance (size i : Nat) : Nat :=
  if i + 1 < size then i + 1 else 0

theorem index_lt {size head i : Nat} (hh : head < size) (hi : i < size) :
    index size head i < size := by
  unfold index
  split <;> omega

theorem index_zero {size head : Nat} (hh : head < size) : index size head 0 = head := by
  simp [index, hh]

theorem advance_lt {size i : Nat} (hi : i < size) : advance size i < size := by
  unfold advance
  split <;> omega

/-- Distinct places in the ring are distinct cells. -/
theorem index_inj {size head i j : Nat} (hi : i < size) (hj : j < size)
    (h : index size head i = index size head j) : i = j := by
  unfold index at h
  split at h <;> split at h <;> omega

theorem advance_index {size head i : Nat} (hh : head < size) (hi : i < size) :
    advance size (index size head i) = index size head (i + 1) := by
  unfold advance index
  split <;> split <;> split <;> omega

theorem index_advance {size head i : Nat} (hh : head < size) (hi : i + 1 < size) :
    index size (advance size head) i = index size head (i + 1) := by
  unfold advance index
  split <;> split <;> split <;> omega

/-- The cells from `head` up to `tail` hold the queue `q`, oldest first. -/
structure Holds (cells : List α) (head tail : Nat) (q : List α) : Prop where
  /-- The oldest element's cell exists. -/
  head_lt : head < cells.length
  /-- One cell stays free. -/
  fits : q.length < cells.length
  /-- The next free cell follows the newest element. -/
  tail_eq : tail = index cells.length head q.length
  /-- Each element stands in its cell. -/
  cell : ∀ (i : Nat) (hi : i < q.length), cells[index cells.length head i]? = some q[i]

namespace Holds

variable {cells : List α} {head tail : Nat} {q : List α}

theorem tail_lt (h : Holds cells head tail q) : tail < cells.length :=
  h.tail_eq ▸ index_lt h.head_lt h.fits

/-- Any cells hold the empty queue between equal indices. -/
theorem empty (hh : head < cells.length) : Holds cells head head ([] : List α) where
  head_lt := hh
  fits := by simp; omega
  tail_eq := (index_zero hh).symm
  cell := by simp

/-- Before the wrap the length is the difference of the indices. -/
theorem length_of_le (h : Holds cells head tail q) (hle : head ≤ tail) :
    q.length = tail - head := by
  have ht := h.tail_eq
  have hh := h.head_lt
  have hf := h.fits
  unfold index at ht
  split at ht <;> omega

/-- After the wrap it is the ring size less the gap. -/
theorem length_of_lt (h : Holds cells head tail q) (hlt : tail < head) :
    q.length = cells.length - (head - tail) := by
  have ht := h.tail_eq
  have hh := h.head_lt
  unfold index at ht
  split at ht <;> omega

/-- Storing into the free cell appends to the queue. -/
theorem push (h : Holds cells head tail q) (hroom : q.length + 1 < cells.length) (x : α) :
    Holds (cells.set tail x) head (advance cells.length tail) (q ++ [x]) where
  head_lt := by simpa using h.head_lt
  fits := by simpa using hroom
  tail_eq := by
    rw [h.tail_eq, List.length_set, advance_index h.head_lt h.fits]
    simp
  cell := by
    intro i hi
    rw [List.length_append, List.length_singleton] at hi
    rw [List.length_set]
    by_cases hlast : i = q.length
    · subst hlast
      rw [← h.tail_eq, List.getElem?_set_self h.tail_lt]
      simp
    · have hold : i < q.length := by omega
      have hne : tail ≠ index cells.length head i := by
        intro heq
        rw [h.tail_eq] at heq
        exact hlast (index_inj h.fits (by omega) heq).symm
      rw [List.getElem?_set_ne hne, h.cell i hold, List.getElem_append_left hold]

/-- The cell at `head` holds the oldest element, and moving `head` past it
    removes it from the queue. -/
theorem pop {x : α} (h : Holds cells head tail (x :: q)) :
    cells[head]? = some x ∧ Holds cells (advance cells.length head) tail q := by
  have hfits : q.length + 1 < cells.length := by simpa using h.fits
  refine ⟨?_, advance_lt h.head_lt, by omega, ?_, ?_⟩
  · have hcell := h.cell 0 (by simp)
    rw [index_zero h.head_lt] at hcell
    simpa using hcell
  · rw [h.tail_eq, List.length_cons, index_advance h.head_lt hfits]
  · intro i hi
    have hcell := h.cell (i + 1) (by simpa using hi)
    rw [index_advance h.head_lt (by omega), hcell]
    simp

end Holds
end LBoot.Lib.Ring
