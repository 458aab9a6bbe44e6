/-
  LBoot.Lib.Screen

  Text on a screen that scrolls.

  A text is laid out in rows of at most `w` characters: an end of line closes
  a row, and so does the last character that fits, so that an end of line
  there leaves an empty row.  A screen of `h` rows writes at its cursor and
  moves its rows up when it has no more; it shows the last rows of the layout
  and has its cursor behind the last character (`Shows.run`).
-/

import Mathlib.Data.List.DropRight

namespace LBoot.Lib

variable {α β : Type*}

/-! ## Layout -/

/-- The rows of a text, where the first one has begun with `row`. -/
def layoutFrom [DecidableEq α] (eol : α) (w : Nat) (row : List α) : List α → List (List α)
  | [] => [row]
  | c :: text =>
      if c = eol then row :: layoutFrom eol w [] text
      else if row.length + 1 < w then layoutFrom eol w (row ++ [c]) text
      else (row ++ [c]) :: layoutFrom eol w [] text

/-- The rows of a text; the last one is still open. -/
def layout [DecidableEq α] (eol : α) (w : Nat) (text : List α) : List (List α) :=
  layoutFrom eol w [] text

/-- What is at a place of these rows. -/
def cellOf (f : α → β) (blank : β) (rows : List (List α)) (y x : Nat) : β :=
  ((rows[y]?.bind (·[x]?)).map f).getD blank

/-! ## Screens -/

/-- Cells by row and column, and the cursor. -/
structure Screen (β : Type*) where
  cells : Nat → Nat → β
  x : Nat
  y : Nat

namespace Screen

/-- All rows move up by one. -/
def scroll (h : Nat) (blank : β) (s : Screen β) : Screen β :=
  { s with cells := fun y x => if y + 1 < h then s.cells (y + 1) x else blank }

/-- To the beginning of the next row. -/
def newRow (h : Nat) (blank : β) (s : Screen β) : Screen β :=
  if s.y + 1 < h then { s with x := 0, y := s.y + 1 }
  else scroll h blank { s with x := 0, y := h - 1 }

/-- A cell at the cursor. -/
def place (b : β) (s : Screen β) : Screen β :=
  { s with cells := fun y x => if y = s.y ∧ x = s.x then b else s.cells y x }

/-- A character. -/
def put [DecidableEq α] (eol : α) (w h : Nat) (f : α → β) (blank : β) (c : α) (s : Screen β) :
    Screen β :=
  if c = eol then newRow h blank s
  else if s.x + 1 < w then { place (f c) s with x := s.x + 1 }
  else newRow h blank (place (f c) s)

/-- The screen shows the last of these rows, and the cursor is behind the last
    one. -/
structure Shows (w h : Nat) (f : α → β) (blank : β) (s : Screen β) (rows : List (List α)) :
    Prop where
  column : rows.getLast?.map List.length = some s.x
  row : (rows.rtake h).length = s.y + 1
  cells : ∀ y < h, ∀ x < w, s.cells y x = cellOf f blank (rows.rtake h) y x

end Screen

@[simp] theorem Screen.newRow_x (h : Nat) (blank : β) (s : Screen β) :
    (s.newRow h blank).x = 0 := by
  rw [newRow]
  split <;> rfl

/-! ## Cells of rows -/

section

variable {f : α → β} {blank : β} {rows : List (List α)} {row : List α} {c : α} {y x : Nat}

theorem cellOf_of_getElem? (hrow : rows[y]? = some row) (hc : row[x]? = some c) :
    cellOf f blank rows y x = f c := by
  rw [cellOf, hrow]
  show (row[x]?.map f).getD blank = f c
  rw [hc]
  rfl

/-- Two ways to draw the same rows. -/
theorem cellOf_congr {g : α → β} (h : ∀ row ∈ rows, ∀ c ∈ row, f c = g c) :
    cellOf f blank rows y x = cellOf g blank rows y x := by
  rw [cellOf, cellOf]
  congr 1
  apply Option.map_congr
  intro c hc
  obtain ⟨row, hrow, hcell⟩ := Option.bind_eq_some_iff.mp hc
  exact h row (List.mem_of_getElem? hrow) c (List.mem_of_getElem? hcell)

/-- Behind the rows it is blank. -/
theorem cellOf_of_length_le (h : rows.length ≤ y) : cellOf f blank rows y x = blank := by
  rw [cellOf, List.getElem?_eq_none h]
  rfl

/-- An empty row is blank. -/
theorem cellOf_concat_nil : cellOf f blank (rows ++ [[]]) y x = cellOf f blank rows y x := by
  obtain hlt | heq | hgt := Nat.lt_trichotomy y rows.length
  · rw [cellOf, cellOf, List.getElem?_append_left hlt]
  · rw [cellOf_of_length_le (Nat.le_of_eq heq.symm), cellOf, heq, List.getElem?_concat_length]
    rfl
  · rw [cellOf_of_length_le (Nat.le_of_lt hgt), cellOf_of_length_le]
    rw [List.length_append, List.length_singleton]
    omega

/-- A character behind the last row. -/
theorem cellOf_concat_concat :
    cellOf f blank (rows ++ [row ++ [c]]) y x =
      if y = rows.length ∧ x = row.length then f c else cellOf f blank (rows ++ [row]) y x := by
  obtain hlt | rfl | hgt := Nat.lt_trichotomy y rows.length
  · rw [if_neg (by omega), cellOf, cellOf, List.getElem?_append_left hlt,
      List.getElem?_append_left hlt]
  · rw [cellOf, cellOf, List.getElem?_concat_length, List.getElem?_concat_length]
    show (((row ++ [c])[x]?).map f).getD blank = _
    obtain hlt | rfl | hgt := Nat.lt_trichotomy x row.length
    · rw [if_neg (by omega), List.getElem?_append_left hlt]
      rfl
    · rw [if_pos ⟨rfl, rfl⟩, List.getElem?_concat_length]
      rfl
    · have hnone : (row ++ [c])[x]? = none := by
        rw [List.getElem?_eq_none_iff, List.length_append, List.length_singleton]
        omega
      rw [if_neg (by omega), hnone]
      show blank = (row[x]?.map f).getD blank
      rw [List.getElem?_eq_none (by omega)]
      rfl
  · rw [if_neg (by omega), cellOf_of_length_le, cellOf_of_length_le]
    · rw [List.length_append, List.length_singleton]
      omega
    · rw [List.length_append, List.length_singleton]
      omega

theorem cellOf_tail : cellOf f blank rows.tail y x = cellOf f blank rows (y + 1) x := by
  rw [cellOf, cellOf, List.getElem?_tail]

end

/-- No row is longer than the screen is wide. -/
theorem length_le_of_mem_layoutFrom [DecidableEq α] {eol : α} {w : Nat} {row r : List α}
    {text : List α} (hrow : row.length < w) (hr : r ∈ layoutFrom eol w row text) :
    r.length ≤ w := by
  have hw := Nat.zero_lt_of_lt hrow
  induction text generalizing row with
  | nil =>
      obtain rfl := List.mem_singleton.mp hr
      exact Nat.le_of_lt hrow
  | cons c text ih =>
      have hlen : (row ++ [c]).length = row.length + 1 := List.length_append
      rw [layoutFrom] at hr
      split_ifs at hr with heol hroom
      · obtain rfl | hr := List.mem_cons.mp hr
        · exact Nat.le_of_lt hrow
        · exact @ih [] hw hr
      · exact ih (by omega) hr
      · obtain rfl | hr := List.mem_cons.mp hr
        · omega
        · exact @ih [] hw hr

/-! ## The last rows -/

section

variable {rows : List (List α)} {row : List α} {h : Nat}

theorem rtake_length : (rows.rtake h).length = min rows.length h := by
  rw [List.rtake.eq_1, List.length_drop]
  omega

/-- Another row, while there is room. -/
theorem rtake_concat_of_lt (hlt : rows.length < h) :
    (rows ++ [row]).rtake h = rows.rtake h ++ [row] := by
  rw [List.rtake.eq_1, List.rtake.eq_1, List.length_append, List.length_singleton,
    Nat.sub_eq_zero_of_le hlt, Nat.sub_eq_zero_of_le (Nat.le_of_lt hlt)]
  rfl

/-- Another row, when there is none. -/
theorem rtake_concat_of_le (hpos : 0 < h) (hle : h ≤ rows.length) :
    (rows ++ [row]).rtake h = (rows.rtake h).tail ++ [row] := by
  obtain ⟨k, rfl⟩ := Nat.exists_eq_succ_of_ne_zero (Nat.ne_of_gt hpos)
  rw [List.rtake_concat_succ, List.rtake.eq_1, List.rtake.eq_1, List.tail_drop]
  congr 2
  omega

end

namespace Screen

section

variable {w h : Nat} {f : α → β} {blank : β} {s : Screen β} {rows pre : List (List α)}
  {row : List α}

/-- At most `h` rows. -/
theorem Shows.y_lt (hs : Shows w h f blank s rows) : s.y < h := by
  have hrow := hs.row
  rw [rtake_length] at hrow
  omega

/-- The next row begins. -/
theorem Shows.newRow (hs : Shows w h f blank s rows) :
    Shows w h f blank (s.newRow h blank) (rows ++ [[]]) := by
  have hrow := hs.row
  have hy := hs.y_lt
  have hlen := hrow
  rw [rtake_length] at hlen
  rw [Screen.newRow]
  split_ifs with hroom
  · have htake := @rtake_concat_of_lt _ rows [] h (by omega)
    refine ⟨by simp, by rw [htake, List.length_append, hrow]; rfl, fun y hy x hx => ?_⟩
    rw [htake, cellOf_concat_nil]
    exact hs.cells y hy x hx
  · have htake := @rtake_concat_of_le _ rows [] h (by omega) (by omega)
    refine ⟨by simp [scroll], ?_, fun y hy x hx => ?_⟩
    · rw [htake, List.length_append, List.length_tail, hrow]
      show s.y + 1 - 1 + 1 = h - 1 + 1
      omega
    · rw [htake, cellOf_concat_nil, cellOf_tail]
      show (if y + 1 < h then s.cells (y + 1) x else blank) = _
      split_ifs with hlast
      · exact hs.cells (y + 1) hlast x hx
      · exact (cellOf_of_length_le (by omega)).symm

/-- A character goes behind the last row. -/
theorem Shows.place (hs : Shows w h f blank s (pre ++ [row])) (c : α) :
    Shows w h f blank { s.place (f c) with x := s.x + 1 } (pre ++ [row ++ [c]]) := by
  have hcol : row.length = s.x := by simpa using hs.column
  have hrow := hs.row
  obtain ⟨k, rfl⟩ := Nat.exists_eq_succ_of_ne_zero (Nat.ne_of_gt (Nat.zero_lt_of_lt hs.y_lt))
  rw [List.rtake_concat_succ, List.length_append] at hrow
  have hy : (pre.rtake k).length = s.y := Nat.succ.inj hrow
  refine ⟨by simp [hcol], ?_, fun y hy' x hx => ?_⟩
  · rw [List.rtake_concat_succ, List.length_append, hy]
    rfl
  · have hcell := hs.cells y hy' x hx
    rw [List.rtake_concat_succ] at hcell
    rw [List.rtake_concat_succ, cellOf_concat_concat, hy, hcol, ← hcell]
    rfl

theorem Shows.put [DecidableEq α] {eol : α} (hs : Shows w h f blank s (pre ++ [row])) (c : α) :
    Shows w h f blank (s.put eol w h f blank c)
      (pre ++ layoutFrom eol w row [c]) := by
  have hcol : row.length = s.x := by simpa using hs.column
  rw [Screen.put, layoutFrom, hcol]
  split_ifs with heol hroom
  · have hnew := hs.newRow
    rwa [List.append_assoc] at hnew
  · exact hs.place c
  · have hnew := (hs.place c).newRow
    rw [List.append_assoc] at hnew
    exact hnew

/-- A screen that shows these rows shows, with a text behind them, their
    continuation. -/
theorem Shows.run [DecidableEq α] {eol : α} (hs : Shows w h f blank s (pre ++ [row]))
    (text : List α) :
    Shows w h f blank (text.foldl (fun s c => s.put eol w h f blank c) s)
      (pre ++ layoutFrom eol w row text) := by
  induction text generalizing s pre row with
  | nil => exact hs
  | cons c text ih =>
      have hput := @Shows.put _ _ w h f blank s pre row _ eol hs c
      rw [List.foldl_cons, layoutFrom]
      rw [layoutFrom] at hput
      split_ifs at hput ⊢ with heol hroom
      · rw [← List.singleton_append, ← List.append_assoc] at hput ⊢
        exact ih hput
      · exact ih hput
      · rw [← List.singleton_append, ← List.append_assoc] at hput ⊢
        exact ih hput

/-- A blank screen shows the empty text. -/
theorem shows_blank (hh : 0 < h) (hcells : ∀ y < h, ∀ x < w, s.cells y x = blank) (hx : s.x = 0)
    (hy : s.y = 0) : Shows w h f blank s [[]] := by
  have htake : ([[]] : List (List α)).rtake h = [[]] := by
    rw [← List.nil_append [[]], rtake_concat_of_lt hh, List.rtake_nil]
  refine ⟨by rw [hx]; rfl, by rw [htake, hy]; rfl, fun y hy x hx => ?_⟩
  rw [htake, hcells y hy x hx, ← List.nil_append [[]], cellOf_concat_nil]
  rfl

end

end Screen

end LBoot.Lib
