/-
  LBoot.Io.Vga

  The text console (src/io/vga.c).

  A cell of the screen is two bytes of video memory, the character and the
  colours.  `_vga_putchar` writes at the cursor and lets `memmove` scroll the
  rows, so that the memory is a screen that scrolls (`Draws.putchar`).  The
  character is a `char`, which is signed: from 0x80 on its sign goes into the
  byte of the colours (`toLe_vchar`).
-/

import LBoot.Lib.LittleEndian
import LBoot.Lib.Screen
import LBoot.Stdlib.Memmove

namespace LBoot.Io

open LBoot.Lib LBoot.Stdlib

/-! ## Model -/

/-- The fields of `_vga_state` that nothing changes. -/
structure VgaConfig where
  vidmem : Nat
  colorFg : UInt8
  colorBg : UInt8
  resX : UInt8
  resY : UInt8
  resX_pos : 0 < resX.toNat
  resY_pos : 0 < resY.toNat
  fits : vidmem + 2 * (resX.toNat * resY.toNat) ≤ 2 ^ 32

/-- `_vga_state`, and the memory. -/
structure VgaState extends VgaConfig where
  posX : UInt8
  posY : UInt8
  mem : Int → UInt8

/-- `_vga_state` before `vga_init`, with `CONFIG_STATUSBAR` or without. -/
def vgaState (statusbar : Bool) (mem : Int → UInt8) : VgaState where
  vidmem := 0xB8000
  colorFg := 0x07
  colorBg := 0x00
  resX := 80
  resY := if statusbar then 24 else 25
  resX_pos := by decide
  resY_pos := by cases statusbar <;> decide
  fits := by cases statusbar <;> decide
  posX := 0
  posY := 0
  mem := mem

/-- `&vidmem[i]`. -/
def VgaConfig.cellAddr (g : VgaConfig) (i : Nat) : Nat := g.vidmem + 2 * i

/-- `VCHAR`. -/
def vchar (ch fg bg : UInt8) : UInt16 :=
  .ofBitVec (ch.toBitVec.signExtend 16) ||| fg.toUInt16 <<< 8 ||| bg.toUInt16 <<< 12

/-- `_vga_clear`. -/
def vgaClear (s : VgaState) : VgaState :=
  { s with mem := memset s.mem s.vidmem 0 (s.resX.toNat * 2 * s.resY.toNat) }

/-- `vga_init`. -/
def vgaInit (s : VgaState) : VgaState := vgaClear s

/-- `_vga_place_char`. -/
def vgaPlaceChar (x y ch : UInt8) (s : VgaState) : VgaState :=
  { s with
    mem := storeAt s.mem (s.cellAddr (y.toNat * s.resX.toNat + x.toNat))
      (toLe 2 (vchar ch s.colorFg s.colorBg).toNat) }

/-- `_vga_scroll`. -/
def vgaScroll (s : VgaState) : VgaState :=
  let sz := s.resX.toNat * (s.resY.toNat - 1)
  let mem := memmove s.mem (s.cellAddr 0) (s.cellAddr s.resX.toNat) (sz * 2)
  { s with mem := memset mem (s.cellAddr sz) 0 (s.resX.toNat * 2) }

/-- `_vga_putchar`. -/
def vgaPutchar (ch : UInt8) (s : VgaState) : VgaState :=
  let s : VgaState :=
    if ch = 0x0a then { s with posX := 0, posY := s.posY + 1 }
    else
      let s := vgaPlaceChar s.posX s.posY ch s
      { s with posX := s.posX + 1 }
  let s : VgaState :=
    if s.posX ≥ s.resX then { s with posX := 0, posY := s.posY + 1 } else s
  if s.posY ≥ s.resY then vgaScroll { s with posY := s.resY - 1 } else s

/-- `_vga_write`, with what it returns. -/
def vgaWrite (data : List UInt8) (s : VgaState) : VgaState × Nat :=
  (data.foldl (fun s ch => vgaPutchar ch s) s, data.length)

/-! ## Cells -/

/-- The bytes of a cell. -/
def VgaConfig.cell (g : VgaConfig) (mem : Int → UInt8) (y x : Nat) : List UInt8 :=
  loadAt mem (g.cellAddr (y * g.resX.toNat + x)) 2

/-- The byte of the colours. -/
def VgaConfig.colors (g : VgaConfig) : UInt8 := g.colorFg ||| g.colorBg <<< 4

/-- An address that is not one of the rows'. -/
def VgaConfig.Outside (g : VgaConfig) (a : Int) : Prop :=
  a < g.vidmem ∨ (g.vidmem + 2 * (g.resX.toNat * g.resY.toNat) : Nat) ≤ a

section

variable {w h x y x' y' : Nat}

theorem index_lt (hx : x < w) (hy : y < h) : y * w + x < w * h := by
  have hrow : (y + 1) * w ≤ h * w := Nat.mul_le_mul_right w hy
  rw [Nat.succ_mul] at hrow
  rw [Nat.mul_comm w h]
  omega

theorem index_inj (hx : x < w) (hx' : x' < w) (heq : y * w + x = y' * w + x') :
    y = y' ∧ x = x' := by
  have hmod := congrArg (· % w) heq
  have hdiv := congrArg (· / w) heq
  simp only [Nat.mul_add_mod', Nat.mod_eq_of_lt hx, Nat.mod_eq_of_lt hx'] at hmod
  refine ⟨?_, hmod⟩
  subst hmod
  exact Nat.eq_of_mul_eq_mul_right (Nat.zero_lt_of_lt hx) (Nat.add_right_cancel heq)

end

namespace VgaConfig

variable (g : VgaConfig) (mem : Int → UInt8) {x y x' y' : Nat}

/-- A cell that is written. -/
theorem cell_place (hx : x < g.resX.toNat) (hx' : x' < g.resX.toNat) {bs : List UInt8}
    (hbs : bs.length = 2) :
    g.cell (storeAt mem (g.cellAddr (y * g.resX.toNat + x)) bs) y' x' =
      if y' = y ∧ x' = x then bs else g.cell mem y' x' := by
  rw [cell, cell]
  split_ifs with hsame
  · rw [hsame.1, hsame.2, ← hbs, loadAt_storeAt]
  · have hne : y' * g.resX.toNat + x' ≠ y * g.resX.toNat + x := fun heq =>
      hsame (index_inj hx' hx heq)
    apply loadAt_storeAt_disjoint
    rw [hbs, cellAddr, cellAddr]
    omega

theorem outside_place (hx : x < g.resX.toNat) (hy : y < g.resY.toNat) {bs : List UInt8}
    (hbs : bs.length = 2) {a : Int} (ha : g.Outside a) :
    storeAt mem (g.cellAddr (y * g.resX.toNat + x)) bs a = mem a := by
  have hidx := index_lt hx hy
  rw [Outside] at ha
  apply storeAt_of_outside
  rw [hbs, cellAddr]
  omega

end VgaConfig

/-- The memory behind `_vga_scroll`: all rows but one, moved, and a blank
    one. -/
theorem vgaScroll_mem (s : VgaState) :
    (vgaScroll s).mem =
      storeAt (storeAt s.mem s.vidmem
        (loadAt s.mem (s.cellAddr s.resX.toNat) (s.resX.toNat * (s.resY.toNat - 1) * 2)))
        (s.cellAddr (s.resX.toNat * (s.resY.toNat - 1))) (List.replicate (s.resX.toNat * 2) 0) := by
  have hfits := s.fits
  obtain ⟨k, hk⟩ := Nat.exists_eq_succ_of_ne_zero (Nat.ne_of_gt s.resY_pos)
  rw [hk, Nat.mul_succ] at hfits
  show memset (memmove _ _ _ _) _ _ _ = _
  rw [hk, Nat.succ_sub_one, memset_eq _ _ (by rw [VgaConfig.cellAddr]; omega),
    memmove_eq _ (by rw [VgaConfig.cellAddr]; omega) (by rw [VgaConfig.cellAddr]; omega)]
  rfl

theorem cell_scroll (s : VgaState) {x y : Nat} (hx : x < s.resX.toNat) (hy : y < s.resY.toNat) :
    s.cell (vgaScroll s).mem y x =
      if y + 1 < s.resY.toNat then s.cell s.mem (y + 1) x else [0, 0] := by
  have hlen : (List.replicate (s.resX.toNat * 2) (0 : UInt8)).length = s.resX.toNat * 2 :=
    List.length_replicate
  rw [vgaScroll_mem, VgaConfig.cell, VgaConfig.cell]
  split_ifs with hlast
  · have hidx := index_lt hx (by omega : y < s.resY.toNat - 1)
    have hcopy := loadAt_copy s.mem s.vidmem (s.cellAddr s.resX.toNat)
      (by omega : 2 * (y * s.resX.toNat + x) + 2 ≤ s.resX.toNat * (s.resY.toNat - 1) * 2)
    rw [loadAt_storeAt_disjoint (Or.inl (by rw [VgaConfig.cellAddr, VgaConfig.cellAddr]; omega))]
    have hfrom : s.cellAddr ((y + 1) * s.resX.toNat + x) =
        s.cellAddr s.resX.toNat + 2 * (y * s.resX.toNat + x) := by
      rw [VgaConfig.cellAddr, VgaConfig.cellAddr, Nat.succ_mul y]
      omega
    have hto : s.cellAddr (y * s.resX.toNat + x) = s.vidmem + 2 * (y * s.resX.toNat + x) := rfl
    rw [hfrom, hto, Nat.cast_add, hcopy, Nat.cast_add]
  · have hrow : y = s.resY.toNat - 1 := by omega
    have hblank := loadAt_storeAt (storeAt s.mem s.vidmem (loadAt s.mem (s.cellAddr s.resX.toNat)
      (s.resX.toNat * (s.resY.toNat - 1) * 2))) (s.cellAddr (s.resX.toNat * (s.resY.toNat - 1)))
      (List.replicate (s.resX.toNat * 2) (0 : UInt8))
    have hat : s.cellAddr (y * s.resX.toNat + x) =
        s.cellAddr (s.resX.toNat * (s.resY.toNat - 1)) + 2 * x := by
      rw [VgaConfig.cellAddr, VgaConfig.cellAddr, hrow, Nat.mul_comm s.resX.toNat]
      omega
    rw [hat, Nat.cast_add, loadAt_inside hblank (by omega), List.drop_replicate,
      List.take_replicate, Nat.min_eq_left (by omega)]
    rfl

theorem outside_scroll (s : VgaState) {a : Int} (ha : s.Outside a) :
    (vgaScroll s).mem a = s.mem a := by
  obtain ⟨k, hk⟩ := Nat.exists_eq_succ_of_ne_zero (Nat.ne_of_gt s.resY_pos)
  rw [VgaConfig.Outside, hk, Nat.mul_succ] at ha
  rw [vgaScroll_mem, hk, Nat.succ_sub_one, storeAt_of_outside, storeAt_of_outside]
  · rw [length_loadAt]
    omega
  · rw [List.length_replicate, VgaConfig.cellAddr]
    omega

/-! ## The character and the colours -/

theorem toLe_toNat (v : UInt16) :
    toLe 2 v.toNat =
      [.ofBitVec (v.toBitVec.extractLsb' 0 8), .ofBitVec (v.toBitVec.extractLsb' 8 8)] := by
  have hlow : UInt8.ofNat v.toNat = .ofBitVec (v.toBitVec.extractLsb' 0 8) :=
    UInt8.toNat_inj.mp (by simp)
  have hhigh : UInt8.ofNat (v.toNat / 256) = .ofBitVec (v.toBitVec.extractLsb' 8 8) :=
    UInt8.toNat_inj.mp (by simp [Nat.shiftRight_eq_div_pow])
  rw [toLe, toLe, toLe, hlow, hhigh]

/-- The sign of the character is in the byte of the colours. -/
theorem toLe_vchar (ch fg bg : UInt8) :
    toLe 2 (vchar ch fg bg).toNat = [ch, if ch < 0x80 then fg ||| bg <<< 4 else 0xff] := by
  have hlow : (vchar ch fg bg).toBitVec.extractLsb' 0 8 = ch.toBitVec := by
    apply BitVec.eq_of_getLsbD_eq
    intro i hi
    simp [vchar, BitVec.getLsbD_signExtend, hi]
    grind
  have hhigh : (vchar ch fg bg).toBitVec.extractLsb' 8 8 =
      if ch.toBitVec.msb then BitVec.allOnes 8 else (fg ||| bg <<< 4).toBitVec := by
    apply BitVec.eq_of_getLsbD_eq
    intro i hi
    by_cases hsign : ch.toBitVec.msb = true
    · rw [if_pos hsign, BitVec.getLsbD_allOnes]
      simp [vchar, BitVec.getLsbD_signExtend, hi, hsign]
      grind
    · rw [if_neg hsign]
      simp [vchar, BitVec.getLsbD_signExtend, hi, hsign]
      grind
  have hmsb : ch.toBitVec.msb = true ↔ ¬ ch < 0x80 := by
    rw [UInt8.lt_iff_toNat_lt, BitVec.msb_eq_decide, decide_eq_true_iff]
    exact Nat.not_lt.symm
  rw [toLe_toNat, hlow, hhigh]
  by_cases hch : ch < 0x80
  · rw [if_neg (fun h => hmsb.mp h hch), if_pos hch]
  · rw [if_pos (hmsb.mpr hch), if_neg hch]
    rfl

/-! ## The screen -/

/-- What a character puts into its cell. -/
def VgaConfig.drawn (g : VgaConfig) (ch : UInt8) : List UInt8 :=
  toLe 2 (vchar ch g.colorFg g.colorBg).toNat

/-- The rows of the memory are this screen; elsewhere it is what it was. -/
structure Draws (m : Int → UInt8) (s : VgaState) (scr : Screen (List UInt8)) : Prop where
  x : s.posX.toNat = scr.x
  y : s.posY.toNat = scr.y
  x_lt : scr.x < s.resX.toNat
  y_lt : scr.y < s.resY.toNat
  cells : ∀ y < s.resY.toNat, ∀ x < s.resX.toNat, s.cell s.mem y x = scr.cells y x
  frame : ∀ a, s.Outside a → s.mem a = m a

/-- What `_vga_putchar` does at the end of a row. -/
def vgaNextRow (s : VgaState) : VgaState :=
  if s.posY + 1 ≥ s.resY then vgaScroll { s with posX := 0, posY := s.resY - 1 }
  else { s with posX := 0, posY := s.posY + 1 }

section

variable {m : Int → UInt8} {s : VgaState} {scr : Screen (List UInt8)}

theorem Draws.posY_succ (hs : Draws m s scr) : (s.posY + 1).toNat = scr.y + 1 := by
  have hy := hs.y_lt
  have hlt := s.resY.toNat_lt
  rw [UInt8.toNat_add, hs.y]
  show (scr.y + 1) % 256 = scr.y + 1
  omega

theorem Draws.posX_succ (hs : Draws m s scr) : (s.posX + 1).toNat = scr.x + 1 := by
  have hx := hs.x_lt
  have hlt := s.resX.toNat_lt
  rw [UInt8.toNat_add, hs.x]
  show (scr.x + 1) % 256 = scr.x + 1
  omega

theorem Draws.nextRow (hs : Draws m s scr) :
    Draws m (vgaNextRow s) (scr.newRow s.resY.toNat [0, 0]) := by
  have hresY := s.resY_pos
  have hroom : s.posY + 1 ≥ s.resY ↔ ¬ scr.y + 1 < s.resY.toNat := by
    rw [ge_iff_le, UInt8.le_iff_toNat_le, hs.posY_succ, Nat.not_lt]
  rw [vgaNextRow, Screen.newRow]
  by_cases hlast : scr.y + 1 < s.resY.toNat
  · rw [if_neg (fun h => hroom.mp h hlast), if_pos hlast]
    exact ⟨rfl, hs.posY_succ, s.resX_pos, hlast, hs.cells, hs.frame⟩
  · rw [if_pos (hroom.mpr hlast), if_neg hlast]
    have hone : (1 : UInt8) ≤ s.resY := UInt8.le_iff_toNat_le.mpr hresY
    refine ⟨rfl, UInt8.toNat_sub_of_le _ _ hone, s.resX_pos, Nat.sub_one_lt_of_lt hresY,
      fun y hy x hx => ?_, fun a ha => ?_⟩
    · refine (cell_scroll { s with posX := 0, posY := s.resY - 1 } hx hy).trans ?_
      show _ = if y + 1 < s.resY.toNat then scr.cells (y + 1) x else [0, 0]
      split_ifs with hnext
      · exact hs.cells (y + 1) hnext x hx
      · rfl
    · exact (outside_scroll { s with posX := 0, posY := s.resY - 1 } ha).trans (hs.frame a ha)

theorem Draws.placeChar (hs : Draws m s scr) (ch : UInt8) :
    Draws m (vgaPlaceChar s.posX s.posY ch s) (scr.place (s.drawn ch)) := by
  have hx := hs.x_lt
  have hy := hs.y_lt
  rw [← hs.x] at hx
  rw [← hs.y] at hy
  have hbytes : (s.drawn ch).length = 2 := length_toLe 2 _
  refine ⟨hs.x, hs.y, hs.x_lt, hs.y_lt, fun y' _ x' hx' => ?_, fun a ha => ?_⟩
  · refine (s.toVgaConfig.cell_place s.mem hx hx' hbytes).trans ?_
    show _ = if y' = scr.y ∧ x' = scr.x then s.drawn ch else scr.cells y' x'
    rw [hs.x, hs.y]
    split_ifs
    · rfl
    · exact hs.cells y' ‹_› x' hx'
  · exact (s.toVgaConfig.outside_place s.mem hx hy hbytes ha).trans (hs.frame a ha)

/-- Where the cursor is on the screen, a character is followed by the next
    column or the next row. -/
theorem vgaPutchar_eq (hs : Draws m s scr) (ch : UInt8) :
    vgaPutchar ch s =
      if ch = 0x0a then vgaNextRow s
      else if scr.x + 1 < s.resX.toNat then
        { vgaPlaceChar s.posX s.posY ch s with posX := s.posX + 1 }
      else vgaNextRow (vgaPlaceChar s.posX s.posY ch s) := by
  have hresX : ¬ (0 : UInt8) ≥ s.resX := by
    rw [ge_iff_le, UInt8.le_iff_toNat_le, Nat.not_le]
    exact s.resX_pos
  have hresY : ¬ s.posY ≥ s.resY := by
    rw [ge_iff_le, UInt8.le_iff_toNat_le, hs.y, Nat.not_le]
    exact hs.y_lt
  have hroom : s.posX + 1 ≥ s.resX ↔ ¬ scr.x + 1 < s.resX.toNat := by
    rw [ge_iff_le, UInt8.le_iff_toNat_le, hs.posX_succ, Nat.not_lt]
  by_cases heol : ch = 0x0a
  · simp only [vgaPutchar, if_pos heol, if_neg hresX]
    rfl
  · by_cases hlast : scr.x + 1 < s.resX.toNat
    · have hgo : ¬ s.posX + 1 ≥ s.resX := fun h => hroom.mp h hlast
      simp only [vgaPutchar, if_neg heol, if_pos hlast, vgaPlaceChar, if_neg hgo, if_neg hresY]
    · have hstop := hroom.mpr hlast
      simp only [vgaPutchar, if_neg heol, if_neg hlast, vgaPlaceChar, if_pos hstop]
      rfl

theorem vgaNextRow_config (s : VgaState) : (vgaNextRow s).toVgaConfig = s.toVgaConfig := by
  rw [vgaNextRow]
  split_ifs <;> rfl

theorem vgaPutchar_config (hs : Draws m s scr) (ch : UInt8) :
    (vgaPutchar ch s).toVgaConfig = s.toVgaConfig := by
  rw [vgaPutchar_eq hs]
  split_ifs
  · exact vgaNextRow_config s
  · rfl
  · exact vgaNextRow_config _

/-- `_vga_putchar` on the memory is a character on the screen. -/
theorem Draws.putchar (hs : Draws m s scr) (ch : UInt8) :
    Draws m (vgaPutchar ch s)
      (scr.put 0x0a s.resX.toNat s.resY.toNat s.drawn [0, 0] ch) := by
  rw [vgaPutchar_eq hs, Screen.put]
  split_ifs with heol hroom
  · exact hs.nextRow
  · have hput := hs.placeChar ch
    exact ⟨hs.posX_succ, hput.y, hroom, hput.y_lt, hput.cells, hput.frame⟩
  · exact (hs.placeChar ch).nextRow

theorem Draws.write (hs : Draws m s scr) (data : List UInt8) :
    (vgaWrite data s).1.toVgaConfig = s.toVgaConfig ∧
      Draws m (vgaWrite data s).1
        (data.foldl (fun scr ch => scr.put 0x0a s.resX.toNat s.resY.toNat s.drawn [0, 0] ch)
          scr) := by
  induction data generalizing s scr with
  | nil => exact ⟨rfl, hs⟩
  | cons ch data ih =>
      have hconfig := vgaPutchar_config hs ch
      have hrest := ih (hs.putchar ch)
      rw [hconfig] at hrest
      exact hrest

/-- `vga_init` clears the screen. -/
theorem draws_vgaInit (hx : s.posX = 0) (hy : s.posY = 0) :
    Draws s.mem (vgaInit s) ⟨fun _ _ => [0, 0], 0, 0⟩ := by
  have hfits := s.fits
  have hsize : s.resX.toNat * 2 * s.resY.toNat = 2 * (s.resX.toNat * s.resY.toNat) := by
    rw [Nat.mul_comm s.resX.toNat 2, Nat.mul_assoc]
  have hmem : (vgaInit s).mem =
      storeAt s.mem s.vidmem (List.replicate (2 * (s.resX.toNat * s.resY.toNat)) 0) := by
    show memset _ _ _ _ = _
    rw [hsize, memset_eq _ _ (by omega)]
  refine ⟨by rw [← UInt8.toNat_zero, ← hx]; rfl, by rw [← UInt8.toNat_zero, ← hy]; rfl,
    s.resX_pos, s.resY_pos, fun y hy x hx => ?_, fun a ha => ?_⟩
  · have hidx : y * s.resX.toNat + x < s.resX.toNat * s.resY.toNat := index_lt hx hy
    have hblank := loadAt_storeAt s.mem s.vidmem
      (List.replicate (2 * (s.resX.toNat * s.resY.toNat)) (0 : UInt8))
    have hat : (vgaInit s).cellAddr (y * s.resX.toNat + x) =
        s.vidmem + 2 * (y * s.resX.toNat + x) := rfl
    show loadAt _ ((vgaInit s).cellAddr (y * s.resX.toNat + x) : Nat) 2 = [0, 0]
    rw [hmem, hat, Nat.cast_add, loadAt_inside hblank (by rw [List.length_replicate]; omega),
      List.drop_replicate, List.take_replicate, Nat.min_eq_left (by omega)]
    rfl
  · rw [hmem]
    apply storeAt_of_outside
    rw [List.length_replicate]
    have hout : a < s.vidmem ∨ (s.vidmem + 2 * (s.resX.toNat * s.resY.toNat) : Nat) ≤ a := ha
    omega

end

/-- The screen shows the end of this text in the colours configured, its cursor
    is behind the text, and nothing else has been written. -/
structure VgaShowsEnd (m : Int → UInt8) (s : VgaState) (text : List UInt8) : Prop where
  cells : ∀ y < s.resY.toNat, ∀ x < s.resX.toNat, s.cell s.mem y x =
    cellOf (fun ch => [ch, s.colors]) [0, 0]
      ((layout 0x0a s.resX.toNat text).rtake s.resY.toNat) y x
  row : ((layout 0x0a s.resX.toNat text).rtake s.resY.toNat).length = s.posY.toNat + 1
  column : (layout 0x0a s.resX.toNat text).getLast?.map List.length = some s.posX.toNat
  inside : s.posX < s.resX ∧ s.posY < s.resY
  frame : ∀ a, s.Outside a → s.mem a = m a

section

variable {s : VgaState}

/-- Behind `vga_init` the rows are those of the text. -/
theorem vgaWrite_shows (hx : s.posX = 0) (hy : s.posY = 0) (text : List UInt8) :
    ∃ scr, (vgaWrite text (vgaInit s)).1.toVgaConfig = s.toVgaConfig ∧
      Draws s.mem (vgaWrite text (vgaInit s)).1 scr ∧
      scr.Shows s.resX.toNat s.resY.toNat s.drawn [0, 0] (layout 0x0a s.resX.toNat text) := by
  obtain ⟨hconfig, hdraws⟩ := (draws_vgaInit hx hy).write text
  refine ⟨_, hconfig, hdraws, ?_⟩
  have hblank := @Screen.shows_blank UInt8 _ s.resX.toNat s.resY.toNat s.drawn [0, 0]
    ⟨fun _ _ => [0, 0], 0, 0⟩ s.resY_pos (fun _ _ _ _ => rfl) rfl rfl
  exact @Screen.Shows.run _ _ _ _ _ _ _ [] [] _ 0x0a hblank text

theorem drawn_eq_iff (g : VgaConfig) (hcolors : g.colors ≠ 0xff) (ch : UInt8) :
    g.drawn ch = [ch, g.colors] ↔ ch < 0x80 := by
  rw [VgaConfig.drawn, toLe_vchar, VgaConfig.colors] at *
  split_ifs with hch
  · exact iff_of_true rfl hch
  · refine iff_of_false (fun h => hcolors ?_) hch
    exact (List.cons.inj (List.cons.inj h).2).1.symm

/-- So it does if no character shown has its sign bit set. -/
theorem vgaShowsEnd_iff (hx : s.posX = 0) (hy : s.posY = 0) (hcolors : s.colors ≠ 0xff)
    (text : List UInt8) :
    VgaShowsEnd s.mem (vgaWrite text (vgaInit s)).1 text ↔
      ∀ row ∈ (layout 0x0a s.resX.toNat text).rtake s.resY.toNat, ∀ ch ∈ row, ch < 0x80 := by
  obtain ⟨scr, hconfig, hdraws, hshows⟩ := vgaWrite_shows hx hy text
  generalize (vgaWrite text (vgaInit s)).1 = t at hconfig hdraws
  rw [← hconfig] at hshows hcolors ⊢
  have hrow := hshows.row
  constructor
  · intro hend row hmem ch hch
    obtain ⟨y, hy⟩ := List.mem_iff_getElem?.mp hmem
    obtain ⟨x, hx⟩ := List.mem_iff_getElem?.mp hch
    have hylt : y < t.resY.toNat := by
      have hlt := (List.getElem?_eq_some_iff.mp hy).1
      have hroom := hshows.y_lt
      omega
    have hxlt : x < t.resX.toNat :=
      ((List.getElem?_eq_some_iff.mp hx).1).trans_le
        (@length_le_of_mem_layoutFrom _ _ 0x0a _ [] _ _ t.resX_pos (List.mem_of_mem_drop hmem))
    have hcell := (hend.cells y hylt x hxlt).symm.trans
      ((hdraws.cells y hylt x hxlt).trans (hshows.cells y hylt x hxlt))
    rw [cellOf_of_getElem? hy hx, cellOf_of_getElem? hy hx] at hcell
    exact (drawn_eq_iff t.toVgaConfig hcolors ch).mp hcell.symm
  · intro hall
    refine ⟨fun y hy x hx => ?_, by rw [hrow, hdraws.y], by rw [hshows.column, hdraws.x],
      ⟨?_, ?_⟩, hdraws.frame⟩
    · rw [hdraws.cells y hy x hx, hshows.cells y hy x hx]
      apply cellOf_congr
      intro row hmem ch hch
      exact (drawn_eq_iff t.toVgaConfig hcolors ch).mpr (hall row hmem ch hch)
    · rw [UInt8.lt_iff_toNat_lt, hdraws.x]
      exact hdraws.x_lt
    · rw [UInt8.lt_iff_toNat_lt, hdraws.y]
      exact hdraws.y_lt

theorem foldl_vgaWrite (writes : List (List UInt8)) (s : VgaState) :
    writes.foldl (fun s data => (vgaWrite data s).1) s = (vgaWrite writes.flatten s).1 := by
  induction writes generalizing s with
  | nil => rfl
  | cons data writes ih =>
      rw [List.foldl_cons, ih, List.flatten_cons]
      exact List.foldl_append.symm

end

/-- After `vga_init` and any writes the screen shows the end of the text, with
    its cursor behind it and nothing written below the rows, exactly if no
    byte of the rows shown is 0x80 or above. -/
theorem vgaWrite_shows_iff (statusbar : Bool) (m : Int → UInt8) (writes : List (List UInt8)) :
    VgaShowsEnd m
      (writes.foldl (fun s data => (vgaWrite data s).1) (vgaInit (vgaState statusbar m)))
      writes.flatten ↔
        ∀ row ∈ (layout 0x0a 80 writes.flatten).rtake (if statusbar then 24 else 25),
          ∀ ch ∈ row, ch < 0x80 := by
  rw [foldl_vgaWrite]
  have hcolors : (vgaState statusbar m).colors ≠ 0xff := by
    show (0x07 : UInt8) ||| (0x00 : UInt8) <<< (4 : UInt8) ≠ 0xff
    decide
  have hiff := @vgaShowsEnd_iff (vgaState statusbar m) rfl rfl hcolors writes.flatten
  cases statusbar with
  | false => exact hiff
  | true => exact hiff

/-- The byte 0xE9 is shown in white on white, not in the colours
    configured. -/
theorem vgaWrite_not_shows :
    ¬ VgaShowsEnd (fun _ => 0) (vgaWrite [0xe9] (vgaInit (vgaState true fun _ => 0))).1 [0xe9] := by
  have hiff := @vgaShowsEnd_iff (vgaState true fun _ => 0) rfl rfl (by decide) [0xe9]
  intro hend
  have hlow := hiff.mp hend [0xe9] List.mem_cons_self 0xe9 List.mem_cons_self
  revert hlow
  decide

end LBoot.Io
