/-
  LBoot.Intr.Pic

  The interrupt controllers (src/intr/pic.c), and the enabling of single
  interrupts (src/intr/interrupts.c).

  Each function is the port accesses it makes, in order, on the pair of
  controllers.  `pic_remap` keeps the masks and throws the requests away
  (`picRemap_eq`).  A line is masked as the last call that names it says,
  whatever is called in between; enabling one of the second controller's lines
  leaves the cascade as it is (`maskCalls_raise_request`).
-/

import Mathlib.Data.List.Induction
import LBoot.Lib.Pic

namespace LBoot.Intr

open LBoot.Lib

/-! ## Ports -/

/-- `PIC1_COMMAND`, `PIC1_DATA`, `PIC2_COMMAND` and `PIC2_DATA`. -/
abbrev pic1Command : UInt16 := 0x20
abbrev pic1Data : UInt16 := 0x21
abbrev pic2Command : UInt16 := 0xa0
abbrev pic2Data : UInt16 := 0xa1

def outb (port : UInt16) (v : UInt8) (p : PicPair) : PicPair :=
  if port = pic1Command then { p with master := p.master.writeCommand v }
  else if port = pic1Data then { p with master := p.master.writeData v }
  else if port = pic2Command then { p with slave := p.slave.writeCommand v }
  else if port = pic2Data then { p with slave := p.slave.writeData v }
  else p

/-- Of the command ports, nothing is read. -/
def inb (port : UInt16) (p : PicPair) : UInt8 :=
  if port = pic1Data then p.master.readData
  else if port = pic2Data then p.slave.readData
  else 0xff

/-! ## pic.c -/

/-- `PIC_ICW1_IC4 | PIC_ICW1_1`. -/
def picIcw1 : UInt8 := 0x11

/-- `PIC_ICW4_uPM`. -/
def picIcw4Upm : UInt8 := 0x01

/-- `PIC_OCW2_EOI`. -/
def picOcw2Eoi : UInt8 := 0x20

/-- `pic_remap`. -/
def picRemap (master slave : UInt8) (p : PicPair) : PicPair :=
  let mMask := inb pic1Data p
  let sMask := inb pic2Data p
  let p := outb pic1Command picIcw1 p
  let p := outb pic2Command picIcw1 p
  let p := outb pic1Data master p
  let p := outb pic2Data slave p
  let p := outb pic1Data 0x04 p
  let p := outb pic2Data 2 p
  let p := outb pic1Data picIcw4Upm p
  let p := outb pic2Data picIcw4Upm p
  let p := outb pic1Data mMask p
  outb pic2Data sMask p

/-- `pic_eoi`. -/
def picEoi (irqId : UInt8) (p : PicPair) : PicPair :=
  let p := if irqId ≥ 8 then outb pic2Command picOcw2Eoi p else p
  outb pic1Command picOcw2Eoi p

/-- `port` and `irq_id` of `pic_mask` and `pic_unmask`. -/
def picLine (irqId : UInt8) : UInt16 × UInt8 :=
  if irqId ≥ 8 then (pic2Data, irqId - 8) else (pic1Data, irqId)

/-- `pic_mask`. -/
def picMask (irqId : UInt8) (p : PicPair) : Int × PicPair :=
  if irqId ≥ 16 then (-1, p)
  else
    let (port, irqId) := picLine irqId
    (0, outb port (inb port p ||| UInt8.ofNat (1 <<< irqId.toNat)) p)

/-- `pic_unmask`. -/
def picUnmask (irqId : UInt8) (p : PicPair) : Int × PicPair :=
  if irqId ≥ 16 then (-1, p)
  else
    let (port, irqId) := picLine irqId
    (0, outb port (inb port p &&& ~~~UInt8.ofNat (1 <<< irqId.toNat)) p)

/-! ## interrupts.c -/

/-- `PIC_OFFSET_MASTER` and `PIC_OFFSET_SLAVE`. -/
abbrev picOffsetMaster : UInt8 := 32
abbrev picOffsetSlave : UInt8 := 40

/-- The `if` that `interrupt_enable` and `interrupt_disable` share: which IRQ
    an interrupt is. -/
def irqOf (intId : UInt8) : Option UInt8 :=
  if intId ≥ picOffsetMaster ∧ intId < picOffsetMaster + 8 then some (intId - picOffsetMaster)
  else if intId ≥ picOffsetSlave ∧ intId < picOffsetSlave + 8 then
    some (intId - picOffsetSlave + 8)
  else none

/-- `interrupt_enable`. -/
def interruptEnable (intId : UInt8) (p : PicPair) : Int × PicPair :=
  match irqOf intId with
  | none => (-1, p)
  | some irqId =>
      let (ret, p) := picUnmask irqId p
      if ret ≠ 0 then (-1, p) else (0, p)

/-- `interrupt_disable`. -/
def interruptDisable (intId : UInt8) (p : PicPair) : Int × PicPair :=
  match irqOf intId with
  | none => (-1, p)
  | some irqId =>
      let (ret, p) := picMask irqId p
      if ret ≠ 0 then (-1, p) else (0, p)

/-! ## What they do -/

/-- Both controllers take commands and masks. -/
structure Ready (p : PicPair) : Prop where
  master : p.master.init = .ready
  slave : p.slave.init = .ready

/-- A controller behind its initialisation. -/
def remapped (base icw3 : UInt8) (p : Pic) : Pic :=
  { p with irr := 0, base := base &&& 0xf8, icw3, icw4 := picIcw4Upm, needs4 := true,
           single := false, init := .ready }

/-- **Remapping**, from any state of the controllers, also in the middle of an
    initialisation: they are a pair with these vectors, the masks are what
    they were, and the requests are gone. -/
theorem picRemap_eq (master slave : UInt8) (p : PicPair) :
    picRemap master slave p = ⟨remapped master 0x04 p.master, remapped slave 2 p.slave⟩ := rfl

theorem picRemap_ready (master slave : UInt8) (p : PicPair) : Ready (picRemap master slave p) :=
  ⟨rfl, rfl⟩

/-- `PIC_ICW4_AEOI` is not among the bits written. -/
theorem regBit_picIcw4Upm : regBit picIcw4Upm 1 = false := by decide

theorem picRemap_cascaded (master slave : UInt8) (p : PicPair) :
    (picRemap master slave p).Cascaded :=
  ⟨rfl, rfl, rfl, rfl, regBit_picIcw4Upm, regBit_picIcw4Upm⟩

/-- An end of interrupt goes to the first controller, and to the second one for
    its own lines. -/
theorem picEoi_eq (irqId : UInt8) (p : PicPair) : picEoi irqId p = p.eoi (decide (irqId ≥ 8)) := by
  rw [picEoi, PicPair.eoi]
  by_cases h : irqId ≥ 8
  · rw [if_pos h, decide_eq_true h]
    rfl
  · rw [if_neg h, decide_eq_false h]
    rfl

/-! ### Masks -/

/-- The line is masked. -/
def lineMasked (p : PicPair) (n : Nat) : Bool :=
  if n < 8 then regBit p.master.imr n else regBit p.slave.imr (n - 8)

/-- The masks of the pair, with line `n` set or cleared. -/
def setLine (p : PicPair) (n : Nat) (masked : Bool) : PicPair :=
  let imr (v : UInt8) (i : Nat) : UInt8 := if masked then v ||| lineMask i else v &&& ~~~lineMask i
  if n < 8 then { p with master := { p.master with imr := imr p.master.imr n } }
  else { p with slave := { p.slave with imr := imr p.slave.imr (n - 8) } }

theorem setLine_ready {p : PicPair} (h : Ready p) (n : Nat) (masked : Bool) :
    Ready (setLine p n masked) := by
  rw [setLine]
  split
  · exact ⟨h.master, h.slave⟩
  · exact ⟨h.master, h.slave⟩

theorem regBit_set (masked : Bool) (v : UInt8) (i : Nat) {j : Nat} (hj : j < 8) :
    regBit (if masked then v ||| lineMask i else v &&& ~~~lineMask i) j =
      if j = i then masked else regBit v j := by
  have hmask := regBit_lineMask (i := i) hj
  cases masked with
  | false =>
      rw [if_neg Bool.false_ne_true, regBit_and, regBit_not hj, hmask]
      by_cases h : j = i
      · simp [h]
      · simp [h, Ne.symm h]
  | true =>
      rw [if_pos rfl, regBit_or, hmask]
      by_cases h : j = i
      · simp [h]
      · simp [h, Ne.symm h]

/-- One line is set, the others are left alone. -/
theorem lineMasked_setLine (p : PicPair) {n m : Nat} (hn : n < 16) (hm : m < 16) (masked : Bool) :
    lineMasked (setLine p n masked) m = if m = n then masked else lineMasked p m := by
  rw [lineMasked, lineMasked, setLine]
  by_cases hn8 : n < 8 <;> by_cases hm8 : m < 8
  · rw [if_pos hn8, if_pos hm8, if_pos hm8]
    exact regBit_set masked _ n hm8
  · rw [if_pos hn8, if_neg hm8, if_neg hm8, if_neg (by omega)]
  · rw [if_neg hn8, if_pos hm8, if_pos hm8, if_neg (by omega)]
  · rw [if_neg hn8, if_neg hm8, if_neg hm8]
    have heq : m - 8 = n - 8 ↔ m = n := by omega
    have hset := regBit_set masked p.slave.imr (n - 8) (by omega : m - 8 < 8)
    simp only [heq] at hset
    exact hset

/-- The IRQs are the interrupts from 32 to 47. -/
theorem irqOf_eq_some_iff {intId irqId : UInt8} :
    irqOf intId = some irqId ↔ irqId < 16 ∧ intId.toNat = 32 + irqId.toNat := by
  rw [irqOf]
  simp only [ge_iff_le, UInt8.le_iff_toNat_le, UInt8.lt_iff_toNat_lt, picOffsetMaster,
    picOffsetSlave]
  have hid := intId.toNat_lt
  have hirq := irqId.toNat_lt
  have h32 : (32 : UInt8).toNat = 32 := rfl
  have h40 : (40 : UInt8).toNat = 40 := rfl
  have h8 : (8 : UInt8).toNat = 8 := rfl
  have h16 : (16 : UInt8).toNat = 16 := rfl
  have hm : (32 + 8 : UInt8).toNat = 40 := rfl
  have hs : (40 + 8 : UInt8).toNat = 48 := rfl
  rw [h32, h40, hm, hs, h16]
  split_ifs with hmaster hslave
  · rw [Option.some_inj, ← UInt8.toNat_inj, UInt8.toNat_sub, h32]
    omega
  · rw [Option.some_inj, ← UInt8.toNat_inj, UInt8.toNat_add, UInt8.toNat_sub, h40, h8]
    omega
  · constructor
    · intro h
      cases h
    · intro h
      omega

theorem irqOf_eq_none_iff {intId : UInt8} :
    irqOf intId = none ↔ ¬ (32 ≤ intId.toNat ∧ intId.toNat < 48) := by
  rw [← not_iff_not, ← Ne, Option.ne_none_iff_exists', Decidable.not_not]
  constructor
  · rintro ⟨irqId, h⟩
    obtain ⟨hlt, heq⟩ := irqOf_eq_some_iff.mp h
    have := UInt8.lt_iff_toNat_lt.mp hlt
    have h16 : (16 : UInt8).toNat = 16 := rfl
    omega
  · rintro ⟨hlo, hhi⟩
    refine ⟨UInt8.ofNat (intId.toNat - 32), irqOf_eq_some_iff.mpr ⟨?_, ?_⟩⟩
    · rw [UInt8.lt_iff_toNat_lt, UInt8.toNat_ofNat_of_lt' (by rw [UInt8.size]; omega)]
      exact (by omega : intId.toNat - 32 < 16)
    · rw [UInt8.toNat_ofNat_of_lt' (by rw [UInt8.size]; omega)]
      omega

/-! ### The calls -/

variable {p : PicPair}

@[simp] theorem inb_pic1Data : inb pic1Data p = p.master.imr := rfl

@[simp] theorem inb_pic2Data : inb pic2Data p = p.slave.imr := rfl

theorem outb_pic1Data (h : Ready p) (v : UInt8) :
    outb pic1Data v p = { p with master := { p.master with imr := v } } := by
  rw [outb, if_neg (by decide), if_pos rfl, Pic.writeData_of_ready h.master]

theorem outb_pic2Data (h : Ready p) (v : UInt8) :
    outb pic2Data v p = { p with slave := { p.slave with imr := v } } := by
  rw [outb, if_neg (by decide), if_neg (by decide), if_neg (by decide), if_pos rfl,
    Pic.writeData_of_ready h.slave]

/-- The bit that `pic_mask` and `pic_unmask` shift into place. -/
theorem ofNat_one_shiftLeft (i : Nat) : UInt8.ofNat (1 <<< i) = lineMask i := by
  rw [lineMask, Nat.one_shiftLeft]

theorem toNat_sub_eight {irqId : UInt8} (h : irqId ≥ 8) :
    (irqId - 8).toNat = irqId.toNat - 8 := UInt8.toNat_sub_of_le _ _ h

theorem picMask_eq (h : Ready p) {irqId : UInt8} (hirq : irqId < 16) :
    picMask irqId p = (0, setLine p irqId.toNat true) := by
  rw [picMask, if_neg (UInt8.not_le.mpr hirq), picLine, setLine]
  by_cases hslave : irqId ≥ 8
  · have hle : 8 ≤ irqId.toNat := UInt8.le_iff_toNat_le.mp hslave
    rw [if_pos hslave, if_neg (by omega)]
    dsimp only
    rw [outb_pic2Data h, inb_pic2Data, ofNat_one_shiftLeft, toNat_sub_eight hslave, if_pos rfl]
  · have hlt : irqId.toNat < 8 := UInt8.lt_iff_toNat_lt.mp (UInt8.not_le.mp hslave)
    rw [if_neg hslave, if_pos hlt]
    dsimp only
    rw [outb_pic1Data h, inb_pic1Data, ofNat_one_shiftLeft, if_pos rfl]

theorem picUnmask_eq (h : Ready p) {irqId : UInt8} (hirq : irqId < 16) :
    picUnmask irqId p = (0, setLine p irqId.toNat false) := by
  rw [picUnmask, if_neg (UInt8.not_le.mpr hirq), picLine, setLine]
  by_cases hslave : irqId ≥ 8
  · have hle : 8 ≤ irqId.toNat := UInt8.le_iff_toNat_le.mp hslave
    rw [if_pos hslave, if_neg (by omega)]
    dsimp only
    rw [outb_pic2Data h, inb_pic2Data, ofNat_one_shiftLeft, toNat_sub_eight hslave,
      if_neg Bool.false_ne_true]
  · have hlt : irqId.toNat < 8 := UInt8.lt_iff_toNat_lt.mp (UInt8.not_le.mp hslave)
    rw [if_neg hslave, if_pos hlt]
    dsimp only
    rw [outb_pic1Data h, inb_pic1Data, ofNat_one_shiftLeft, if_neg Bool.false_ne_true]

/-- The call that the interrupt `intId` is given to, and what it leaves. -/
theorem interruptEnable_eq (h : Ready p) (intId : UInt8) :
    interruptEnable intId p =
      if 32 ≤ intId.toNat ∧ intId.toNat < 48 then (0, setLine p (intId.toNat - 32) false)
      else (-1, p) := by
  rw [interruptEnable]
  cases hirq : irqOf intId with
  | none => rw [if_neg (irqOf_eq_none_iff.mp hirq)]
  | some irqId =>
      obtain ⟨hlt, heq⟩ := irqOf_eq_some_iff.mp hirq
      have hlt' : irqId.toNat < 16 := UInt8.lt_iff_toNat_lt.mp hlt
      dsimp only
      have hid : 32 ≤ intId.toNat ∧ intId.toNat < 48 := by omega
      rw [if_pos hid, picUnmask_eq h hlt, (by omega : intId.toNat - 32 = irqId.toNat)]
      rfl

theorem interruptDisable_eq (h : Ready p) (intId : UInt8) :
    interruptDisable intId p =
      if 32 ≤ intId.toNat ∧ intId.toNat < 48 then (0, setLine p (intId.toNat - 32) true)
      else (-1, p) := by
  rw [interruptDisable]
  cases hirq : irqOf intId with
  | none => rw [if_neg (irqOf_eq_none_iff.mp hirq)]
  | some irqId =>
      obtain ⟨hlt, heq⟩ := irqOf_eq_some_iff.mp hirq
      have hlt' : irqId.toNat < 16 := UInt8.lt_iff_toNat_lt.mp hlt
      dsimp only
      have hid : 32 ≤ intId.toNat ∧ intId.toNat < 48 := by omega
      rw [if_pos hid, picMask_eq h hlt, (by omega : intId.toNat - 32 = irqId.toNat)]
      rfl

/-! ### Any sequence of calls -/

/-- What is called of interrupts.h and pic.h. -/
inductive MaskCall where
  | enable (intId : UInt8)
  | disable (intId : UInt8)
  | remap (master slave : UInt8)
  deriving DecidableEq, Repr

def maskCall (p : PicPair) : MaskCall → PicPair
  | .enable intId => (interruptEnable intId p).2
  | .disable intId => (interruptDisable intId p).2
  | .remap master slave => picRemap master slave p

def maskCalls (p : PicPair) (calls : List MaskCall) : PicPair := calls.foldl maskCall p

/-- What a call says of the line: that it is masked, that it is not, or
    nothing. -/
def MaskCall.tells (n : Nat) : MaskCall → Option Bool
  | .enable intId => if intId.toNat = 32 + n then some false else none
  | .disable intId => if intId.toNat = 32 + n then some true else none
  | .remap _ _ => none

/-- The last call that says something of the line. -/
def lastTold (n : Nat) (calls : List MaskCall) : Option Bool :=
  (calls.filterMap (MaskCall.tells n)).getLast?

theorem lastTold_append (n : Nat) (calls : List MaskCall) (c : MaskCall) :
    lastTold n (calls ++ [c]) = (c.tells n).or (lastTold n calls) := by
  rw [lastTold, lastTold, List.filterMap_append, List.getLast?_append]
  cases htells : c.tells n with
  | none =>
      rw [List.filterMap_cons_none htells, List.filterMap_nil]
      rfl
  | some masked =>
      rw [List.filterMap_cons_some htells, List.filterMap_nil, List.getLast?_singleton]

theorem ite_setLine_ready (h : Ready p) (c : Prop) [Decidable c] (n : Nat) (masked : Bool) (r : Int) :
    Ready (if c then (r, setLine p n masked) else (-1, p)).2 := by
  split
  · exact setLine_ready h n masked
  · exact h

theorem maskCall_ready (h : Ready p) (c : MaskCall) : Ready (maskCall p c) := by
  cases c with
  | enable intId =>
      rw [maskCall, interruptEnable_eq h]
      exact ite_setLine_ready h _ _ _ _
  | disable intId =>
      rw [maskCall, interruptDisable_eq h]
      exact ite_setLine_ready h _ _ _ _
  | remap master slave => exact picRemap_ready master slave p

/-- What one call does to a line. -/
theorem lineMasked_maskCall (h : Ready p) {n : Nat} (hn : n < 16) (c : MaskCall) :
    lineMasked (maskCall p c) n = (c.tells n).getD (lineMasked p n) := by
  -- the line of the interrupt, or another one
  have hset (intId : UInt8) (masked : Bool) :
      lineMasked (if 32 ≤ intId.toNat ∧ intId.toNat < 48
          then ((0 : Int), setLine p (intId.toNat - 32) masked) else (-1, p)).2 n =
        (if intId.toNat = 32 + n then some masked else none).getD (lineMasked p n) := by
    by_cases hid : 32 ≤ intId.toNat ∧ intId.toNat < 48
    · rw [if_pos hid, lineMasked_setLine p (by omega) hn]
      by_cases heq : intId.toNat = 32 + n
      · rw [if_pos (by omega), if_pos heq, Option.getD_some]
      · rw [if_neg (by omega), if_neg heq, Option.getD_none]
    · rw [if_neg hid, if_neg (by omega), Option.getD_none]
  cases c with
  | enable intId =>
      rw [maskCall, interruptEnable_eq h, hset]
      rfl
  | disable intId =>
      rw [maskCall, interruptDisable_eq h, hset]
      rfl
  | remap master slave => rfl

theorem maskCalls_append (p : PicPair) (calls : List MaskCall) (c : MaskCall) :
    maskCalls p (calls ++ [c]) = maskCall (maskCalls p calls) c := by
  rw [maskCalls, List.foldl_append]
  rfl

/-- The masks after any calls. -/
theorem maskCalls_masks (h : Ready p) (calls : List MaskCall) :
    Ready (maskCalls p calls) ∧
      ∀ n < 16, lineMasked (maskCalls p calls) n = (lastTold n calls).getD (lineMasked p n) := by
  induction calls using List.reverseRecOn with
  | nil => exact ⟨h, fun n _ => rfl⟩
  | append_singleton calls c ih =>
      obtain ⟨hready, hmasked⟩ := ih
      rw [maskCalls_append]
      refine ⟨maskCall_ready hready c, fun n hn => ?_⟩
      rw [lineMasked_maskCall hready hn, hmasked n hn, lastTold_append]
      cases c.tells n with
      | none => rfl
      | some masked => rfl

/-- No line is requested, and none is in service. -/
structure Quiet (p : PicPair) : Prop where
  free : p.Free
  master_irr : p.master.irr = 0
  slave_irr : p.slave.irr = 0

theorem setLine_quiet (h : Quiet p) (n : Nat) (masked : Bool) : Quiet (setLine p n masked) := by
  rw [setLine]
  split
  · exact ⟨⟨h.free.master, h.free.slave⟩, h.master_irr, h.slave_irr⟩
  · exact ⟨⟨h.free.master, h.free.slave⟩, h.master_irr, h.slave_irr⟩

theorem maskCall_quiet (hready : Ready p) (h : Quiet p) (c : MaskCall) : Quiet (maskCall p c) := by
  have hite (b : Prop) [Decidable b] (n : Nat) (masked : Bool) (r : Int) :
      Quiet (if b then (r, setLine p n masked) else (-1, p)).2 := by
    split
    · exact setLine_quiet h n masked
    · exact h
  cases c with
  | enable intId =>
      rw [maskCall, interruptEnable_eq hready]
      exact hite _ _ _ _
  | disable intId =>
      rw [maskCall, interruptDisable_eq hready]
      exact hite _ _ _ _
  | remap master slave => exact ⟨⟨h.free.master, h.free.slave⟩, rfl, rfl⟩

theorem maskCalls_quiet (hready : Ready p) (h : Quiet p) (calls : List MaskCall) :
    Quiet (maskCalls p calls) := by
  induction calls using List.reverseRecOn with
  | nil => exact h
  | append_singleton calls c ih =>
      rw [maskCalls_append]
      exact maskCall_quiet (maskCalls_masks hready calls).1 ih c

/-- The one line raised is pending, if neither it nor the cascade is masked. -/
theorem pending_raise_iff (h : Quiet p) {n m : Nat} (hn : n < 16) (hcas : n ≠ cascadeLine) :
    (p.raise n).Pending m ↔
      m = n ∧ lineMasked p n = false ∧ (n < 8 ∨ lineMasked p cascadeLine = false) := by
  have hcascade : lineMasked p cascadeLine = regBit p.master.imr cascadeLine := rfl
  rw [PicPair.raise, hcascade]
  by_cases hn8 : n < 8
  · rw [if_pos hn8, lineMasked, if_pos hn8, PicPair.Pending]
    by_cases hm8 : m < 8
    · rw [if_pos hm8, Pic.pending, Pic.raise, h.master_irr, UInt8.zero_or, regBit_lineMask hm8,
        Bool.and_eq_true, decide_eq_true_iff, Bool.not_eq_true']
      constructor
      · rintro ⟨-, rfl, hmask⟩
        exact ⟨rfl, hmask, Or.inl hn8⟩
      · rintro ⟨rfl, hmask, -⟩
        exact ⟨hcas, rfl, hmask⟩
    · rw [if_neg hm8, Pic.pending, h.slave_irr]
      constructor
      · rintro ⟨-, -, hpend⟩
        rw [regBit_zero, Bool.false_and] at hpend
        cases hpend
      · rintro ⟨rfl, -, -⟩
        exact absurd hn8 hm8
  · rw [if_neg hn8, lineMasked, if_neg hn8, PicPair.Pending]
    by_cases hm8 : m < 8
    · rw [if_pos hm8, Pic.pending, h.master_irr]
      constructor
      · rintro ⟨-, hpend⟩
        rw [regBit_zero, Bool.false_and] at hpend
        cases hpend
      · rintro ⟨rfl, -, -⟩
        exact absurd hm8 hn8
    · rw [if_neg hm8, Pic.pending, Pic.raise, h.slave_irr, UInt8.zero_or, Bool.and_eq_true,
        Bool.not_eq_true']
      constructor
      · rintro ⟨hm, hmaster, hbit, hmask⟩
        rw [regBit_lineMask (by omega), decide_eq_true_iff] at hbit
        obtain rfl : m = n := by omega
        exact ⟨rfl, hmask, Or.inr hmaster⟩
      · rintro ⟨rfl, hmask, hlow⟩
        refine ⟨hn, hlow.resolve_left hn8, ?_, hmask⟩
        rw [regBit_lineMask (by omega), decide_eq_true rfl]

/-- **Enabling and disabling**: after any calls, a line that is raised is asked
    for if the last call about it, or what was before all of them, leaves it
    unmasked, and for a line of the second controller the last call about the
    cascade does so too; otherwise nothing is. -/
theorem maskCalls_raise_request (hready : Ready p) (hquiet : Quiet p) (calls : List MaskCall)
    {n : Nat} (hn : n < 16) (hcas : n ≠ cascadeLine) :
    ((maskCalls p calls).raise n).request =
      if (lastTold n calls).getD (lineMasked p n) = false ∧
          (n < 8 ∨ (lastTold cascadeLine calls).getD (lineMasked p cascadeLine) = false)
      then some n else none := by
  have hq := maskCalls_quiet hready hquiet calls
  obtain ⟨-, hmasked⟩ := maskCalls_masks hready calls
  have hfree : ((maskCalls p calls).raise n).Free := by
    rw [PicPair.raise]
    split
    · exact ⟨hq.free.master, hq.free.slave⟩
    · exact ⟨hq.free.master, hq.free.slave⟩
  rw [PicPair.request_eq_ite hfree fun m hm => ((pending_raise_iff hq hn hcas).mp hm).1]
  simp only [pending_raise_iff hq hn hcas, hmasked n hn, hmasked cascadeLine (by decide), true_and]

/-- Controllers as a boot with every line masked leaves them. -/
def maskedPair : PicPair :=
  picRemap picOffsetMaster picOffsetSlave
    { master := ⟨0, 0, 0xff, 0x08, 0x04, 0x01, true, false, .ready⟩
      slave := ⟨0, 0, 0xff, 0x70, 0x02, 0x01, true, false, .ready⟩ }

theorem maskedPair_quiet : Quiet maskedPair := ⟨⟨rfl, rfl⟩, rfl, rfl⟩

/-- `INT_ID_PS2MOUSE` alone is not enough. -/
theorem maskCalls_raise_request_mouse :
    ((maskCalls maskedPair [.enable 44]).raise 12).request = none ∧
      ((maskCalls maskedPair [.enable 44, .remap 8 0x70, .enable 34]).raise 12).request =
        some 12 := by
  refine ⟨?_, ?_⟩
  · exact (maskCalls_raise_request (picRemap_ready _ _ _) maskedPair_quiet [.enable 44]
      (by decide : 12 < 16) (by decide)).trans (by decide)
  · exact (maskCalls_raise_request (picRemap_ready _ _ _) maskedPair_quiet
      [.enable 44, .remap 8 0x70, .enable 34] (by decide : 12 < 16) (by decide)).trans (by decide)

end LBoot.Intr
