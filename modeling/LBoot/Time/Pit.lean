/-
  LBoot.Time.Pit

  The timer (src/time/pit.c).

  `pit_init` writes the reload value through the byte latch of channel 0, so
  that what counts is what the timer makes of the two bytes: a reload value of
  0 counts 65536, and a rate generator does not take 1.  The code divides
  1193180 by the frequency; the clock has two thirds of a hertz more than
  1193181.  So the count is the greatest one that is not too slow for
  frequencies from 19 Hz to half the clock, but for those that divide 1193181
  (`pitInit_period_iff`).
-/

import Mathlib.Order.Bounds.Basic

namespace LBoot.Time

/-! ## The device -/

/-- Channel 0 of an 8254. -/
structure PitChannel where
  /-- the operating mode -/
  mode : UInt8
  bcd : Bool
  /-- which bytes an access moves: 1 the low one, 2 the high one, 3 both -/
  access : UInt8
  /-- the low byte has been written, the high one has not -/
  half : Bool
  low : UInt8
  reload : UInt16
  deriving DecidableEq, Repr

namespace PitChannel

/-- A write to the command port.  Access mode 0 latches the count and leaves
    the channel as it is. -/
def writeCommand (d : PitChannel) (v : UInt8) : PitChannel :=
  if v >>> 6 = 0 ∧ (v >>> 4) &&& 3 ≠ 0 then
    { d with
      mode := (v >>> 1) &&& 7
      bcd := decide (v &&& 1 ≠ 0)
      access := (v >>> 4) &&& 3
      half := false }
  else d

/-- A write to the data port. -/
def writeData (d : PitChannel) (v : UInt8) : PitChannel :=
  if d.access = 1 then { d with reload := v.toUInt16 }
  else if d.access = 2 then { d with reload := v.toUInt16 <<< 8 }
  else if d.half then { d with reload := (v.toUInt16 <<< 8) ||| d.low.toUInt16, half := false }
  else { d with low := v, half := true }

/-- The number of input clocks for one output period of a rate generator that
    counts in binary; it does not work with a count of 1. -/
def period (d : PitChannel) : Option Nat :=
  if d.mode ≠ 2 ∨ d.bcd = true ∨ d.reload = 1 then none
  else if d.reload = 0 then some 65536
  else some d.reload.toNat

end PitChannel

/-! ## pit.c -/

/-- `_get_reload`. -/
def getReload (freq : UInt32) : UInt16 :=
  if freq < 18 then 0xffff
  else if freq > 1193181 then 0x0001
  else (1193180 / freq).toUInt16

/-- The command byte: channel 0, low and high byte, rate generator. -/
def pitCommand : UInt8 := ((2 : UInt8) <<< 1) ||| ((3 : UInt8) <<< 4) ||| ((0 : UInt8) <<< 6)

/-- `pit_init`. -/
def pitInit (freq : UInt32) (d : PitChannel) : PitChannel :=
  let reload := getReload freq
  let d := d.writeCommand pitCommand
  let d := d.writeData reload.toUInt8
  d.writeData (reload >>> 8).toUInt8

/-! ## What it sets up -/

/-- The crystal, in hertz.  The clock of the channel is a twelfth of it. -/
def crystal : Nat := 14318180

/-- The counts of a rate generator whose output is not slower than this. -/
def countsFor (freq : UInt32) : Set Nat :=
  {n | 2 ≤ n ∧ n ≤ 65536 ∧ 12 * (n * freq.toNat) ≤ crystal}

theorem or_bytes (v : UInt16) :
    ((v >>> 8).toUInt8.toUInt16 <<< 8) ||| v.toUInt8.toUInt16 = v := by
  apply UInt16.toBitVec_inj.mp
  apply BitVec.eq_of_getLsbD_eq
  intro i hi
  simp only [UInt16.toBitVec_or, UInt16.toBitVec_shiftLeft, UInt8.toBitVec_toUInt16,
    UInt16.toBitVec_toUInt8, UInt16.toBitVec_shiftRight]
  by_cases h : i < 8
  · simp [h, hi]
  · -- the bit comes from the high byte, whose bit it is at i - 8
    have hlow : i - 8 < 8 := by omega
    have hsum : 8 + (i - 8) = i := by omega
    simp [h, hi, hlow, hsum]

/-- From any state of the channel, also between the two bytes of another
    value. -/
theorem pitInit_eq (freq : UInt32) (d : PitChannel) :
    pitInit freq d = { d with
      mode := 2, bcd := false, access := 3, half := false, low := (getReload freq).toUInt8,
      reload := getReload freq } := by
  have hcommand : d.writeCommand pitCommand = { d with
      mode := 2, bcd := false, access := 3, half := false } := rfl
  have hlow (d : PitChannel) (v : UInt8) (h3 : d.access = 3) (hhalf : d.half = false) :
      d.writeData v = { d with low := v, half := true } := by
    rw [PitChannel.writeData, h3, hhalf, if_neg (by decide), if_neg (by decide),
      if_neg Bool.false_ne_true]
  have hhigh (d : PitChannel) (v : UInt8) (h3 : d.access = 3) (hhalf : d.half = true) :
      d.writeData v =
        { d with reload := (v.toUInt16 <<< 8) ||| d.low.toUInt16, half := false } := by
    rw [PitChannel.writeData, h3, hhalf, if_neg (by decide), if_neg (by decide), if_pos rfl]
  rw [pitInit, hcommand, hlow ⟨2, false, 3, false, d.low, d.reload⟩ _ rfl rfl, hhigh _ _ rfl rfl,
    or_bytes]

/-- The value that `_get_reload` returns. -/
theorem getReload_toNat (freq : UInt32) :
    (getReload freq).toNat =
      if freq.toNat < 18 then 65535
      else if freq.toNat > 1193181 then 1 else 1193180 / freq.toNat % 65536 := by
  have hmin : (18 : UInt32).toNat = 18 := rfl
  have hmax : (1193181 : UInt32).toNat = 1193181 := rfl
  have hnum : (1193180 : UInt32).toNat = 1193180 := rfl
  rw [getReload]
  simp only [UInt32.lt_iff_toNat_lt, gt_iff_lt, hmin, hmax]
  split
  · rfl
  · split
    · rfl
    · rw [UInt32.toNat_toUInt16, UInt32.toNat_div, hnum]

/-- A period of the channel behind `pit_init`. -/
theorem pitInit_period {freq : UInt32} {d : PitChannel} {n : Nat} :
    (pitInit freq d).period = some n ↔ (getReload freq).toNat ≠ 1 ∧
      n = if (getReload freq).toNat = 0 then 65536 else (getReload freq).toNat := by
  rw [pitInit_eq, PitChannel.period]
  simp only [← UInt16.toNat_inj, UInt16.toNat_zero, UInt16.toNat_one, ne_eq, not_true_eq_false,
    Bool.false_eq_true, false_or]
  split
  · next hone => simp [hone]
  · next hone => split <;> simp [hone, eq_comm]

/-- Nothing slower can be counted. -/
theorem not_isGreatest_of_low {freq : UInt32} (hlow : freq.toNat ≤ 18) {n : Nat} (hn : n < 65536) :
    ¬ IsGreatest (countsFor freq) n := by
  intro h
  have hmem : 65536 ∈ countsFor freq := ⟨by decide, by decide, by rw [crystal]; omega⟩
  have hle := h.2 hmem
  omega

/-- A quotient is greatest, unless one more is still fast enough. -/
theorem isGreatest_quotient {freq : UInt32} (hlow : 19 ≤ freq.toNat) (hhigh : freq.toNat ≤ 596590) :
    IsGreatest (countsFor freq) (1193180 / freq.toNat) ↔ ¬ freq.toNat ∣ 1193181 := by
  have hlt : 1193180 / freq.toNat < 65536 := (Nat.div_lt_iff_lt_mul (by omega)).mpr (by omega)
  have hge : 2 ≤ 1193180 / freq.toNat := (Nat.le_div_iff_mul_le (by omega)).mpr (by omega)
  have hmul := Nat.div_mul_le_self 1193180 freq.toNat
  constructor
  · -- one more than the quotient would be fast enough still
    rintro h ⟨m, hm⟩
    have hcomm : m * freq.toNat = 1193181 := by rw [Nat.mul_comm, ← hm]
    have hlarge : m ≤ 65536 := by
      by_contra hover
      have hover : 65536 * 19 ≤ m * freq.toNat := Nat.mul_le_mul (by omega) hlow
      omega
    have htwo : 2 ≤ m := by
      by_contra hsmall
      have hsmall : m * freq.toNat ≤ 1 * 596590 := Nat.mul_le_mul (by omega) hhigh
      omega
    have hle : m ≤ 1193180 / freq.toNat := h.2 ⟨htwo, hlarge, by rw [hcomm, crystal]; decide⟩
    have hmono := Nat.mul_le_mul_right freq.toNat hle
    omega
  · intro hdvd
    refine ⟨⟨hge, hlt.le, by rw [crystal]; omega⟩, fun n hn => ?_⟩
    obtain ⟨-, -, hn⟩ := hn
    rw [crystal] at hn
    have hprod : n * freq.toNat ≤ 1193181 := by omega
    rcases Nat.lt_or_eq_of_le hprod with hlt | heq
    · exact (Nat.le_div_iff_mul_le (by omega)).mpr (by omega)
    · exact absurd (⟨n, by rw [Nat.mul_comm, heq]⟩) hdvd

/-- **The period** that `pit_init` programs, from any state of the channel:
    binary counting as a rate generator, with the greatest count that makes it
    no slower than asked for, exactly for the frequencies from 19 Hz to half
    the clock that do not divide 1193181. -/
theorem pitInit_period_iff (freq : UInt32) (d : PitChannel) :
    (pitInit freq d).mode = 2 ∧ (pitInit freq d).bcd = false ∧ (pitInit freq d).half = false ∧
      ((∃ n, (pitInit freq d).period = some n ∧ IsGreatest (countsFor freq) n) ↔
        19 ≤ freq.toNat ∧ freq.toNat ≤ 596590 ∧ ¬ freq.toNat ∣ 1193181) := by
  refine ⟨by rw [pitInit_eq], by rw [pitInit_eq], by rw [pitInit_eq], ?_⟩
  simp only [pitInit_period]
  have hreload := getReload_toNat freq
  rcases Nat.lt_or_ge freq.toNat 19 with hlow | hlow
  · -- 65535, or 751 at 18 Hz
    have hbounds : 0 < (getReload freq).toNat ∧ (getReload freq).toNat < 65536 := by
      rw [hreload]
      split
      · decide
      · obtain heq : freq.toNat = 18 := by omega
        rw [heq]
        decide
    refine iff_of_false ?_ fun h => by omega
    rintro ⟨n, ⟨-, rfl⟩, hgreatest⟩
    rw [if_neg (by omega)] at hgreatest
    exact not_isGreatest_of_low (by omega) hbounds.2 hgreatest
  rw [if_neg (by omega)] at hreload
  rcases Nat.lt_or_ge 596590 freq.toNat with hhigh | hhigh
  · -- a quotient of 1, or 0 at 1193181 Hz
    refine iff_of_false ?_ fun h => by omega
    rintro ⟨n, ⟨hone, rfl⟩, hgreatest⟩
    obtain ⟨-, -, hfast⟩ := hgreatest.1
    rw [crystal] at hfast
    split_ifs at hreload hfast with hover hzero
    · omega
    · omega
    · omega
    · have hq : 1193180 / freq.toNat ≤ 1 := (Nat.div_le_iff_le_mul_add_pred (by omega)).mpr (by omega)
      rw [Nat.mod_eq_of_lt (by omega)] at hreload
      omega
  · have hlt : 1193180 / freq.toNat < 65536 := (Nat.div_lt_iff_lt_mul (by omega)).mpr (by omega)
    have hge : 2 ≤ 1193180 / freq.toNat := (Nat.le_div_iff_mul_le (by omega)).mpr (by omega)
    rw [if_neg (by omega), Nat.mod_eq_of_lt hlt] at hreload
    rw [hreload, if_neg (by omega), ← isGreatest_quotient hlow hhigh]
    constructor
    · rintro ⟨n, ⟨-, rfl⟩, hgreatest⟩
      exact ⟨hlow, hhigh, hgreatest⟩
    · rintro ⟨-, -, hgreatest⟩
      exact ⟨_, ⟨by omega, rfl⟩, hgreatest⟩

end LBoot.Time
