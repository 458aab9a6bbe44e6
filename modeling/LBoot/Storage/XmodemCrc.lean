/-
  LBoot.Storage.XmodemCrc

  The CRC of the XMODEM receiver against the standard's.

  In the inner loop of `_xmodem_crc16` the two branches are exchanged: the
  polynomial is added where the bit shifted out is zero.  That is the check of
  the inverted data (`xmodemCrc16_toBitVec`).  What inverting the data does
  depends only on how many bytes there are, and it has the period 32767
  (`xmodemCrc16_standard_iff`).

  The two bytes behind a block are compared as the machine loads them, low
  byte first.  On a block of 128 or 1024 bytes that does not make up for the
  other: the standard's trailer is always refused (`standard_trailer_refused`).
-/

import LBoot.Lib.Gf2
import LBoot.Storage.XmodemReject
import Mathlib.Tactic.NormNum.Prime

namespace LBoot.Storage

open LBoot.Lib Polynomial

/-! ## The standard -/

/-- CRC-16/XMODEM: the remainder of the data, 16 places further up. -/
noncomputable def standardCrc16 (data : List UInt8) : (ZMod 2)[X] :=
  (message (data.map UInt8.toBitVec) * X ^ 16) %ₘ (X ^ 16 + X ^ 12 + X ^ 5 + 1)

/-- With the standard's CRC behind `data`, high byte first, and only then, the
    block passes. -/
def TrailerStandard (data : List UInt8) : Prop :=
  ∀ (ι : Type) (D : Dev ι) (dev : ι) (p : XmodemParams) (hi lo : UInt8),
    p.chksumType = .crc16 → (D.read dev p.chksumType.len p.timeout).1 = [hi, lo] →
      ((xmodemChecksum D dev p data).1 = true ↔
        poly (hi.toBitVec ++ lo.toBitVec) = standardCrc16 data)

/-- As long as a block that a header announces. -/
def IsBlock (data : List UInt8) : Prop := ∃ pfx, headBlockSz pfx = some data.length

theorem modulus_crc16 : modulus 0x1021#16 = (X ^ 16 + X ^ 12 + X ^ 5 + 1 : (ZMod 2)[X]) := by
  have hpoly : poly 0x1021#16 = (X ^ 12 + X ^ 5 + 1 : (ZMod 2)[X]) := by
    simp [poly, Finset.sum_range_succ]
    ring
  rw [modulus, hpoly]
  ring

theorem standardCrc16_eq (data : List UInt8) :
    standardCrc16 data = poly (crc 0x1021#16 (data.map UInt8.toBitVec)) := by
  rw [crc_eq_modByMonic (by decide), modulus_crc16, standardCrc16]

/-! ## The program's CRC -/

theorem crc16Bit_toBitVec (c : UInt16) : (crc16Bit c).toBitVec = mulXNot 0x1021#16 c.toBitVec := by
  have htop : c &&& 0x8000 ≠ 0 ↔ c.toBitVec.msb = true := by
    have hbit : 0x8000#16 = BitVec.twoPow 16 15 := rfl
    rw [ne_eq, ← UInt16.toBitVec_inj, UInt16.toBitVec_and, BitVec.msb_eq_getLsbD_last]
    show ¬ c.toBitVec &&& 0x8000#16 = 0#16 ↔ _
    rw [hbit, BitVec.and_twoPow]
    split
    · next h => simpa using h
    · next h => simpa using h
  rw [crc16Bit, mulXNot]
  split
  · next h =>
      rw [if_pos (htop.mp h)]
      simp
  · next h =>
      rw [if_neg (fun hm => h (htop.mpr hm))]
      simp

/-- **The program's CRC** is that of the inverted data. -/
theorem xmodemCrc16_toBitVec (data : List UInt8) :
    (xmodemCrc16 data).toBitVec = crc 0x1021#16 ((data.map UInt8.toBitVec).map (~~~·)) := by
  have hbits : ∀ (n : Nat) (c : UInt16),
      (Nat.iterate crc16Bit n c).toBitVec = (mulXNot 0x1021#16)^[n] c.toBitVec := by
    intro n
    induction n with
    | zero => exact fun _ => rfl
    | succ n ih =>
        intro c
        rw [Function.iterate_succ_apply, ih, crc16Bit_toBitVec, Function.iterate_succ_apply]
  have hbyte : ∀ (c : UInt16) (b : UInt8),
      (Nat.iterate crc16Bit 8 (c ^^^ (b.toUInt16 <<< (8 : UInt16)))).toBitVec
        = crcStep (mulX 0x1021#16) c.toBitVec (~~~b.toBitVec) := by
    intro c b
    rw [hbits, ← crcStep_mulXNot (by decide), crcStep, UInt16.toBitVec_xor,
      UInt16.toBitVec_shiftLeft, UInt8.toBitVec_toUInt16]
    rfl
  suffices hfold : ∀ c : UInt16,
      (data.foldl (fun crc b => Nat.iterate crc16Bit 8 (crc ^^^ (b.toUInt16 <<< (8 : UInt16)))) c).toBitVec
        = ((data.map UInt8.toBitVec).map (~~~·)).foldl (crcStep (mulX 0x1021#16)) c.toBitVec from
    hfold 0
  induction data with
  | nil => exact fun _ => rfl
  | cons b data ih =>
      intro c
      rw [List.foldl_cons, ih, hbyte, List.map_cons, List.map_cons, List.foldl_cons]

/-- How far it is from the standard's. -/
theorem xmodemCrc16_eq_xor (data : List UInt8) :
    (xmodemCrc16 data).toBitVec = crc 0x1021#16 (data.map UInt8.toBitVec)
      ^^^ (mulXNot 0x1021#16)^[8 * data.length] 0#16 := by
  rw [xmodemCrc16_toBitVec, crc_not (by decide), List.length_map]

theorem iterate_eq_jump (n : Nat) (digits : List Bool)
    (hn : digits.foldl (fun n d => Nat.bit d n) 0 = n) :
    (mulXNot 0x1021#16)^[n] 0#16 = (jump 0x1021#16 digits).1 := by
  rw [jump_eq (by decide), hn]

/-- The register that is off on its own comes back to zero after 65534 steps,
    and not after any of the divisors of that. -/
theorem minimalPeriod_mulXNot :
    Function.minimalPeriod (mulXNot 0x1021#16) 0#16 = 65534 := by
  apply minimalPeriod_eq_of_prime
  · show (mulXNot 0x1021#16)^[65534] 0#16 = 0#16
    rw [iterate_eq_jump 65534 (List.replicate 15 true ++ [false]) rfl]
    decide +kernel
  · intro q hq hdvd hper
    have hcases : q = 2 ∨ q = 7 ∨ q = 31 ∨ q = 151 := by
      rw [show 65534 = 2 * (7 * (31 * 151)) by rfl, hq.dvd_mul, hq.dvd_mul, hq.dvd_mul,
        Nat.prime_dvd_prime_iff_eq hq (by norm_num), Nat.prime_dvd_prime_iff_eq hq (by norm_num),
        Nat.prime_dvd_prime_iff_eq hq (by norm_num), Nat.prime_dvd_prime_iff_eq hq (by norm_num)]
        at hdvd
      exact hdvd
    change (mulXNot 0x1021#16)^[65534 / q] 0#16 = 0#16 at hper
    rcases hcases with rfl | rfl | rfl | rfl
    · rw [iterate_eq_jump (65534 / 2) (List.replicate 15 true) rfl] at hper
      exact absurd hper (by decide +kernel)
    · rw [iterate_eq_jump (65534 / 7) [true, false, false, true, false, false, true, false, false,
        true, false, false, true, false] rfl] at hper
      exact absurd hper (by decide +kernel)
    · rw [iterate_eq_jump (65534 / 31) [true, false, false, false, false, true, false, false, false,
        false, true, false] rfl] at hper
      exact absurd hper (by decide +kernel)
    · rw [iterate_eq_jump (65534 / 151) [true, true, false, true, true, false, false, true, false] rfl] at hper
      exact absurd hper (by decide +kernel)

/-- The program's CRC is the standard's on these lengths only. -/
theorem xmodemCrc16_eq_iff (data : List UInt8) :
    poly (xmodemCrc16 data).toBitVec = standardCrc16 data ↔ 32767 ∣ data.length := by
  have hper : (mulXNot 0x1021#16)^[8 * data.length] 0#16 = 0#16 ↔ 65534 ∣ 8 * data.length := by
    rw [← minimalPeriod_mulXNot]
    exact Function.isPeriodicPt_iff_minimalPeriod_dvd
  have hxor : crc 0x1021#16 (data.map UInt8.toBitVec) ^^^ (mulXNot 0x1021#16)^[8 * data.length] 0#16
      = crc 0x1021#16 (data.map UInt8.toBitVec) ↔
        (mulXNot 0x1021#16)^[8 * data.length] 0#16 = 0#16 := by
    rw [← BitVec.xor_right_inj (crc 0x1021#16 (data.map UInt8.toBitVec)) (y := 0#16), BitVec.xor_zero]
  have hdvd : 2 * 32767 ∣ 2 * (4 * data.length) ↔ 32767 ∣ data.length := by
    rw [Nat.mul_dvd_mul_iff_left Nat.two_pos]
    exact Nat.Coprime.dvd_mul_left (by decide)
  rw [← Nat.mul_assoc] at hdvd
  rw [standardCrc16_eq, poly_injective.eq_iff, xmodemCrc16_eq_xor, hxor, hper]
  exact hdvd

/-! ## The trailer -/

/-- The trailer is taken low byte first. -/
theorem chksumMatches_crc16 (data : List UInt8) (hi lo : UInt8) :
    chksumMatches .crc16 data [hi, lo] = true ↔
      lo.toBitVec ++ hi.toBitVec = (xmodemCrc16 data).toBitVec := by
  have hload : (hi.toUInt16 ||| (lo.toUInt16 <<< (8 : UInt16))).toBitVec
      = lo.toBitVec ++ hi.toBitVec := by
    rw [UInt16.toBitVec_or, UInt16.toBitVec_shiftLeft, UInt8.toBitVec_toUInt16,
      UInt8.toBitVec_toUInt16, BitVec.append_def, BitVec.shiftLeftZeroExtend_eq,
      BitVec.setWidth'_eq, BitVec.or_comm]
    rfl
  rw [chksumMatches, beq_iff_eq, ← hload, UInt16.toBitVec_inj]
  rfl

/-- The two readings of a trailer never differ by a word whose bytes differ. -/
theorem append_ne_xor {hi lo : BitVec 8} {k : BitVec 16} (hk : k.getLsbD 2 ≠ k.getLsbD 10) :
    lo ++ hi ≠ (hi ++ lo) ^^^ k := by
  intro heq
  have hlow := congrArg (BitVec.getLsbD · 2) heq
  have hhigh := congrArg (BitVec.getLsbD · 10) heq
  rw [BitVec.getLsbD_xor, BitVec.getLsbD_append, BitVec.getLsbD_append] at hlow hhigh
  apply hk
  simp only [Nat.reduceLT, if_true, if_false, Nat.reduceSub] at hlow hhigh
  calc k.getLsbD 2
      = (lo.getLsbD 2 ^^ (lo.getLsbD 2 ^^ k.getLsbD 2)) := by rw [← Bool.xor_assoc, Bool.xor_self, Bool.false_xor]
    _ = (lo.getLsbD 2 ^^ hi.getLsbD 2) := by rw [← hlow]
    _ = ((hi.getLsbD 2 ^^ k.getLsbD 10) ^^ hi.getLsbD 2) := by rw [← hhigh]
    _ = k.getLsbD 10 := by rw [Bool.xor_comm, ← Bool.xor_assoc, Bool.xor_self, Bool.false_xor]

/-- **A block with the standard's trailer** is refused. -/
theorem standard_trailer_refused {ι : Type*} {D : Dev ι} {dev : ι} {p : XmodemParams}
    {data : List UInt8} {hi lo : UInt8} (hblock : IsBlock data) (hty : p.chksumType = .crc16)
    (hread : (D.read dev p.chksumType.len p.timeout).1 = [hi, lo])
    (hcrc : poly (hi.toBitVec ++ lo.toBitVec) = standardCrc16 data) :
    (xmodemChecksum D dev p data).1 = false := by
  have hk : ((mulXNot 0x1021#16)^[8 * data.length] 0#16).getLsbD 2
      ≠ ((mulXNot 0x1021#16)^[8 * data.length] 0#16).getLsbD 10 := by
    obtain ⟨pfx, hsz⟩ := hblock
    rw [headBlockSz] at hsz
    split_ifs at hsz
    · rw [← Option.some.inj hsz, iterate_eq_jump (8 * 128) (true :: List.replicate 10 false) rfl]
      decide +kernel
    · rw [← Option.some.inj hsz, iterate_eq_jump (8 * 1024) (true :: List.replicate 13 false)
        (by decide)]
      decide +kernel
  by_contra hpass
  rw [Bool.not_eq_false, xmodemChecksum_iff, hread, hty, chksumMatches_crc16,
    xmodemCrc16_eq_xor] at hpass
  rw [standardCrc16_eq] at hcrc
  exact append_ne_xor hk (hpass.2.trans (congrArg (· ^^^ _) (poly_injective hcrc).symm))

/-- The data for which the program does what the standard says. -/
def MeetsStandard (data : List UInt8) : Prop :=
  poly (xmodemCrc16 data).toBitVec = standardCrc16 data ∧ (IsBlock data → TrailerStandard data)

/-- A trailer in the standard's form. -/
theorem exists_standard_trailer (data : List UInt8) :
    ∃ hi lo : UInt8, poly (hi.toBitVec ++ lo.toBitVec) = standardCrc16 data := by
  rw [standardCrc16_eq]
  generalize crc 0x1021#16 (data.map UInt8.toBitVec) = c
  refine ⟨⟨c.extractLsb' 8 8⟩, ⟨c.extractLsb' 0 8⟩, congrArg poly ?_⟩
  apply BitVec.eq_of_getLsbD_eq
  intro i hi
  rw [BitVec.getLsbD_append, BitVec.getLsbD_extractLsb', BitVec.getLsbD_extractLsb']
  split
  · next hlow => simp [hlow]
  · next hhigh =>
      rw [Nat.add_sub_of_le (Nat.le_of_not_lt hhigh)]
      simp [show i - 8 < 8 by omega]

/-- **The CRC of a receiver** that follows the standard is the program's on
    the lengths that 32767 divides.  A block has no such length, and on no
    block does the program take the trailer the standard sends. -/
theorem xmodemCrc16_standard_iff (data : List UInt8) :
    (MeetsStandard data ↔ 32767 ∣ data.length) ∧ ¬ (IsBlock data ∧ TrailerStandard data) := by
  have hblock : ¬ (IsBlock data ∧ TrailerStandard data) := by
    rintro ⟨hblock, hstd⟩
    obtain ⟨hi, lo, hcrc⟩ := exists_standard_trailer data
    have hread : (streamDev.read [hi, lo] ChksumType.crc16.len 0).1 = [hi, lo] := rfl
    have hpass := (hstd _ streamDev [hi, lo] ⟨0, .crc16, 0, 0, 0, 0, 0⟩ hi lo rfl hread).mpr hcrc
    rw [standard_trailer_refused hblock rfl hread hcrc] at hpass
    cases hpass
  refine ⟨⟨fun hmeets => (xmodemCrc16_eq_iff data).mp hmeets.1, fun hdvd => ?_⟩, hblock⟩
  refine ⟨(xmodemCrc16_eq_iff data).mpr hdvd, fun ⟨pfx, hsz⟩ => ?_⟩
  rw [headBlockSz] at hsz
  split_ifs at hsz
  · rw [← Option.some.inj hsz] at hdvd
    exact absurd hdvd (by decide)
  · rw [← Option.some.inj hsz] at hdvd
    exact absurd hdvd (by decide)

/-- The CRC of one zero byte is zero, not what the program computes. -/
theorem xmodemCrc16_zero_byte : ¬ ∀ data, MeetsStandard data := by
  intro hall
  have hcrc := (hall [0]).1
  rw [standardCrc16_eq, poly_injective.eq_iff] at hcrc
  exact absurd hcrc (by decide +kernel)

end LBoot.Storage
