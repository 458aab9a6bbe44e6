/-
  LBoot.Io.Udiv64

  64-bit division without the compiler's library (`udiv64` in
  src/io/output.c).

  The loop is long division in places of the quotient; nothing is lost in it,
  as the quotient so far, with the places to go, never exceeds the dividend
  (`udiv64Loop_toNat`).  For a dividend of 32 bits the operands are both cut
  to 32 bits, the divisor also where it does not fit.
-/

import LBoot.Lib.LongDivision

namespace LBoot.Io

open LBoot.Lib

/-! ## Model -/

/-- `__builtin_clzll`, defined for what is not 0. -/
def clzll (x : UInt64) : Int := 63 - x.toNat.log2

/-- The loop of `udiv64`, which is left after `n` more iterations: `a` and
    `q`. -/
def udiv64Loop : Nat → UInt64 → UInt64 → UInt64 → UInt64 × UInt64
  | 0, a, _, q => (a, q)
  | n + 1, a, b, q =>
      let q := q <<< 1
      let (a, q) := if a ≥ b then (a - b, q ||| 1) else (a, q)
      udiv64Loop n a (b >>> 1) q

/-- `udiv64`: quotient and `*rem`, unless the CPU divides by zero. -/
def udiv64 (a b : UInt64) : Option (UInt64 × UInt64) :=
  if a < 0x100000000 then
    if b.toUInt32 = 0 then none
    else some ((a.toUInt32 / b.toUInt32).toUInt64, (a.toUInt32 % b.toUInt32).toUInt64)
  else if b > a then some (0, a)
  else
    let shift := clzll (b ||| 1) - clzll (a ||| 1)
    let (a, q) := udiv64Loop (shift + 1).toNat a (b <<< UInt64.ofNat shift.toNat) 0
    some (q, a)

/-! ## The loop -/

/-- One iteration is a place of the division. -/
theorem udiv64Loop_step {a b q : UInt64} (hq : q.toNat * 2 + 1 < 2 ^ 64) :
    ((if a ≥ b then (a - b, q <<< 1 ||| 1) else (a, q <<< 1)).1.toNat,
      (if a ≥ b then (a - b, q <<< 1 ||| 1) else (a, q <<< 1)).2.toNat) =
      divStep b.toNat (a.toNat, q.toNat) := by
  have hshift : (q <<< 1).toNat = 2 * q.toNat := by
    rw [UInt64.toNat_shiftLeft]
    show q.toNat <<< 1 % 2 ^ 64 = 2 * q.toNat
    rw [Nat.shiftLeft_eq, pow_one, Nat.mod_eq_of_lt (by omega), Nat.mul_comm]
  have hor : (q <<< 1 ||| 1).toNat = 2 * q.toNat + 1 := by
    rw [UInt64.toNat_or, hshift]
    exact (Nat.two_pow_add_eq_or_of_lt (i := 1) (Nat.one_lt_two) q.toNat).symm
  rw [divStep]
  split_ifs with hge hle hle
  · rw [UInt64.toNat_sub_of_le _ _ hge, hor]
  · exact absurd (UInt64.le_iff_toNat_le.mp hge) hle
  · exact absurd (UInt64.le_iff_toNat_le.mpr hle) hge
  · rw [hshift]

/-- The loop is long division, as long as `b` is the divisor at its place. -/
theorem udiv64Loop_toNat {A d n : Nat} {a b q : UInt64} (hA : A < 2 ^ 64) (hd : 0 < d)
    (hinv : Places A d n (a.toNat, q.toNat)) (hb : n ≠ 0 → b.toNat = d * 2 ^ (n - 1)) :
    ((udiv64Loop n a b q).1.toNat, (udiv64Loop n a b q).2.toNat) =
      longDivision d n (a.toNat, q.toNat) := by
  induction n generalizing a b q with
  | zero => rfl
  | succ n ih =>
      have hb' : b.toNat = d * 2 ^ n := hb (Nat.succ_ne_zero n)
      -- the quotient has room for this place
      have hq : q.toNat * 2 + 1 < 2 ^ 64 := by
        have hle := hinv.quotient_le hd
        have hpow : q.toNat * 2 ≤ q.toNat * 2 ^ (n + 1) :=
          Nat.mul_le_mul_left _ (Nat.le_self_pow (Nat.succ_ne_zero n) 2)
        dsimp only at hle
        omega
      have hstep := udiv64Loop_step (a := a) (b := b) hq
      rw [hb'] at hstep
      have hinv' := hinv.step
      rw [← hstep] at hinv'
      rw [udiv64Loop, longDivision, ← hstep]
      refine ih hinv' fun hn => ?_
      obtain ⟨m, rfl⟩ := Nat.exists_eq_succ_of_ne_zero hn
      rw [UInt64.toNat_shiftRight, hb']
      show (d * 2 ^ (m + 1)) >>> 1 = d * 2 ^ m
      rw [Nat.shiftRight_one, pow_succ, ← Nat.mul_assoc, Nat.mul_div_cancel _ Nat.two_pos]

/-! ## Both paths -/

section

variable {a b : UInt64}

/-- Where the divisor fits under the dividend, the shift is the distance of
    their highest bits, ... -/
theorem clzll_sub (hb : 1 ≤ b.toNat) (hle : b.toNat ≤ a.toNat) :
    clzll (b ||| 1) - clzll (a ||| 1) = (a.toNat.log2 - b.toNat.log2 : Nat) := by
  have hlog := log2_le_log2 hle
  rw [clzll, clzll, UInt64.toNat_or, UInt64.toNat_or]
  show 63 - ((b.toNat ||| 1).log2 : Int) - (63 - ((a.toNat ||| 1).log2 : Int)) = _
  rw [log2_or_one (by omega), log2_or_one (by omega)]
  omega

/-- ... and loses no bit of the divisor. -/
theorem shiftLeft_toNat (hle : b.toNat ≤ a.toNat) :
    (b <<< UInt64.ofNat (a.toNat.log2 - b.toNat.log2)).toNat =
      b.toNat * 2 ^ (a.toNat.log2 - b.toNat.log2) := by
  have hlog64 : a.toNat.log2 < 64 := by
    by_cases h0 : a.toNat = 0
    · rw [h0]
      decide
    · exact (Nat.log2_lt h0).mpr a.toNat_lt
  have hlt : b.toNat * 2 ^ (a.toNat.log2 - b.toNat.log2) < 2 ^ 64 :=
    (shifted_lt hle).trans_le (Nat.pow_le_pow_right Nat.two_pos hlog64)
  rw [UInt64.toNat_shiftLeft, UInt64.toNat_ofNat', Nat.shiftLeft_eq,
    Nat.mod_mod_of_dvd _ (by decide), Nat.mod_eq_of_lt (by omega : _ < 64), Nat.mod_eq_of_lt hlt]

/-- A divisor above the dividend. -/
theorem div_mod_of_lt (h : a < b) : a / b = 0 ∧ a % b = a := by
  have hlt := UInt64.lt_iff_toNat_lt.mp h
  constructor
  · exact UInt64.toNat_inj.mp (by rw [UInt64.toNat_div, Nat.div_eq_of_lt hlt]; rfl)
  · exact UInt64.toNat_inj.mp (by rw [UInt64.toNat_mod, Nat.mod_eq_of_lt hlt])

/-- The shift-subtract path. -/
theorem udiv64_slow (ha : 0x100000000 ≤ a) (hb : 1 ≤ b) : udiv64 a b = some (a / b, a % b) := by
  rw [udiv64, if_neg (UInt64.not_lt.mpr ha)]
  split_ifs with hgt
  · obtain ⟨hquot, hrem⟩ := div_mod_of_lt hgt
    rw [hquot, hrem]
  · have hle : b.toNat ≤ a.toNat := UInt64.le_iff_toNat_le.mp (UInt64.not_lt.mp hgt)
    have hb1 : 1 ≤ b.toNat := UInt64.le_iff_toNat_le.mp hb
    have hshift := shiftLeft_toNat hle
    have hdividend := lt_shifted_succ (by omega) hle
    dsimp only
    rw [clzll_sub hb1 hle]
    generalize a.toNat.log2 - b.toNat.log2 = k at *
    have hloop := udiv64Loop_toNat (q := 0) a.toNat_lt hb1 (Places.start hdividend) fun _ => hshift
    rw [UInt64.toNat_zero, longDivision_eq hdividend] at hloop
    obtain ⟨hrem, hquot⟩ := Prod.mk.inj hloop
    congr 2
    · exact UInt64.toNat_inj.mp (by rw [UInt64.toNat_div]; exact hquot)
    · exact UInt64.toNat_inj.mp (by rw [UInt64.toNat_mod]; exact hrem)

/-- The fast path takes the low half of the divisor. -/
theorem udiv64_fast (ha : a < 0x100000000) :
    udiv64 a b = if b % 0x100000000 = 0 then none
      else some (a / (b % 0x100000000), a % (b % 0x100000000)) := by
  have hlt : a.toNat < 2 ^ 32 := UInt64.lt_iff_toNat_lt.mp ha
  have hlow : b.toUInt32.toUInt64 = b % 0x100000000 := UInt64.toNat_inj.mp rfl
  have hsame : a.toUInt32.toUInt64 = a :=
    UInt64.toNat_inj.mp (Nat.mod_eq_of_lt hlt)
  have hzero : b.toUInt32 = 0 ↔ b % 0x100000000 = 0 := by
    rw [← hlow]
    exact ⟨fun h => by rw [h]; rfl, fun h => UInt32.toUInt64_inj.mp h⟩
  rw [udiv64, if_pos ha, UInt32.toUInt64_div, UInt32.toUInt64_mod, hlow, hsame]
  exact if_congr hzero rfl rfl

/-- A divisor of 32 bits is its low half. -/
theorem udiv64_fits (ha : a < 0x100000000) (hb : 1 ≤ b) (hb32 : b < 0x100000000) :
    udiv64 a b = some (a / b, a % b) := by
  have hlow : b % 0x100000000 = b :=
    UInt64.toNat_inj.mp (Nat.mod_eq_of_lt (UInt64.lt_iff_toNat_lt.mp hb32))
  rw [udiv64_fast ha, hlow, if_neg]
  rintro rfl
  exact absurd hb (by decide)

/-- By such a divisor all is divided. -/
theorem udiv64_of_lt (hb : 1 ≤ b) (hb32 : b < 0x100000000) :
    udiv64 a b = some (a / b, a % b) := by
  by_cases ha : a < 0x100000000
  · exact udiv64_fits ha hb hb32
  · exact udiv64_slow (UInt64.not_lt.mp ha) hb

/-- One above gives the right result where its low half does so by chance. -/
theorem udiv64_cut (ha : a < 0x100000000) (hb32 : 0x100000000 ≤ b) :
    udiv64 a b = some (a / b, a % b) ↔ a < b % 0x100000000 := by
  obtain ⟨hquot, hrem⟩ := div_mod_of_lt (UInt64.lt_of_lt_of_le ha hb32)
  rw [udiv64_fast ha, hquot, hrem]
  generalize b % 0x100000000 = low
  split_ifs with hzero
  · subst hzero
    constructor
    · intro h
      cases h
    · intro h
      exact absurd h UInt64.not_lt_zero
  · have hpos : 0 < low.toNat := Nat.pos_of_ne_zero fun h => hzero (UInt64.toNat_inj.mp h)
    constructor
    · intro h
      have hself : a % low = a := (Prod.mk.inj (Option.some.inj h)).2
      rw [← hself]
      exact UInt64.lt_iff_toNat_lt.mpr (Nat.mod_lt _ hpos)
    · intro h
      obtain ⟨hquot', hrem'⟩ := div_mod_of_lt h
      rw [hquot', hrem']

end

/-- `udiv64` divides, unless a dividend of 32 bits meets a divisor that does
    not fit into them and whose low half is not above the dividend. -/
theorem udiv64_eq_iff (a b : UInt64) (hb : 1 ≤ b) :
    udiv64 a b = some (a / b, a % b) ↔
      0x100000000 ≤ a ∨ b < 0x100000000 ∨ a < b % 0x100000000 := by
  by_cases ha : 0x100000000 ≤ a
  · exact ⟨fun _ => .inl ha, fun _ => udiv64_slow ha hb⟩
  · have ha := UInt64.not_le.mp ha
    by_cases hb32 : b < 0x100000000
    · exact ⟨fun _ => .inr (.inl hb32), fun _ => udiv64_of_lt hb hb32⟩
    · have hb32 := UInt64.not_lt.mp hb32
      rw [udiv64_cut ha hb32]
      refine ⟨fun h => .inr (.inr h), ?_⟩
      rintro (h | h | h)
      · exact absurd (UInt64.lt_of_le_of_lt h ha) (UInt64.lt_irrefl _)
      · exact absurd (UInt64.lt_of_le_of_lt hb32 h) (UInt64.lt_irrefl _)
      · exact h

theorem udiv64_eq_iff_slow : udiv64 0x123456789abcdef0 0x1000 =
    some (0x123456789abcdef0 / 0x1000, 0x123456789abcdef0 % 0x1000) :=
  (udiv64_eq_iff _ _ (by decide)).mpr (.inl (by decide))

/-- The CPU divides by zero. -/
theorem udiv64_not_divides : udiv64 1 0x100000000 ≠ some (1 / 0x100000000, 1 % 0x100000000) := by
  decide

end LBoot.Io
