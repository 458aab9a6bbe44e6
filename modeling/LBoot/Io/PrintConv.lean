/-
  LBoot.Io.PrintConv

  The integer conversions of `_print`, compared with those of C
  (src/io/output.c).

  Here the sign is written in front of the padding and not counted in the
  width, `-` is stored and never looked at, signs are written for unsigned
  conversions, too, and the argument of `%lu` is sign-extended
  (`print_printed_iff`).
-/

import LBoot.Io.Print

namespace LBoot.Io

open LBoot.Lib

/-! ## Reading a directive -/

/-- More iterations than characters make no difference. -/
theorem directivesLoop_length {n m : Nat} {isInSpec : Bool} {s : PrintSpec} {format : List Char}
    (hn : format.length ≤ n) (hm : format.length ≤ m) :
    directivesLoop n isInSpec s format = directivesLoop m isInSpec s format := by
  induction n generalizing m isInSpec s format with
  | zero =>
      rw [List.eq_nil_of_length_eq_zero (Nat.le_zero.mp hn), directivesLoop_nil, directivesLoop_nil]
  | succ n ih =>
      cases format with
      | nil => rw [directivesLoop_nil, directivesLoop_nil]
      | cons c format =>
          obtain ⟨m, rfl⟩ := Nat.exists_eq_succ_of_ne_zero (Nat.ne_of_gt (Nat.lt_of_lt_of_le
            (Nat.zero_lt_succ _) hm))
          have hn' := Nat.le_of_succ_le_succ hn
          have hm' := Nat.le_of_succ_le_succ hm
          have hset := setSpec_length s c format
          rw [directivesLoop, directivesLoop, ih hn' hm', ih hn' hm', ih hn' hm',
            ih (hset.trans hn') (hset.trans hm')]

/-- The directives from here on. -/
def readFrom (isInSpec : Bool) (s : PrintSpec) (format : List Char) : List Directive :=
  directivesLoop format.length isInSpec s format

section

variable {s : PrintSpec} {c : Char} {format : List Char}

theorem readFrom_percent : readFrom false s ('%' :: format) = readFrom true s format := rfl

theorem readFrom_conv {k : Conversion} (hk : conversion c = some k) :
    readFrom true s (c :: format) = .conv s k :: readFrom false {} format := by
  have hc : c ≠ '%' := by
    rintro rfl
    cases hk
  show directivesLoop (format.length + 1) true s (c :: format) = _
  rw [directivesLoop, if_neg (by decide), if_neg hc, hk]
  rfl

theorem readFrom_set (hc : c ≠ '%') (hk : conversion c = none) :
    readFrom true s (c :: format) = readFrom true (setSpec s c format).1 (setSpec s c format).2 := by
  show directivesLoop (format.length + 1) true s (c :: format) = _
  rw [directivesLoop, if_neg (by decide), if_neg hc, hk]
  exact directivesLoop_length (setSpec_length s c format) (Nat.le_refl _)

end

/-- These flags set. -/
def withFlags (fs : List CFlag) (flags : PrintFlags) : PrintFlags :=
  { flags with
    padzero := flags.padzero || decide (.zero ∈ fs)
    possign := flags.possign || decide (.plus ∈ fs)
    posspace := flags.posspace || decide (.space ∈ fs)
    leftalign := flags.leftalign || decide (.minus ∈ fs) }

theorem readFrom_flags (fs : List CFlag) (s : PrintSpec) (format : List Char) :
    readFrom true s (fs.map CFlag.char ++ format) =
      readFrom true { s with flags := withFlags fs s.flags } format := by
  induction fs generalizing s with
  | nil => simp [withFlags]
  | cons f fs ih =>
      have hstep : readFrom true s (f.char :: (fs.map CFlag.char ++ format)) =
          readFrom true { s with flags := withFlags [f] s.flags }
            (fs.map CFlag.char ++ format) := by
        cases f with
        | minus | zero | plus | space =>
            rw [CFlag.char, readFrom_set (by decide) rfl]
            simp [setSpec, withFlags]
      rw [List.map_cons, List.cons_append, hstep, ih]
      congr 2
      cases f with
      | minus | zero | plus | space => simp [withFlags]

/-- `_get_dec` reads a number up to the first character that is no digit. -/
theorem getDec_append {ds rest : List Char} (hds : ∀ c ∈ ds, '0' ≤ c ∧ c ≤ '9')
    (hrest : ∀ c ∈ rest.head?, ¬ ('0' ≤ c ∧ c ≤ '9')) (n : Nat) :
    getDec n (ds ++ rest) = (Nat.ofDigitChars 10 ds n, rest) := by
  induction ds generalizing n with
  | nil =>
      cases rest with
      | nil => rfl
      | cons c rest =>
          rw [List.nil_append, getDec, if_neg (hrest c rfl)]
          rfl
  | cons c ds ih =>
      rw [List.cons_append, getDec, if_pos (hds c List.mem_cons_self),
        ih fun c hc => hds c (List.mem_cons_of_mem _ hc), Nat.ofDigitChars_cons, Nat.mul_comm n]

theorem readFrom_width {w : Nat} (hw : 0 < w) (hw256 : w < 256) (s : PrintSpec)
    {rest : List Char} (hrest : ∀ c ∈ rest.head?, ¬ ('0' ≤ c ∧ c ≤ '9')) :
    readFrom true s (Nat.toDigits 10 w ++ rest) = readFrom true { s with width := w } rest := by
  have hnumeral : numeral false 10 w = Nat.toDigits 10 w := by simp [numeral]
  have hdigits : ∀ c ∈ Nat.toDigits 10 w, '0' ≤ c ∧ c ≤ '9' := by
    have hall : ∀ r < 10, '0' ≤ r.digitChar ∧ r.digitChar ≤ '9' := by decide
    rw [← hnumeral]
    exact forall_mem_numeral (by decide) fun r hr => hall r hr
  have hdec := getDec_append hdigits hrest 0
  rw [Nat.ofDigitChars_ten_toDigits] at hdec
  obtain ⟨r, hr, hr10, hhead⟩ := @head_numeral false 10 w (by decide) hw
  rw [hnumeral] at hhead
  obtain ⟨ds, hds⟩ := List.head?_eq_some_iff.mp hhead
  rw [hds, List.cons_append] at hdec ⊢
  -- the first digit is not 0, and so begins a width
  have hset : ∀ c : Char, c ∈ ['1', '2', '3', '4', '5', '6', '7', '8', '9'] →
      c ≠ '%' ∧ conversion c = none ∧ setSpec s c (ds ++ rest) =
        ({ s with width := (getDec 0 (c :: (ds ++ rest))).1 % 256 },
          (getDec 0 (c :: (ds ++ rest))).2) := by
    intro c hc
    simp only [List.mem_cons, List.not_mem_nil, or_false] at hc
    rcases hc with rfl | rfl | rfl | rfl | rfl | rfl | rfl | rfl | rfl <;>
      exact ⟨by decide, rfl, rfl⟩
  have hfirst : ∀ r < 10, 0 < r →
      r.digitChar ∈ ['1', '2', '3', '4', '5', '6', '7', '8', '9'] := by decide
  obtain ⟨hc, hk, heq⟩ := hset _ (hfirst r hr10 hr)
  show readFrom true s (r.digitChar :: (ds ++ rest)) = _
  have hdec' : getDec 0 (r.digitChar :: (ds ++ rest)) = (w, rest) := hdec
  rw [readFrom_set hc hk, heq, hdec', Nat.mod_eq_of_lt hw256]

/-- `size` for a length modifier. -/
def lengthSize : CLength → Int
  | .hh => -2
  | .h => -1
  | .none => 0
  | .l => 1
  | .ll => 2

theorem readFrom_length (len : CLength) {s : PrintSpec} (hs : s.size = 0) (format : List Char) :
    readFrom true s (len.text ++ format) =
      readFrom true { s with size := lengthSize len } format := by
  have hh : ∀ s format, readFrom true s ('h' :: format) =
      readFrom true { s with size := if s.size > -2 then s.size - 1 else s.size } format :=
    fun s format => readFrom_set (by decide) rfl
  have hl : ∀ s format, readFrom true s ('l' :: format) =
      readFrom true { s with size := if s.size < 2 then s.size + 1 else s.size } format :=
    fun s format => readFrom_set (by decide) rfl
  obtain ⟨size, width, precision, flags⟩ := s
  obtain rfl : size = 0 := hs
  cases len with
  | hh =>
      show readFrom true _ ('h' :: 'h' :: format) = _
      rw [hh, hh]
      rfl
  | h =>
      show readFrom true _ ('h' :: format) = _
      rw [hh]
      rfl
  | none => rfl
  | l =>
      show readFrom true _ ('l' :: format) = _
      rw [hl]
      rfl
  | ll =>
      show readFrom true _ ('l' :: 'l' :: format) = _
      rw [hl, hl]
      rfl

/-- The case of a conversion. -/
def convCase : CConv → Conversion
  | .d | .i => .dec false
  | .u => .dec true
  | .x => .hex false
  | .X => .hex true
  | .o => .oct

/-- What a directive sets. -/
def convSpec (d : CDirective) : PrintSpec :=
  { size := lengthSize d.length, width := d.width, flags := withFlags d.flags {} }

theorem directives_text (d : CDirective) (hw : d.width < 256) :
    directives d.text = [.conv (convSpec d) (convCase d.conv)] := by
  have hconv : conversion d.conv.char = some (convCase d.conv) := by
    cases d.conv with
    | d | i | u | x | X | o => rfl
  -- behind the width comes no digit
  have hrest : ∀ c ∈ (d.length.text ++ [d.conv.char]).head?, ¬ ('0' ≤ c ∧ c ≤ '9') := by
    have hall : ∀ (len : CLength) (k : CConv),
        (len.text ++ [k.char]).head? ∈ ['h', 'l', 'd', 'i', 'u', 'x', 'X', 'o'].map some := by
      intro len k
      cases len <;> cases k <;> decide
    intro c hc
    have hmem := hall d.length d.conv
    rw [hc] at hmem
    have hnone : ∀ c ∈ ['h', 'l', 'd', 'i', 'u', 'x', 'X', 'o'], ¬ ('0' ≤ c ∧ c ≤ '9') := by simp
    exact hnone c (by simpa using hmem)
  have hwidth : ∀ s : PrintSpec, s.width = 0 → readFrom true s
      ((if d.width = 0 then [] else Nat.toDigits 10 d.width) ++
        (d.length.text ++ [d.conv.char])) =
      readFrom true { s with width := d.width } (d.length.text ++ [d.conv.char]) := by
    intro s hs
    split_ifs with h0
    · rw [h0, ← hs]
      rfl
    · exact readFrom_width (Nat.pos_of_ne_zero h0) hw s hrest
  show readFrom false {} ('%' :: _) = _
  rw [readFrom_percent, readFrom_flags, hwidth _ rfl, readFrom_length _ rfl, readFrom_conv hconv]
  rfl

/-! ## The value -/

/-- The bits an argument is passed in. -/
def argBits : CLength → List UInt32 → Nat
  | .ll, varg => (varg.getD 0 0).toNat + (varg.getD 1 0).toNat * 2 ^ 32
  | .hh, varg | .h, varg | .none, varg | .l, varg => (varg.getD 0 0).toNat

theorem ofLong_toNat (w : UInt32) :
    (ofLong w).toNat = if w.toNat < 2 ^ 31 then w.toNat else 2 ^ 64 - 2 ^ 32 + w.toNat := by
  have hint : (ofLong w).toBitVec.toInt = w.toBitVec.toInt :=
    BitVec.toInt_signExtend_of_le (by decide)
  rw [BitVec.toInt_eq_toNat_bmod, BitVec.toInt_eq_toNat_bmod, Int.bmod_def, Int.bmod_def] at hint
  have hw := w.toNat_lt
  have hlt := (ofLong w).toNat_lt
  rw [UInt64.toNat_toBitVec, UInt32.toNat_toBitVec] at hint
  split_ifs at hint ⊢ <;> omega

/-- The two words of a `long long`. -/
theorem toNat_words (lo hi : UInt32) :
    (hi.toUInt64 <<< 32 ||| lo.toUInt64).toNat = lo.toNat + hi.toNat * 2 ^ 32 := by
  have hlo := lo.toNat_lt
  have hhi := hi.toNat_lt
  have hshift : (hi.toUInt64 <<< 32).toNat = 2 ^ 32 * hi.toNat := by
    rw [UInt64.toNat_shiftLeft]
    show hi.toNat <<< 32 % 2 ^ 64 = _
    rw [Nat.shiftLeft_eq]
    omega
  rw [UInt64.toNat_or, hshift, UInt32.toNat_toUInt64, ← Nat.two_pow_add_eq_or_of_lt hlo]
  omega

/-- `_get_arg` reduces to the size, except for a `long`. -/
theorem argValue_toNat (len : CLength) (varg : List UInt32) :
    (argValue varg (lengthSize len)).toNat =
      if len = .l ∧ 2 ^ 31 ≤ argBits len varg then 2 ^ 64 - 2 ^ 32 + argBits len varg
      else argBits len varg % 2 ^ len.bits := by
  have hword : ∀ f : UInt32 → UInt64,
      (((vaWord (varg ++ [0, 0])).map fun r : UInt32 × List UInt32 => (f r.1, r.2)).map
        Prod.fst).getD 0 = f (varg.getD 0 0) := by
    intro f
    cases varg with
    | nil => rfl
    | cons w varg => rfl
  have hlt := (varg.getD 0 0).toNat_lt
  cases len with
  | hh =>
      rw [if_neg (by simp)]
      refine (congrArg UInt64.toNat (hword fun w => (w &&& 0xFF).toUInt64)).trans ?_
      show ((varg.getD 0 0) &&& 0xFF).toNat = _
      rw [UInt32.toNat_and]
      exact Nat.and_two_pow_sub_one_eq_mod _ 8
  | h =>
      rw [if_neg (by simp)]
      refine (congrArg UInt64.toNat (hword fun w => (w &&& 0xFFFF).toUInt64)).trans ?_
      show ((varg.getD 0 0) &&& 0xFFFF).toNat = _
      rw [UInt32.toNat_and]
      exact Nat.and_two_pow_sub_one_eq_mod _ 16
  | none =>
      rw [if_neg (by simp)]
      refine (congrArg UInt64.toNat (hword fun w => w.toUInt64)).trans ?_
      exact (Nat.mod_eq_of_lt hlt).symm
  | l =>
      refine (congrArg UInt64.toNat (hword ofLong)).trans ?_
      have hbits : argBits .l varg = (varg.getD 0 0).toNat := rfl
      rw [hbits, ofLong_toNat, CLength.bits, Nat.mod_eq_of_lt hlt]
      by_cases hhigh : 2 ^ 31 ≤ (varg.getD 0 0).toNat
      · rw [if_neg (Nat.not_lt.mpr hhigh), if_pos ⟨rfl, hhigh⟩]
      · rw [if_pos (Nat.lt_of_not_le hhigh), if_neg fun h => hhigh h.2]
  | ll =>
      rw [if_neg (by simp)]
      have hvalue : argValue varg (lengthSize .ll) =
          (varg.getD 1 0).toUInt64 <<< 32 ||| (varg.getD 0 0).toUInt64 := by
        match varg with
        | [] => rfl
        | [lo] => rfl
        | lo :: hi :: varg => rfl
      rw [hvalue, toNat_words]
      have hhi := (varg.getD 1 0).toNat_lt
      show (varg.getD 0 0).toNat + (varg.getD 1 0).toNat * 2 ^ 32 =
        ((varg.getD 0 0).toNat + (varg.getD 1 0).toNat * 2 ^ 32) % 2 ^ 64
      omega

/-- A cast to a signed type takes the value modulo its range. -/
theorem castSigned_toInt {bits : Nat} (h : bits ≤ 64) (val : UInt64) :
    (castSigned bits val).toBitVec.toInt = (val.toNat : Int).bmod (2 ^ bits) := by
  rw [castSigned, BitVec.toInt_signExtend_of_le h, BitVec.toInt_setWidth, UInt64.toNat_toBitVec]

/-- Sign-extended, it is the value of the type. -/
theorem signExtend_toInt (len : CLength) (varg : List UInt32) :
    (signExtend (argValue varg (lengthSize len)) (lengthSize len)).toBitVec.toInt =
      (argBits len varg : Int).bmod (2 ^ len.bits) := by
  have hvalue := argValue_toNat len varg
  have hcast : (signExtend (argValue varg (lengthSize len)) (lengthSize len)).toBitVec.toInt =
      ((argValue varg (lengthSize len)).toNat : Int).bmod (2 ^ len.bits) := by
    cases len with
    | hh => exact castSigned_toInt (by decide) _
    | h => exact castSigned_toInt (by decide) _
    | none => exact castSigned_toInt (by decide) _
    | l => exact castSigned_toInt (by decide) _
    | ll => exact BitVec.toInt_eq_toNat_bmod _
  rw [hcast, hvalue]
  split_ifs with hlong
  · obtain ⟨rfl, -⟩ := hlong
    show ((2 ^ 64 - 2 ^ 32 + argBits .l varg : Nat) : Int).bmod (2 ^ 32) =
      (argBits .l varg : Int).bmod (2 ^ 32)
    rw [Int.bmod_def, Int.bmod_def]
    omega
  · rw [Int.natCast_emod]
    exact Int.emod_bmod _ _

/-! ## The sign -/

section

variable {num : UInt64} {flags : PrintFlags}

/-- Taken as signed, the upper half is negative. -/
theorem toInt_cases (num : UInt64) :
    num.toNat < 2 ^ 63 ∧ num.toBitVec.toInt = num.toNat ∨
      2 ^ 63 ≤ num.toNat ∧ num.toBitVec.toInt = (num.toNat : Int) - 2 ^ 64 := by
  have hint : num.toBitVec.toInt = if 2 * num.toNat < 2 ^ 64 then (num.toNat : Int)
      else (num.toNat : Int) - (2 ^ 64 : Nat) := num.toBitVec.toInt_eq_toNat_cond
  by_cases hhigh : 2 * num.toNat < 2 ^ 64
  · rw [if_pos hhigh] at hint
    exact .inl ⟨by omega, hint⟩
  · rw [if_neg hhigh] at hint
    exact .inr ⟨by omega, hint⟩

theorem printNeg_signed (h : flags.unsigned = false) :
    printNeg num flags = true ↔ num.toBitVec.toInt < 0 := by
  have hlt := num.toNat_lt
  rw [printNeg_iff, and_iff_right h]
  obtain ⟨hlow, hint⟩ | ⟨hhigh, hint⟩ := toInt_cases num
  · omega
  · omega

theorem printMagnitude_signed (h : flags.unsigned = false) :
    printMagnitude num flags = num.toBitVec.toInt.natAbs := by
  have hlt := num.toNat_lt
  rw [printMagnitude, if_congr (printNeg_signed h) rfl rfl]
  obtain ⟨hlow, hint⟩ | ⟨hhigh, hint⟩ := toInt_cases num
  · rw [if_neg (by omega)]
    omega
  · rw [if_pos (by omega)]
    omega

theorem printNeg_unsigned (h : flags.unsigned = true) : printNeg num flags = false := by
  rw [printNeg, h]
  rfl

theorem printMagnitude_unsigned (h : flags.unsigned = true) :
    printMagnitude num flags = num.toNat := by
  rw [printMagnitude, printNeg_unsigned h]
  rfl

end

/-! ## Padding -/

section

variable {minus zero : Bool} {w : Nat} {sign ds ds' : List Char}

/-- With the same sign and digits, the padding is that of C if there is none,
    or the field is filled on the left and has no sign. -/
theorem padded_eq_field_iff (hds : ds ≠ []) (hblank : ' ' ∉ ds) :
    sign ++ List.replicate (w - ds.length) (if zero then '0' else ' ') ++ ds =
      field minus zero w sign ds ↔ (minus = true ∨ sign ≠ [] → w ≤ ds.length) := by
  have hpos : 0 < ds.length := List.length_pos_of_ne_nil hds
  constructor
  · intro heq hcase
    by_contra hw
    have hlen := congrArg List.length heq
    rw [length_field, List.length_append, List.length_append, List.length_replicate] at hlen
    by_cases hsign : sign = []
    · -- the field ends with a blank
      subst hsign
      obtain rfl : minus = true := hcase.resolve_right fun h => h rfl
      have hlast := @getLast?_field w [] ds zero (by simpa using hw)
      rw [← heq, List.getLast?_append_of_ne_nil _ hds] at hlast
      exact hblank (List.mem_of_getLast? hlast)
    · -- it counts the sign
      have hsign : 0 < sign.length := List.length_pos_of_ne_nil hsign
      omega
  · intro hcase
    by_cases hw : w ≤ ds.length
    · rw [field_of_le minus zero (by omega), Nat.sub_eq_zero_of_le hw, List.replicate_zero,
        List.append_nil]
    · have hnot := mt hcase hw
      rw [not_or, not_not, Bool.not_eq_true] at hnot
      obtain ⟨rfl, rfl⟩ := hnot
      cases zero with
      | false => simp [field]
      | true => simp [field]

/-- A sign that C does not write makes the text too long. -/
theorem padded_sign_ne_field (pad : Char) (hsign : sign ≠ []) (hle : ds.length ≤ ds'.length) :
    sign ++ List.replicate (w - ds'.length) pad ++ ds' ≠ field minus zero w [] ds := by
  intro heq
  have hlen := congrArg List.length heq
  have hpos : 0 < sign.length := List.length_pos_of_ne_nil hsign
  rw [length_field, List.length_append, List.length_append, List.length_replicate,
    List.length_nil] at hlen
  omega

/-- A longer numeral shows, however wide the field. -/
theorem padded_longer_ne_field (hlt : ds.length < ds'.length) (hblank : ' ' ∉ ds')
    (hhead : ds'.head? ≠ some '0') :
    List.replicate (w - ds'.length) (if zero then '0' else ' ') ++ ds' ≠
      field minus zero w [] ds := by
  have hds' : ds' ≠ [] := List.ne_nil_of_length_pos (by omega)
  intro heq
  have hlen := congrArg List.length heq
  rw [length_field, List.length_append, List.length_replicate, List.length_nil] at hlen
  cases minus with
  | true =>
      have hlast := @getLast?_field w [] ds zero
        (by rw [List.length_nil]; omega)
      rw [← heq, List.getLast?_append_of_ne_nil _ hds'] at hlast
      exact hblank (List.mem_of_getLast? hlast)
  | false =>
      -- the first of its digits stands where C still pads
      obtain ⟨k, hk⟩ := Nat.exists_eq_succ_of_ne_zero (Nat.sub_ne_zero_of_lt hlt)
      have hfield : field false zero w [] ds = List.replicate (w - ds'.length)
          (if zero then '0' else ' ') ++ List.replicate (k + 1) (if zero then '0' else ' ') ++
            ds := by
        rw [← List.replicate_add]
        have hsum : w - ds.length = w - ds'.length + (k + 1) := by omega
        rw [← hsum]
        cases zero with
        | false => simp [field]
        | true => simp [field]
      rw [hfield, List.append_assoc] at heq
      have hsuffix := List.append_cancel_left heq
      rw [hsuffix, List.replicate_succ] at hhead hblank
      cases zero with
      | false => exact hblank List.mem_cons_self
      | true => exact hhead rfl

end

/-! ## Compared with C -/

/-- Where `_print` prints an integer like C: a sign or `-` leaves nothing to
    pad, and an unsigned conversion has no sign flag and no negative `long`. -/
def PrintsAsC (d : CDirective) (v : Nat) : Prop :=
  (.minus ∈ d.flags ∨ d.sign v ≠ [] → d.width ≤ (d.digits v).length) ∧
    (d.conv.signed = false →
      .plus ∉ d.flags ∧ .space ∉ d.flags ∧ (d.length = .l → v < 2 ^ 31))

instance (d : CDirective) (v : Nat) : Decidable (PrintsAsC d v) :=
  inferInstanceAs (Decidable (_ ∧ _))

/-- The flags `_print_int` is called with. -/
def convFlags (d : CDirective) : PrintFlags :=
  { withFlags d.flags {} with unsigned := !d.conv.signed, uppercase := d.conv.upper }

/-- The number it is called with. -/
def convArg (d : CDirective) (varg : List UInt32) : UInt64 :=
  if d.conv.signed then signExtend (argValue varg (lengthSize d.length)) (lengthSize d.length)
  else argValue varg (lengthSize d.length)

section

variable {d : CDirective} {varg : List UInt32}

theorem convText_eq (strings : UInt32 → List Char) :
    convText strings (convSpec d) (convCase d.conv) varg =
      printSign (convArg d varg) (convFlags d) ++
        List.replicate (d.width - (numeral d.conv.upper d.conv.base
          (printMagnitude (convArg d varg) (convFlags d))).length)
          (if decide (.zero ∈ d.flags) then '0' else ' ') ++
        numeral d.conv.upper d.conv.base (printMagnitude (convArg d varg) (convFlags d)) := by
  obtain ⟨flags, width, length, conv⟩ := d
  cases conv with
  | d | i | u | x | X | o => rfl

/-- A signed conversion writes sign and digits of C. -/
theorem printSign_signed (h : d.conv.signed = true) :
    printSign (convArg d varg) (convFlags d) = d.sign (argBits d.length varg) := by
  have hvalue : (convArg d varg).toBitVec.toInt = d.value (argBits d.length varg) := by
    rw [convArg, CDirective.value, h]
    exact signExtend_toInt d.length varg
  have hflags : (convFlags d).unsigned = false := congrArg (!·) h
  have hneg := @printNeg_signed (convArg d varg) _ hflags
  rw [hvalue] at hneg
  rw [printSign, CDirective.sign, if_congr hneg rfl rfl, h]
  simp [convFlags, withFlags]

theorem printMagnitude_value (h : d.conv.signed = true) :
    numeral d.conv.upper d.conv.base (printMagnitude (convArg d varg) (convFlags d)) =
      d.digits (argBits d.length varg) := by
  have hflags : (convFlags d).unsigned = false := congrArg (!·) h
  rw [printMagnitude_signed hflags, CDirective.digits, convArg, CDirective.value, h]
  exact congrArg (fun n : Int => numeral d.conv.upper d.conv.base n.natAbs)
    (signExtend_toInt d.length varg)

/-- An unsigned one writes a sign if it has the flag. -/
theorem printSign_unsigned (h : d.conv.signed = false) :
    printSign (convArg d varg) (convFlags d) = [] ↔ .plus ∉ d.flags ∧ .space ∉ d.flags := by
  have hneg : printNeg (convArg d varg) (convFlags d) = false :=
    printNeg_unsigned (congrArg (!·) h)
  rw [printSign, hneg]
  by_cases hplus : .plus ∈ d.flags
  · simp [convFlags, withFlags, hplus]
  · by_cases hspace : .space ∈ d.flags
    · simp [convFlags, withFlags, hplus, hspace]
    · simp [convFlags, withFlags, hplus, hspace]

/-- The number it writes is that of C, or that of a negative `long`. -/
theorem printMagnitude_cases (h : d.conv.signed = false) :
    printMagnitude (convArg d varg) (convFlags d) =
      if d.length = .l ∧ 2 ^ 31 ≤ argBits d.length varg then
        2 ^ 64 - 2 ^ 32 + (d.value (argBits d.length varg)).natAbs
      else (d.value (argBits d.length varg)).natAbs := by
  have hflags : (convFlags d).unsigned = true := congrArg (!·) h
  have harg : convArg d varg = argValue varg (lengthSize d.length) := by
    rw [convArg, h]
    rfl
  rw [printMagnitude_unsigned hflags, harg, argValue_toNat, CDirective.natAbs_value h]
  by_cases hlong : d.length = .l ∧ 2 ^ 31 ≤ argBits d.length varg
  · have hbits : argBits d.length varg % 2 ^ d.length.bits = argBits d.length varg := by
      rw [hlong.1]
      exact Nat.mod_eq_of_lt (varg.getD 0 0).toNat_lt
    rw [if_pos hlong, if_pos hlong, hbits]
  · rw [if_neg hlong, if_neg hlong]

end

/-- The number of a negative `long` has more digits in each base. -/
theorem length_numeral_long {upper : Bool} {base v : Nat} (hb : base = 8 ∨ base = 10 ∨ base = 16)
    (hv : v < 2 ^ 32) :
    (numeral upper base v).length < (numeral upper base (2 ^ 64 - 2 ^ 32 + v)).length := by
  have hshort : (numeral upper base v).length ≤ 11 := by
    rw [length_numeral_le_iff (by omega) (by omega)]
    obtain rfl | rfl | rfl := hb
    · omega
    · omega
    · omega
  have hlong : ¬ (numeral upper base (2 ^ 64 - 2 ^ 32 + v)).length ≤ 11 := by
    rw [length_numeral_le_iff (by omega) (by omega)]
    obtain rfl | rfl | rfl := hb
    · omega
    · omega
    · omega
  omega

section

variable {d : CDirective} {varg : List UInt32} {strings : UInt32 → List Char}

/-- A directive alone prints its text. -/
theorem print_text_iff (hw : d.width < 256) (hargs : argWords (lengthSize d.length) ≤ varg.length)
    {text : List Char} : (∃ nchars, print strings d.text varg = some (text, nchars)) ↔
      convText strings (convSpec d) (convCase d.conv) varg = text := by
  have htext : formatText strings (directives d.text) varg =
      convText strings (convSpec d) (convCase d.conv) varg := by
    rw [directives_text d hw]
    exact List.append_nil _
  have hwords : formatWords (directives d.text) ≤ varg.length := by
    rw [directives_text d hw]
    obtain ⟨flags, width, length, conv⟩ := d
    cases conv with
    | d | i | u | x | X | o => exact hargs
  rw [print_eq hwords, htext]
  constructor
  · rintro ⟨nchars, h⟩
    exact (Prod.mk.inj (Option.some.inj h)).1
  · intro h
    exact ⟨_, by rw [h]⟩

theorem base_bounds (d : CDirective) : 1 < d.conv.base ∧ d.conv.base ≤ 16 := by
  have hbase := d.base_cases
  omega

theorem digits_ne_nil (v : Nat) : d.digits v ≠ [] := numeral_ne_nil

theorem blank_not_mem_digits (v : Nat) : ' ' ∉ d.digits v :=
  blank_not_mem_numeral (base_bounds d).1 (base_bounds d).2

/-- A signed conversion has the sign and the digits of C. -/
theorem convText_signed_iff (h : d.conv.signed = true) :
    convText strings (convSpec d) (convCase d.conv) varg = d.printed (argBits d.length varg) ↔
      PrintsAsC d (argBits d.length varg) := by
  rw [convText_eq, CDirective.printed, PrintsAsC, printSign_signed h, printMagnitude_value h,
    padded_eq_field_iff (digits_ne_nil _) (blank_not_mem_digits _), decide_eq_true_iff, h]
  simp

/-- An unsigned one has its digits, too, ... -/
theorem convText_unsigned_iff (h : d.conv.signed = false)
    (hlong : ¬ (d.length = .l ∧ 2 ^ 31 ≤ argBits d.length varg)) :
    convText strings (convSpec d) (convCase d.conv) varg = d.printed (argBits d.length varg) ↔
      PrintsAsC d (argBits d.length varg) := by
  have hshort : d.length = .l → argBits d.length varg < 2 ^ 31 :=
    fun hl => Nat.lt_of_not_le fun hge => hlong ⟨hl, hge⟩
  have hsign := @printSign_unsigned d varg h
  rw [convText_eq, CDirective.printed, PrintsAsC, CDirective.sign_of_unsigned h,
    printMagnitude_cases h, if_neg hlong]
  by_cases hflags : .plus ∉ d.flags ∧ .space ∉ d.flags
  · rw [hsign.mpr hflags]
    refine (padded_eq_field_iff (digits_ne_nil _) (blank_not_mem_digits _)).trans ?_
    rw [decide_eq_true_iff]
    exact ⟨fun hw => ⟨hw, fun _ => ⟨hflags.1, hflags.2, hshort⟩⟩, fun hw => hw.1⟩
  · refine iff_of_false ?_ fun hw => hflags ⟨(hw.2 h).1, (hw.2 h).2.1⟩
    exact padded_sign_ne_field _ (mt hsign.mp hflags) (Nat.le_refl _)

/-- ... unless it prints a negative `long`. -/
theorem convText_long_ne (h : d.conv.signed = false)
    (hlong : d.length = .l ∧ 2 ^ 31 ≤ argBits d.length varg) :
    convText strings (convSpec d) (convCase d.conv) varg ≠ d.printed (argBits d.length varg) := by
  obtain ⟨hb, hb16⟩ := base_bounds d
  have hvalue : (d.value (argBits d.length varg)).natAbs < 2 ^ 32 := by
    rw [CDirective.natAbs_value h, hlong.1]
    exact Nat.mod_lt _ (Nat.two_pow_pos 32)
  have hlt := @length_numeral_long d.conv.upper _ _ d.base_cases hvalue
  have hsign := @printSign_unsigned d varg h
  rw [convText_eq, CDirective.printed, CDirective.sign_of_unsigned h, printMagnitude_cases h,
    if_pos hlong]
  by_cases hflags : .plus ∉ d.flags ∧ .space ∉ d.flags
  · rw [hsign.mpr hflags, List.nil_append]
    exact padded_longer_ne_field hlt (blank_not_mem_numeral hb hb16)
      (head_numeral_ne_zero hb hb16 (by omega))
  · exact padded_sign_ne_field _ (mt hsign.mp hflags) (Nat.le_of_lt hlt)

end

/-- `_print` prints an integer like C, exactly in these cases. -/
theorem print_printed_iff (strings : UInt32 → List Char) (d : CDirective) (varg : List UInt32)
    (hw : d.width < 256) (hargs : argWords (lengthSize d.length) ≤ varg.length) :
    (∃ nchars, print strings d.text varg = some (d.printed (argBits d.length varg), nchars)) ↔
      PrintsAsC d (argBits d.length varg) := by
  rw [print_text_iff hw hargs]
  cases hsigned : d.conv.signed with
  | true => exact convText_signed_iff hsigned
  | false =>
      by_cases hlong : d.length = .l ∧ 2 ^ 31 ≤ argBits d.length varg
      · refine iff_of_false (convText_long_ne hsigned hlong) fun h => ?_
        exact absurd ((h.2 hsigned).2.2 hlong.1) (Nat.not_lt.mpr hlong.2)
      · exact convText_unsigned_iff hsigned hlong

/-- `printf("%-1hhd", 0xff)`: -1 fills the width. -/
theorem print_printed_byte : ∃ nchars,
    print (fun _ => []) (CDirective.text ⟨[.minus], 1, .hh, .d⟩) [0xff] =
      some (CDirective.printed ⟨[.minus], 1, .hh, .d⟩ 0xff, nchars) :=
  (print_printed_iff _ ⟨[.minus], 1, .hh, .d⟩ [0xff] (by decide) (by decide)).mpr (by decide)

/-- `printf("%3d", -1)` is four characters long, with the sign in front. -/
theorem print_not_printed : ¬ ∃ nchars,
    print (fun _ => []) (CDirective.text ⟨[], 3, .none, .d⟩) [0xffffffff] =
      some (CDirective.printed ⟨[], 3, .none, .d⟩ 0xffffffff, nchars) := by
  rintro ⟨nchars, h⟩
  have hprint : print (fun _ => []) (CDirective.text ⟨[], 3, .none, .d⟩) [0xffffffff] =
      some (['-', ' ', ' ', '1'], 4) := by decide
  have hprinted : CDirective.printed ⟨[], 3, .none, .d⟩ 0xffffffff = [' ', '-', '1'] := by decide
  rw [hprinted] at h
  cases hprint.symm.trans h

end LBoot.Io
