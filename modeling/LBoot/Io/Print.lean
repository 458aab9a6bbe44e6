/-
  LBoot.Io.Print

  `_print` (src/io/output.c): the loop over the format, and what is printed.

  A `char` is the Latin-1 character of its byte.  The format is read apart
  from the arguments as a list of directives (`directives`); given the words
  these take, `_print` stores their texts one after the other and counts
  them, together with what the precision of a `%s` cuts off (`print_eq`).
-/

import LBoot.Io.PrintInt

namespace LBoot.Io

open LBoot.Lib

/-! ## Model -/

/-- What a directive has set so far; `ZERO_ALL_VID` resets it. -/
structure PrintSpec where
  size : Int := 0
  width : Nat := 0
  precision : Nat := 0
  flags : PrintFlags := {}
  deriving DecidableEq, Repr

/-- The cases that end a directive. -/
inductive Conversion where
  | dec (unsigned : Bool)
  | hex (upper : Bool)
  | oct
  | str
  | chr
  | ptr
  | double
  | count
  deriving DecidableEq, Repr

def conversion : Char → Option Conversion
  | 'u' => some (.dec true)
  | 'd' | 'i' => some (.dec false)
  | 'f' | 'F' | 'e' | 'E' | 'g' | 'G' | 'a' | 'A' => some .double
  | 'X' => some (.hex true)
  | 'x' => some (.hex false)
  | 'o' => some .oct
  | 's' => some .str
  | 'c' => some .chr
  | 'p' => some .ptr
  | 'n' => some .count
  | _ => none

/-- `_get_dec` and the rest of the string.  Where `n` leaves the range of an
    `int`, only its low byte is used. -/
def getDec (n : Nat) : List Char → Nat × List Char
  | [] => (n, [])
  | c :: str =>
      if '0' ≤ c ∧ c ≤ '9' then getDec (n * 10 + (c.toNat - '0'.toNat)) str else (n, c :: str)

/-- The cases that set something, and the rest of the format. -/
def setSpec (s : PrintSpec) (c : Char) (format : List Char) : PrintSpec × List Char :=
  match c with
  | 'l' => ({ s with size := if s.size < 2 then s.size + 1 else s.size }, format)
  | 'L' => ({ s with size := 1 }, format)
  | 'h' => ({ s with size := if s.size > -2 then s.size - 1 else s.size }, format)
  | 'z' | 'j' | 't' => ({ s with size := 0 }, format)
  | '+' => ({ s with flags := { s.flags with possign := true } }, format)
  | ' ' => ({ s with flags := { s.flags with posspace := true } }, format)
  | '-' => ({ s with flags := { s.flags with leftalign := true } }, format)
  | '0' => ({ s with flags := { s.flags with padzero := true } }, format)
  | '1' | '2' | '3' | '4' | '5' | '6' | '7' | '8' | '9' =>
      let (n, format) := getDec 0 (c :: format)
      ({ s with width := n % 256 }, format)
  | '.' =>
      let (n, format) := getDec 0 format
      ({ s with precision := n % 256 }, format)
  | _ => (s, format)

/-- `UINT_MAX`. -/
abbrev uintMax : Nat := 0xffffffff

/-- `"(null)"`. -/
def nullString : List Char := ['(', 'n', 'u', 'l', 'l', ')']

section

variable (strings : UInt32 → List Char)

/-- A case of a number: `_get_arg`, perhaps `_sign_extend`, and
    `_print_int`. -/
def convertInt (size : Int) (extend : Bool) (base : UInt64) (width : Nat) (flags : PrintFlags)
    (varg : List UInt32) : Option (List Char × Nat × List UInt32) := do
  let (arg, varg) ← getArg varg size
  let text ← printInt (if extend then signExtend arg size else arg) base width flags
  some (text, text.length, varg)

/-- What a conversion stores, what it adds to `nchars`, and the arguments
    behind it.  `strings` is the string at an address. -/
def convert (s : PrintSpec) (k : Conversion) (varg : List UInt32) :
    Option (List Char × Nat × List UInt32) :=
  match k with
  | .dec unsigned =>
      convertInt s.size (!unsigned) 10 s.width
        { s.flags with unsigned := s.flags.unsigned || unsigned } varg
  | .hex upper =>
      convertInt s.size false 16 s.width
        { s.flags with unsigned := true, uppercase := s.flags.uppercase || upper } varg
  | .oct => convertInt s.size false 8 s.width { s.flags with unsigned := true } varg
  | .ptr =>
      convertInt s.size false 16 (if s.width = 0 then 4 * 2 else s.width)
        { s.flags with unsigned := true } varg
  | .str => do
      let (temp, varg) ← vaWord varg
      let precision := if s.precision = 0 then uintMax else s.precision
      let str := if temp = 0 then nullString else strings temp
      some (str.take precision, str.length, varg)
  | .chr => do
      let (arg, varg) ← vaWord varg
      some ([Char.ofNat (arg.toNat % 256)], 1, varg)
  | .double => do
      let (_, varg) ← vaWord varg
      let (_, varg) ← vaWord varg
      some ([], 0, varg)
  | .count => do
      let (_, varg) ← vaWord varg
      some ([], 0, varg)

/-- The variables of `_print`, with what has been stored. -/
structure PrintState where
  format : List Char
  isInSpec : Bool
  spec : PrintSpec
  out : List Char
  nchars : Int32
  varg : List UInt32
  deriving DecidableEq

/-- An iteration of the loop. -/
def printStep (s : PrintState) : Option PrintState :=
  match s.format with
  | [] => some s
  | c :: format =>
      if !s.isInSpec then
        if c = '%' then some { s with format, isInSpec := true }
        else some { s with format, out := s.out ++ [c], nchars := s.nchars + 1 }
      else if c = '%' then
        some { s with format, isInSpec := false, out := s.out ++ ['%'], nchars := s.nchars + 1 }
      else
        match conversion c with
        | some k =>
            (convert strings s.spec k s.varg).map fun (text, n, varg) =>
              ⟨format, false, {}, s.out ++ text, s.nchars + Int32.ofNat n, varg⟩
        | none =>
            let (spec, format) := setSpec s.spec c format
            some { s with spec, format }

/-- So many iterations, each of which reads from the format. -/
def printLoop : Nat → PrintState → Option PrintState
  | 0, s => some s
  | n + 1, s => (printStep strings s).bind (printLoop n)

/-- `_print`: what it stores in front of the NUL, and what it returns. -/
def print (format : List Char) (varg : List UInt32) : Option (List Char × Int32) :=
  (printLoop strings format.length ⟨format, false, {}, [], 0, varg⟩).map fun s => (s.out, s.nchars)

end

/-! ## Directives -/

/-- What a format asks for: a character, or a conversion with its settings. -/
inductive Directive where
  | char (c : Char)
  | conv (s : PrintSpec) (k : Conversion)
  deriving DecidableEq, Repr

/-- The format from here on, inside of a directive or not. -/
def directivesLoop : Nat → Bool → PrintSpec → List Char → List Directive
  | 0, _, _, _ => []
  | _ + 1, _, _, [] => []
  | n + 1, isInSpec, s, c :: format =>
      if !isInSpec then
        if c = '%' then directivesLoop n true s format
        else .char c :: directivesLoop n false s format
      else if c = '%' then .char '%' :: directivesLoop n false s format
      else
        match conversion c with
        | some k => .conv s k :: directivesLoop n false {} format
        | none => directivesLoop n true (setSpec s c format).1 (setSpec s c format).2

def directives (format : List Char) : List Directive :=
  directivesLoop format.length false {} format

/-- The words of the argument of a conversion. -/
def convWords (s : PrintSpec) : Conversion → Nat
  | .dec _ | .hex _ | .oct | .ptr => argWords s.size
  | .str | .chr | .count => 1
  | .double => 2

/-- The words all directives take. -/
def formatWords : List Directive → Nat
  | [] => 0
  | .char _ :: ds => formatWords ds
  | .conv s k :: ds => convWords s k + formatWords ds

section

variable (strings : UInt32 → List Char)

/-- The string an argument points to. -/
def strArg (varg : List UInt32) : List Char :=
  if varg.headD 0 = 0 then nullString else strings (varg.headD 0)

/-- How much of a string is printed at most. -/
def strLimit (s : PrintSpec) : Nat := if s.precision = 0 then uintMax else s.precision

/-- The text of a conversion. -/
def convText (s : PrintSpec) (k : Conversion) (varg : List UInt32) : List Char :=
  let arg := argValue varg s.size
  match k with
  | .dec unsigned =>
      intText (if unsigned then arg else signExtend arg s.size) 10 s.width
        { s.flags with unsigned := s.flags.unsigned || unsigned }
  | .hex upper =>
      intText arg 16 s.width
        { s.flags with unsigned := true, uppercase := s.flags.uppercase || upper }
  | .oct => intText arg 8 s.width { s.flags with unsigned := true }
  | .ptr => intText arg 16 (if s.width = 0 then 4 * 2 else s.width) { s.flags with unsigned := true }
  | .str => (strArg strings varg).take (strLimit s)
  | .chr => [Char.ofNat ((varg.headD 0).toNat % 256)]
  | .double | .count => []

/-- The characters a conversion cuts off. -/
def convCut (s : PrintSpec) (k : Conversion) (varg : List UInt32) : Nat :=
  if k = .str then (strArg strings varg).length - strLimit s else 0

/-- Its length, from the settings and the argument. -/
def convLength (s : PrintSpec) (k : Conversion) (varg : List UInt32) : Nat :=
  let arg := argValue varg s.size
  match k with
  | .dec unsigned =>
      intLength (if unsigned then arg else signExtend arg s.size) 10 s.width
        { s.flags with unsigned := s.flags.unsigned || unsigned }
  | .hex upper =>
      intLength arg 16 s.width
        { s.flags with unsigned := true, uppercase := s.flags.uppercase || upper }
  | .oct => intLength arg 8 s.width { s.flags with unsigned := true }
  | .ptr =>
      intLength arg 16 (if s.width = 0 then 4 * 2 else s.width) { s.flags with unsigned := true }
  | .str => min (strLimit s) (strArg strings varg).length
  | .chr => 1
  | .double | .count => 0

/-- The text of the directives. -/
def formatText : List Directive → List UInt32 → List Char
  | [], _ => []
  | .char c :: ds, varg => c :: formatText ds varg
  | .conv s k :: ds, varg => convText strings s k varg ++ formatText ds (varg.drop (convWords s k))

/-- The length of the text. -/
def formatLength : List Directive → List UInt32 → Nat
  | [], _ => 0
  | .char _ :: ds, varg => formatLength ds varg + 1
  | .conv s k :: ds, varg =>
      convLength strings s k varg + formatLength ds (varg.drop (convWords s k))

/-- The characters they cut off. -/
def formatCut : List Directive → List UInt32 → Nat
  | [], _ => 0
  | .char _ :: ds, varg => formatCut ds varg
  | .conv s k :: ds, varg => convCut strings s k varg + formatCut ds (varg.drop (convWords s k))

end

section

variable (strings : UInt32 → List Char)

theorem length_convText (s : PrintSpec) (k : Conversion) (varg : List UInt32) :
    (convText strings s k varg).length = convLength strings s k varg := by
  cases k with
  | dec unsigned => exact length_intText ..
  | hex upper => exact length_intText ..
  | oct => exact length_intText ..
  | ptr => exact length_intText ..
  | str => exact List.length_take
  | chr => rfl
  | double => rfl
  | count => rfl

theorem length_formatText (ds : List Directive) (varg : List UInt32) :
    (formatText strings ds varg).length = formatLength strings ds varg := by
  induction ds generalizing varg with
  | nil => rfl
  | cons d ds ih =>
      cases d with
      | char c => rw [formatText, formatLength, List.length_cons, ih]
      | conv s k => rw [formatText, formatLength, List.length_append, length_convText, ih]

end

/-! ## The code prints the directives -/

/-- A number leaves at most the characters it finds. -/
theorem getDec_length (n : Nat) (str : List Char) : (getDec n str).2.length ≤ str.length := by
  induction str generalizing n with
  | nil => exact Nat.le_refl _
  | cons c str ih =>
      rw [getDec]
      split_ifs with hdigit
      · exact (ih _).trans (Nat.le_succ _)
      · exact Nat.le_refl _

theorem setSpec_length (s : PrintSpec) (c : Char) (format : List Char) :
    (setSpec s c format).2.length ≤ format.length := by
  -- a width begins with a digit, which is read
  have hdec : ∀ c : Char, '0' ≤ c ∧ c ≤ '9' → (getDec 0 (c :: format)).2.length ≤ format.length := by
    intro c hc
    rw [getDec, if_pos hc]
    exact getDec_length _ format
  unfold setSpec
  split
  all_goals first
    | exact Nat.le_refl _
    | exact hdec _ (by decide)
    | exact getDec_length 0 format

section

variable {strings : UInt32 → List Char}

theorem convertInt_eq {size : Int} {varg : List UInt32} (extend : Bool) {base : UInt64}
    (width : Nat) (flags : PrintFlags) (hb : 8 ≤ base.toNat) (hb16 : base.toNat ≤ 16)
    (hargs : argWords size ≤ varg.length) :
    convertInt size extend base width flags varg =
      let text := intText (if extend then signExtend (argValue varg size) size
        else argValue varg size) base width flags
      some (text, text.length, varg.drop (argWords size)) := by
  rw [convertInt, getArg_eq hargs]
  show (printInt _ base width flags).bind _ = _
  rw [printInt_eq _ _ _ hb hb16]
  rfl

/-- A conversion stores its text, and counts what it cuts off, too. -/
theorem convert_eq {s : PrintSpec} {k : Conversion} {varg : List UInt32}
    (hargs : convWords s k ≤ varg.length) :
    convert strings s k varg = some (convText strings s k varg,
      (convText strings s k varg).length + convCut strings s k varg,
      varg.drop (convWords s k)) := by
  cases k with
  | dec unsigned =>
      rw [convert, convertInt_eq _ _ _ (by decide) (by decide) hargs]
      cases unsigned with
      | false => rfl
      | true => rfl
  | hex upper => rw [convert, convertInt_eq _ _ _ (by decide) (by decide) hargs]; rfl
  | oct => rw [convert, convertInt_eq _ _ _ (by decide) (by decide) hargs]; rfl
  | ptr => rw [convert, convertInt_eq _ _ _ (by decide) (by decide) hargs]; rfl
  | str =>
      obtain ⟨temp, varg, rfl⟩ := List.exists_cons_of_length_pos hargs
      have hlen : (strArg strings (temp :: varg)).length =
          (convText strings s .str (temp :: varg)).length +
            convCut strings s .str (temp :: varg) := by
        rw [convText, convCut, if_pos rfl, List.length_take]
        omega
      rw [← hlen]
      rfl
  | chr =>
      obtain ⟨arg, varg, rfl⟩ := List.exists_cons_of_length_pos hargs
      rfl
  | double =>
      obtain ⟨lo, varg, rfl⟩ := List.exists_cons_of_length_pos (Nat.lt_of_lt_of_le Nat.two_pos hargs)
      obtain ⟨hi, varg, rfl⟩ := List.exists_cons_of_length_pos (Nat.le_of_succ_le_succ hargs)
      rfl
  | count =>
      obtain ⟨arg, varg, rfl⟩ := List.exists_cons_of_length_pos hargs
      rfl

theorem directivesLoop_nil (n : Nat) (isInSpec : Bool) (s : PrintSpec) :
    directivesLoop n isInSpec s [] = [] := by
  cases n with
  | zero => rfl
  | succ n => rfl

/-- What is stored and counted from `s` to `t` are these directives. -/
def Prints (strings : UInt32 → List Char) (s t : PrintState) (ds : List Directive) : Prop :=
  t.out = s.out ++ formatText strings ds s.varg ∧
    t.nchars = s.nchars +
      Int32.ofNat ((formatText strings ds s.varg).length + formatCut strings ds s.varg)

theorem Prints.nil (s : PrintState) : Prints strings s s [] :=
  ⟨(List.append_nil _).symm, (Int32.add_zero _).symm⟩

/-- A character in front. -/
theorem Prints.char {s r t : PrintState} {c : Char} {ds : List Directive}
    (h : Prints strings r t ds) (hout : r.out = s.out ++ [c]) (hcount : r.nchars = s.nchars + 1)
    (hvarg : r.varg = s.varg) : Prints strings s t (.char c :: ds) := by
  rw [Prints, hout, hcount, hvarg] at h
  refine ⟨?_, ?_⟩
  · rw [h.1, List.append_assoc]
    rfl
  · rw [h.2, formatText, formatCut, List.length_cons, Nat.add_right_comm, Nat.add_comm _ 1,
      Int32.ofNat_add 1, ← Int32.add_assoc]
    rfl

/-- A conversion in front. -/
theorem Prints.conv {s r t : PrintState} {spec : PrintSpec} {k : Conversion} {ds : List Directive}
    (h : Prints strings r t ds) (hout : r.out = s.out ++ convText strings spec k s.varg)
    (hcount : r.nchars = s.nchars + Int32.ofNat
      ((convText strings spec k s.varg).length + convCut strings spec k s.varg))
    (hvarg : r.varg = s.varg.drop (convWords spec k)) :
    Prints strings s t (.conv spec k :: ds) := by
  rw [Prints, hout, hcount, hvarg] at h
  refine ⟨?_, ?_⟩
  · rw [h.1, List.append_assoc]
    rfl
  · rw [h.2, Int32.add_assoc, ← Int32.ofNat_add, formatText, formatCut, List.length_append]
    congr 2
    omega

/-- ... and what is stored and counted are the directives. -/
theorem printLoop_eq {n : Nat} {s : PrintState}
    (hargs : formatWords (directivesLoop n s.isInSpec s.spec s.format) ≤ s.varg.length) :
    ∃ t, printLoop strings n s = some t ∧
      Prints strings s t (directivesLoop n s.isInSpec s.spec s.format) := by
  induction n generalizing s with
  | zero => exact ⟨s, rfl, .nil s⟩
  | succ n ih =>
      obtain ⟨format, isInSpec, spec, out, nchars, varg⟩ := s
      cases format with
      | nil =>
          obtain ⟨t, ht, hprints⟩ := ih (s := ⟨[], isInSpec, spec, out, nchars, varg⟩)
            (by rw [directivesLoop_nil]; exact Nat.zero_le _)
          rw [directivesLoop_nil] at hprints
          exact ⟨t, ht, hprints⟩
      | cons c format =>
          rw [printLoop, printStep]
          simp only [directivesLoop] at hargs ⊢
          cases isInSpec with
          | false =>
              by_cases hc : c = '%'
              · simp only [Bool.not_false, if_true, hc] at hargs ⊢
                exact ih (s := ⟨format, true, spec, out, nchars, varg⟩) hargs
              · simp only [Bool.not_false, if_true, if_neg hc] at hargs ⊢
                obtain ⟨t, ht, hprints⟩ :=
                  ih (s := ⟨format, false, spec, out ++ [c], nchars + 1, varg⟩) hargs
                exact ⟨t, ht, hprints.char rfl rfl rfl⟩
          | true =>
              by_cases hc : c = '%'
              · simp only [Bool.not_true, Bool.false_eq_true, if_false, if_true, hc] at hargs ⊢
                obtain ⟨t, ht, hprints⟩ :=
                  ih (s := ⟨format, false, spec, out ++ ['%'], nchars + 1, varg⟩) hargs
                exact ⟨t, ht, hprints.char rfl rfl rfl⟩
              · simp only [Bool.not_true, Bool.false_eq_true, if_false, if_neg hc] at hargs ⊢
                cases hconv : conversion c with
                | some k =>
                    rw [hconv] at hargs
                    simp only [formatWords] at hargs
                    have hrest : formatWords (directivesLoop n false {} format) ≤
                        (varg.drop (convWords spec k)).length := by
                      rw [List.length_drop]
                      omega
                    obtain ⟨t, ht, hprints⟩ := ih (s := ⟨format, false, {}, out ++
                      convText strings spec k varg, nchars + Int32.ofNat
                        ((convText strings spec k varg).length + convCut strings spec k varg),
                      varg.drop (convWords spec k)⟩) hrest
                    dsimp only
                    rw [convert_eq (by omega)]
                    exact ⟨t, ht, hprints.conv rfl rfl rfl⟩
                | none =>
                    rw [hconv] at hargs
                    exact ih (s := ⟨(setSpec spec c format).2, true, (setSpec spec c format).1, out,
                      nchars, varg⟩) hargs

/-- `_print` stores the text of the format, and returns its length and what
    it cuts off. -/
theorem print_eq {format : List Char} {varg : List UInt32}
    (hargs : formatWords (directives format) ≤ varg.length) :
    print strings format varg = some (formatText strings (directives format) varg,
      Int32.ofNat ((formatText strings (directives format) varg).length +
        formatCut strings (directives format) varg)) := by
  obtain ⟨t, ht, hout, hcount⟩ :=
    @printLoop_eq strings format.length ⟨format, false, {}, [], 0, varg⟩ hargs
  rw [print, ht]
  show some (t.out, t.nchars) = _
  rw [hout, hcount, Int32.zero_add]
  rfl

/-- What `_print` returns is what it has stored, unless that is too much for
    an `int`, or characters of a string are cut off. -/
theorem print_count_iff (strings : UInt32 → List Char) (format : List Char) (varg : List UInt32)
    (hargs : formatWords (directives format) ≤ varg.length) :
    (∃ out nchars, print strings format varg = some (out, nchars) ∧ nchars.toInt = out.length) ↔
      formatLength strings (directives format) varg < 2 ^ 31 ∧
        2 ^ 32 ∣ formatCut strings (directives format) varg := by
  rw [print_eq hargs, ← length_formatText]
  generalize formatText strings (directives format) varg = text
  generalize formatCut strings (directives format) varg = cut
  have hvalue : (Int32.ofNat (text.length + cut)).toInt =
      ((text.length + cut : Nat) : Int).bmod (2 ^ 32) := Int32.toInt_ofNat
  constructor
  · rintro ⟨out, nchars, h, hn⟩
    obtain ⟨rfl, rfl⟩ := Prod.mk.inj (Option.some.inj h)
    rw [hvalue, Int.bmod_def] at hn
    omega
  · rintro ⟨hlen, hcut⟩
    refine ⟨text, _, rfl, ?_⟩
    rw [hvalue, Int.bmod_def]
    omega

end

/-- `printf("%s: %d", "lboot", 42)`. -/
theorem print_count_lboot : ∃ out nchars,
    print (fun _ => ['l', 'b', 'o', 'o', 't']) ['%', 's', ':', ' ', '%', 'd'] [0x1000, 42] =
      some (out, nchars) ∧ nchars.toInt = out.length :=
  (print_count_iff _ _ _ (by decide)).mpr ⟨by decide, by decide⟩

/-- `printf("%.2s", "lboot")` stores two characters and returns 5. -/
theorem print_count_precision : ¬ ∃ out nchars,
    print (fun _ => ['l', 'b', 'o', 'o', 't']) ['%', '.', '2', 's'] [0x1000] =
      some (out, nchars) ∧ nchars.toInt = out.length := by
  rintro ⟨out, nchars, h, hn⟩
  have hprint : print (fun _ => ['l', 'b', 'o', 'o', 't']) ['%', '.', '2', 's'] [0x1000] =
      some (['l', 'b'], 5) := by decide
  obtain ⟨rfl, rfl⟩ := Prod.mk.inj (Option.some.inj (hprint.symm.trans h))
  revert hn
  decide

end LBoot.Io
