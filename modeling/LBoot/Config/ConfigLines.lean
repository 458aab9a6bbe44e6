/-
  LBoot.Config.ConfigLines

  What `_config_parse` makes of a text: it takes the lines in order.

  A line does to the configuration what its setting does (`parseLine_eq`),
  whatever lies behind it.  Where a text ends, there are two cases.  Behind a
  NUL nothing is read: the lines are cut as long as there is an LF, and what
  is left is the last one (`configParse_nul`).  Without a NUL the search for
  a CR, that for an LF and the loop that clears newlines must all stop before
  the memory does; as long as they do, the lines are taken one by one, and a
  line that is refused is the only way to an end
  (`configParse_refused`, `configParse_fault`).
-/

import LBoot.Config.Config
import LBoot.Lib.Lines
import LBoot.Lib.Slots

namespace LBoot.Config

open LBoot.Lib LBoot.Stdlib

/-! ## Settings -/

/-- What a line sets. -/
inductive Setting where
  | version (val : List UInt8)
  | kernel (val : List UInt8)
  | cmdline (val : List UInt8)
  | module (val : List UInt8)
  deriving DecidableEq, Repr

/-- The key of a line, if it has one, and the value. -/
def keyValue (line : List UInt8) : Option (List UInt8 × List UInt8) :=
  if equals ∈ line then
    some (line.takeWhile (· ≠ equals), (line.dropWhile (· ≠ equals)).tail)
  else none

/-- The setting of a line: none without an `=`, none for an unknown key. -/
def setting (line : List UInt8) : Option Setting :=
  match keyValue line with
  | none => none
  | some (key, val) =>
      if key = keyCfgver then some (.version val)
      else if key = keyKernel then some (.kernel val)
      else if key = keyCmdline then some (.cmdline val)
      else if key = keyModule then some (.module val)
      else none

/-- Apply a setting, with a reading of versions; an error is a refusal. -/
def applySetting (version : List UInt8 → Nat) (cfg : ConfigData) :
    Setting → Except ConfigData ConfigData
  | .version val =>
      let cfg := { cfg with configVersion := version val }
      if version val ≠ 1 then .error cfg else .ok cfg
  | .kernel val => .ok { cfg with kernelPath := some val }
  | .cmdline val => .ok { cfg with kernelCmdline := some val }
  | .module val =>
      if cfg.moduleCount = maxModules then .error cfg
      else .ok { cfg with
        modules := cfg.modules.modify cfg.moduleCount fun md =>
          { md with modulePath := some val, moduleName := some val }
        moduleCount := cfg.moduleCount + 1 }

/-- Take lines in order. -/
def takeLines (version : List UInt8 → Nat) (cfg : ConfigData) (lines : List (List UInt8)) :
    Except ConfigData ConfigData :=
  (lines.filterMap setting).foldlM (applySetting version) cfg

/-- The version as the parser reads it. -/
def parsedVersion (val : List UInt8) : Nat := strtoulValue val 10 % 2 ^ 8

/-- The configuration the parser starts with. -/
def startConfig : ConfigData :=
  { zeroConfig with modules := List.replicate maxModules zeroModule }

variable {version : List UInt8 → Nat} {cfg : ConfigData} {key val line : List UInt8}
  {lines : List (List UInt8)}

theorem keyValue_eq (hkey : equals ∉ key) (val : List UInt8) :
    keyValue (key ++ equals :: val) = some (key, val) := by
  have hall : ∀ b ∈ key, decide (b ≠ equals) = true := by
    intro b hb
    exact decide_eq_true fun heq => hkey (heq ▸ hb)
  rw [keyValue, if_pos (List.mem_append_right _ List.mem_cons_self),
    List.takeWhile_append_of_pos hall, List.dropWhile_append_of_pos hall,
    List.takeWhile_cons_of_neg (by simp), List.dropWhile_cons_of_neg (by simp), List.append_nil]
  rfl

theorem setting_of_not_mem (h : equals ∉ line) : setting line = none := by
  rw [setting, keyValue, if_neg h]

@[simp] theorem setting_nil : setting [] = none := rfl

theorem takeLines_append (version : List UInt8 → Nat) (cfg : ConfigData)
    (lines lines' : List (List UInt8)) :
    takeLines version cfg (lines ++ lines')
      = (takeLines version cfg lines).bind fun cfg => takeLines version cfg lines' := by
  rw [takeLines, List.filterMap_append, List.foldlM_append]
  rfl

theorem takeLines_cons (version : List UInt8 → Nat) (cfg : ConfigData) (line : List UInt8)
    (lines : List (List UInt8)) :
    takeLines version cfg (line :: lines)
      = (takeLines version cfg [line]).bind fun cfg => takeLines version cfg lines :=
  takeLines_append version cfg [line] lines

theorem takeLines_singleton (version : List UInt8 → Nat) (cfg : ConfigData) (line : List UInt8) :
    takeLines version cfg [line] = match setting line with
      | none => .ok cfg
      | some s => applySetting version cfg s := by
  rw [takeLines]
  cases hs : setting line with
  | none => rw [List.filterMap_cons_none hs]; rfl
  | some s =>
      rw [List.filterMap_cons_some hs, List.filterMap_nil, List.foldlM_cons]
      dsimp only
      cases applySetting version cfg s <;> rfl

/-! ## One line -/

/-- The line as it lies in memory behind the parser: the key is cut off. -/
def cutLine (line : List UInt8) : List UInt8 := line.set (line.takeWhile (· ≠ equals)).length 0

theorem cutLine_eq (hkey : equals ∉ key) (val : List UInt8) :
    cutLine (key ++ equals :: val) = key ++ 0 :: val := by
  have hall : ∀ b ∈ key, decide (b ≠ equals) = true := by
    intro b hb
    exact decide_eq_true fun heq => hkey (heq ▸ hb)
  rw [cutLine, List.takeWhile_append_of_pos hall, List.takeWhile_cons_of_neg (by simp),
    List.append_nil, set_append_cons]

theorem cutLine_of_not_mem (h : equals ∉ line) : cutLine line = line := by
  have hself : line.takeWhile (· ≠ equals) = line := by
    rw [List.takeWhile_eq_self_iff]
    intro b hb
    exact decide_eq_true fun heq => h (heq ▸ hb)
  rw [cutLine, hself, List.set_eq_of_length_le (Nat.le_refl _)]

/-- What `_config_parse` does with a line, and what it leaves of it. -/
theorem parseLine_eq (cfg : ConfigData) (hz : 0 ∉ line) (w : List UInt8) :
    parseLine cfg (line ++ 0 :: w)
      = some (cutLine line ++ 0 :: w, takeLines parsedVersion cfg [line]) := by
  rw [takeLines_singleton]
  by_cases heq : equals ∈ line
  · obtain ⟨key, val, rfl, hkey⟩ := List.eq_append_cons_of_mem heq
    have hzkey : 0 ∉ key := fun h => hz (List.mem_append_left _ h)
    have hzval : 0 ∉ val := fun h => hz (List.mem_append_right _ (List.mem_cons_of_mem _ h))
    have hmem : key ++ equals :: val ++ 0 :: w = key ++ equals :: (val ++ 0 :: w) := by
      rw [List.append_assoc, List.cons_append]
    have hdrop : (key ++ 0 :: (val ++ 0 :: w)).drop (key.length + 1) = val ++ 0 :: w := by
      rw [← List.drop_drop, List.drop_left, List.drop_one, List.tail_cons]
    have hcut : cutLine (key ++ equals :: val) ++ 0 :: w = key ++ 0 :: (val ++ 0 :: w) := by
      rw [cutLine_eq hkey, List.append_assoc, List.cons_append]
    -- the comparisons, one key after the other
    obtain ⟨d₁, hd₁, h₁⟩ := strcmp_eq (k := keyCfgver) hzkey (by decide) (val ++ 0 :: w) []
    obtain ⟨d₂, hd₂, h₂⟩ := strcmp_eq (k := keyKernel) hzkey (by decide) (val ++ 0 :: w) []
    obtain ⟨d₃, hd₃, h₃⟩ := strcmp_eq (k := keyCmdline) hzkey (by decide) (val ++ 0 :: w) []
    obtain ⟨d₄, hd₄, h₄⟩ := strcmp_eq (k := keyModule) hzkey (by decide) (val ++ 0 :: w) []
    rw [setting, keyValue_eq hkey, hcut, hmem]
    simp only [parseLine, strchr_eq hkey hzkey (show equals ≠ 0 by decide), Option.pure_def,
      Option.bind_eq_bind, Option.bind_some, set_append_cons, hdrop, strlen_eq hzval, hd₁, hd₂,
      hd₃, hd₄, strtoul_eq, strcpy_eq hzval, h₁, h₂, h₃, h₄]
    by_cases hk₁ : key = keyCfgver
    · rw [if_pos hk₁, if_pos hk₁]
      rfl
    rw [if_neg hk₁, if_neg hk₁]
    by_cases hk₂ : key = keyKernel
    · rw [if_pos hk₂, if_pos hk₂]
      rfl
    rw [if_neg hk₂, if_neg hk₂]
    by_cases hk₃ : key = keyCmdline
    · rw [if_pos hk₃, if_pos hk₃]
      rfl
    rw [if_neg hk₃, if_neg hk₃]
    by_cases hk₄ : key = keyModule
    · rw [if_pos hk₄, if_pos hk₄]
      dsimp only
      rw [applySetting]
      split <;> rfl
    · rw [if_neg hk₄, if_neg hk₄]
  · rw [setting_of_not_mem heq, cutLine_of_not_mem heq]
    simp only [parseLine, strchr_null heq hz, Option.pure_def, Option.bind_eq_bind,
      Option.bind_some]

/-! ## Ending a line -/

/-- The bytes that `_get_line` clears. -/
def isNewline (b : UInt8) : Bool := b = cr ∨ b = lf

theorem clearNewlines_eq {gap w : List UInt8} {b : UInt8} (hgap : ∀ b ∈ gap, isNewline b = true)
    (hb : isNewline b = false) :
    clearNewlines (gap ++ b :: w) = some (List.replicate gap.length 0, b :: w) := by
  induction gap with
  | nil => rw [List.nil_append, clearNewlines, if_neg (of_decide_eq_false hb)]; rfl
  | cons c gap ih =>
      have hc := of_decide_eq_true (hgap c List.mem_cons_self)
      rw [List.cons_append, clearNewlines, if_pos hc,
        ih fun b hb => hgap b (List.mem_cons_of_mem _ hb)]
      rfl

/-- Newlines up to the end of the memory. -/
theorem clearNewlines_none {gap : List UInt8} (hgap : ∀ b ∈ gap, isNewline b = true) :
    clearNewlines gap = none := by
  induction gap with
  | nil => rfl
  | cons c gap ih =>
      have hc := of_decide_eq_true (hgap c List.mem_cons_self)
      rw [clearNewlines, if_pos hc, ih fun b hb => hgap b (List.mem_cons_of_mem _ hb)]
      rfl

variable {fuel : Nat} {next : Option Nat} {l gap m w text : List UInt8} {b x : UInt8}
  {c : ConfigData}

theorem not_mem_of_newline (hx : isNewline x = true) (hl : ∀ b ∈ l, isNewline b = false) : x ∉ l :=
  fun hmem => Bool.false_ne_true ((hl x hmem).symm.trans hx)

/-- If both searches come to an end and there is an LF, the line ends at the
    first newline. -/
theorem lineEnd_eq (hl : ∀ b ∈ l, isNewline b = false) (hz : 0 ∉ l) (hx : isNewline x = true)
    (hcr : strchr (l ++ x :: m) cr ≠ none) (hlf : ∃ k, strchr (l ++ x :: m) lf = some (some k)) :
    ∃ endCr endLf, strchr (l ++ x :: m) cr = some endCr ∧ strchr (l ++ x :: m) lf = some endLf ∧
      lineEnd endCr endLf = some l.length := by
  have hcrl : cr ∉ l := not_mem_of_newline rfl hl
  have hlfl : lf ∉ l := not_mem_of_newline rfl hl
  obtain ⟨k, hk⟩ := hlf
  rcases of_decide_eq_true hx with rfl | rfl
  · refine ⟨_, _, strchr_eq hcrl hz (by decide) m, hk, ?_⟩
    -- the LF is behind the CR
    rw [strchr_append hlfl hz, strchr, if_neg (by decide), if_neg (by decide)] at hk
    rcases hm : strchr m lf with _ | _ | j
    · rw [hm] at hk
      cases hk
    · rw [hm] at hk
      cases hk
    · rw [hm] at hk
      have hkj : l.length + (j + 1) = k := Option.some.inj (Option.some.inj hk)
      rw [lineEnd, if_pos (by omega)]
  · have hfirst := strchr_eq hlfl hz (by decide) m
    cases hfound : strchr (l ++ lf :: m) cr with
    | none => exact absurd hfound hcr
    | some endCr =>
        refine ⟨endCr, _, rfl, hfirst, ?_⟩
        rw [strchr_append hcrl hz, strchr, if_neg (by decide), if_neg (by decide)] at hfound
        rcases hm : strchr m cr with _ | _ | j
        · rw [hm] at hfound
          cases hfound
        · rw [hm] at hfound
          cases hfound
          rfl
        · rw [hm] at hfound
          have hkj : some (l.length + (j + 1)) = endCr := Option.some.inj hfound
          rw [← hkj, lineEnd, if_neg (by omega)]

/-- What `_get_line` does where something follows the newlines. -/
theorem getLine_eq (hl : ∀ b ∈ l, isNewline b = false) (hz : 0 ∉ l) (hgap : gap ≠ [])
    (hnl : ∀ b ∈ gap, isNewline b = true) (hb : isNewline b = false)
    (hcr : strchr (l ++ (gap ++ b :: w)) cr ≠ none)
    (hlf : ∃ k, strchr (l ++ (gap ++ b :: w)) lf = some (some k)) (next : Option Nat) :
    getLine (l ++ (gap ++ b :: w)) next
      = some (l ++ (List.replicate gap.length 0 ++ b :: w),
          if b ≠ 0 then some (l.length + gap.length) else next) := by
  obtain ⟨x, gap', rfl⟩ := List.exists_cons_of_ne_nil hgap
  rw [List.cons_append] at hcr hlf
  obtain ⟨endCr, endLf, hendCr, hendLf, hend⟩ :=
    lineEnd_eq hl hz (hnl x List.mem_cons_self) hcr hlf
  rw [← List.cons_append] at hendCr hendLf
  simp only [getLine, hendCr, hendLf, hend, Option.bind_eq_bind, Option.bind_some,
    Option.pure_def, List.drop_left, clearNewlines_eq hnl hb, List.take_left, List.head?_cons,
    List.length_replicate, List.append_assoc]

/-- There is no LF before the NUL: the line is the last one. -/
theorem getLine_null (hlf : lf ∉ l) (hz : 0 ∉ l) (w : List UInt8) (next : Option Nat) :
    getLine (l ++ 0 :: w) next = some (l ++ 0 :: w, none) := by
  have hcr : strchr (l ++ 0 :: w) cr ≠ none :=
    strchr_isSome.mpr (Or.inr (List.mem_append_right _ List.mem_cons_self))
  obtain ⟨endCr, hendCr⟩ := Option.ne_none_iff_exists'.mp hcr
  have hend : lineEnd endCr none = none := by cases endCr <;> rfl
  simp only [getLine, hendCr, strchr_null hlf hz, hend, Option.bind_eq_bind, Option.bind_some,
    Option.pure_def]

/-! ## The loop -/

/-- How the parser reports what came of the lines. -/
def parseRet : Except ConfigData ConfigData → ParseRet
  | .ok cfg => .ret 0 cfg
  | .error cfg => .ret (-1) cfg

/-- One line, with another one behind it. -/
theorem configParseLoop_line (hl : ∀ b ∈ l, isNewline b = false) (hz : 0 ∉ l) (hgap : gap ≠ [])
    (hnl : ∀ b ∈ gap, isNewline b = true) (hb : isNewline b = false) (hb0 : b ≠ 0)
    (hcr : strchr (l ++ (gap ++ b :: w)) cr ≠ none)
    (hlf : ∃ k, strchr (l ++ (gap ++ b :: w)) lf = some (some k)) :
    configParseLoop (fuel + 1) cfg (l ++ (gap ++ b :: w)) next
      = match takeLines parsedVersion cfg [l] with
        | .error c => .ret (-1) c
        | .ok c => configParseLoop fuel c (b :: w) (some 0) := by
  obtain ⟨n, hn⟩ : ∃ n, gap.length = n + 1 :=
    Nat.exists_eq_succ_of_ne_zero fun h => hgap (List.eq_nil_of_length_eq_zero h)
  have hget := getLine_eq hl hz hgap hnl hb hcr hlf next
  rw [if_pos hb0, hn, List.replicate_succ, List.cons_append] at hget
  have hlen : (cutLine l).length = l.length := List.length_set
  have hdrop : (cutLine l ++ 0 :: (List.replicate n 0 ++ b :: w)).drop (l.length + (n + 1))
      = b :: w := by
    rw [← hlen, ← List.drop_drop, List.drop_left, List.drop_succ_cons]
    exact List.drop_left' List.length_replicate
  simp only [configParseLoop, hget, parseLine_eq cfg hz]
  cases takeLines parsedVersion cfg [l] with
  | error c => rfl
  | ok c =>
      dsimp only
      rw [hdrop]

/-- The last line, without a newline. -/
theorem configParseLoop_end (hlf : lf ∉ l) (hz : 0 ∉ l) :
    configParseLoop (fuel + 1) cfg (l ++ 0 :: w) next
      = parseRet (takeLines parsedVersion cfg [l]) := by
  simp only [configParseLoop, getLine_null hlf hz, parseLine_eq cfg hz]
  cases takeLines parsedVersion cfg [l] <;> rfl

/-- A line taken once more: its key is left, without a value. -/
theorem configParseLoop_again (hlf : lf ∉ l) (hz : 0 ∉ l) :
    configParseLoop (fuel + 1) cfg (cutLine l ++ 0 :: w) next = .ret 0 cfg := by
  by_cases heq : equals ∈ l
  · obtain ⟨key, val, rfl, hkey⟩ := List.eq_append_cons_of_mem heq
    have hlf' : lf ∉ key := fun h => hlf (List.mem_append_left _ h)
    have hz' : 0 ∉ key := fun h => hz (List.mem_append_left _ h)
    rw [cutLine_eq hkey, List.append_assoc, List.cons_append, configParseLoop_end hlf' hz',
      takeLines_singleton, setting_of_not_mem hkey]
    rfl
  · rw [cutLine_of_not_mem heq, configParseLoop_end hlf hz, takeLines_singleton,
      setting_of_not_mem heq]
    rfl

/-- The last line, with newlines behind it.  It is taken once more where
    `next` was set before. -/
theorem configParseLoop_last (hl : ∀ b ∈ l, isNewline b = false) (hz : 0 ∉ l) (hgap : gap ≠ [])
    (hnl : ∀ b ∈ gap, isNewline b = true) (hnext : next = none ∨ next = some 0)
    (hlf : ∃ k, strchr (l ++ (gap ++ 0 :: w)) lf = some (some k)) :
    configParseLoop (fuel + 2) cfg (l ++ (gap ++ 0 :: w)) next
      = parseRet (takeLines parsedVersion cfg [l]) := by
  obtain ⟨n, hn⟩ : ∃ n, gap.length = n + 1 :=
    Nat.exists_eq_succ_of_ne_zero fun h => hgap (List.eq_nil_of_length_eq_zero h)
  have hcr : strchr (l ++ (gap ++ 0 :: w)) cr ≠ none :=
    strchr_isSome.mpr (Or.inr (by simp))
  have hget := getLine_eq hl hz hgap hnl (by decide) hcr hlf next
  rw [if_neg (not_not_intro rfl), hn, List.replicate_succ, List.cons_append] at hget
  rw [configParseLoop]
  simp only [hget, parseLine_eq cfg hz]
  cases takeLines parsedVersion cfg [l] with
  | error c => rfl
  | ok c =>
      rcases hnext with rfl | rfl
      · rfl
      · exact configParseLoop_again (not_mem_of_newline rfl hl) hz

/-! ## Texts that end with a NUL -/

/-- There is a line end that `_get_line` knows without a CR. -/
def hasLf (text : List UInt8) : Bool := lf ∈ text

/-- The lines of a text as the parser cuts it. -/
def cutLines (text : List UInt8) : List (List UInt8) × List UInt8 :=
  linesWhile isNewline hasLf text

theorem cutLines_of_hasLf (h : hasLf text = true) (hne : text ≠ []) :
    cutLines text = (lineOf isNewline text :: (cutLines (restOf isNewline text)).1,
      (cutLines (restOf isNewline text)).2) := linesWhile_of_go h hne

theorem cutLines_of_not (h : hasLf text = false) : cutLines text = ([], text) :=
  linesWhile_of_not h

theorem strchr_lf (h : hasLf text = true) (hz : 0 ∉ text) (w : List UInt8) :
    ∃ k, strchr (text ++ w) lf = some (some k) := by
  obtain ⟨before, after, rfl, hfirst⟩ := List.eq_append_cons_of_mem (of_decide_eq_true h)
  rw [List.append_assoc, List.cons_append]
  exact ⟨_, strchr_eq hfirst (fun hmem => hz (List.mem_append_left _ hmem)) (by decide) _⟩

theorem gapOf_of_hasLf (h : hasLf text = true) : gapOf isNewline text ≠ [] :=
  gapOf_ne_nil (of_decide_eq_true h) (by decide)

/-- The lines in order, each once, and then what is left. -/
theorem configParseLoop_nul (after text : List UInt8) (hz : 0 ∉ text) (fuel : Nat)
    (cfg : ConfigData) (next : Option Nat) (hnext : next = none ∨ next = some 0)
    (hfuel : text.length + 2 ≤ fuel) :
    configParseLoop fuel cfg (text ++ 0 :: after) next
      = parseRet (takeLines parsedVersion cfg ((cutLines text).1 ++ [(cutLines text).2])) := by
  induction text using linesWhile_induct isNewline hasLf generalizing fuel cfg next with
  | htake text hgo hne ih =>
      have hsplit := line_gap_rest isNewline text
      have hlt : (restOf isNewline text).length < text.length := length_restOf_lt hne
      have hzl : 0 ∉ lineOf isNewline text := fun h => hz (mem_of_mem_lineOf h)
      have hzr : 0 ∉ restOf isNewline text := fun h => hz (mem_of_mem_restOf h)
      have hlf := strchr_lf hgo hz (0 :: after)
      rw [cutLines_of_hasLf hgo hne, List.cons_append, takeLines_cons]
      obtain ⟨fuel, rfl⟩ : ∃ n, fuel = n + 2 := ⟨fuel - 2, by omega⟩
      cases hrest : restOf isNewline text with
      | nil =>
          -- the newlines are the end of the text
          rw [hrest, List.append_nil] at hsplit
          rw [← hsplit, List.append_assoc] at hlf
          have hempty : cutLines [] = ([], []) := cutLines_of_not rfl
          conv_lhs => rw [← hsplit, List.append_assoc]
          rw [configParseLoop_last (fun b => not_sep_of_mem_lineOf) hzl (gapOf_of_hasLf hgo)
            (fun b => sep_of_mem_gapOf) hnext hlf, hempty]
          cases takeLines parsedVersion cfg [lineOf isNewline text] <;> rfl
      | cons b rest =>
          have hb0 : b ≠ 0 := by
            rintro rfl
            exact hzr (by rw [hrest]; exact List.mem_cons_self)
          have hmem : lineOf isNewline text ++ (gapOf isNewline text ++ b :: (rest ++ 0 :: after))
              = text ++ 0 :: after := by
            conv_rhs => rw [← hsplit, hrest]
            simp only [List.append_assoc, List.cons_append]
          have hcr : strchr (text ++ 0 :: after) cr ≠ none :=
            strchr_isSome.mpr (Or.inr (List.mem_append_right _ List.mem_cons_self))
          rw [← hmem] at hcr hlf ⊢
          rw [configParseLoop_line (fun b => not_sep_of_mem_lineOf) hzl (gapOf_of_hasLf hgo)
            (fun b => sep_of_mem_gapOf) (not_sep_head_restOf hrest) hb0 hcr hlf]
          cases takeLines parsedVersion cfg [lineOf isNewline text] with
          | error c => rfl
          | ok c =>
              rw [hrest] at ih hlt hzr
              exact ih hzr _ c (some 0) (Or.inr rfl) (by omega)
  | hleft text hend =>
      have hlf : hasLf text = false := by
        rcases hend with hno | rfl
        · exact hno
        · rfl
      obtain ⟨fuel, rfl⟩ : ∃ n, fuel = n + 1 := ⟨fuel - 1, by omega⟩
      rw [cutLines_of_not hlf]
      exact configParseLoop_end (of_decide_eq_false hlf) hz

/-- `_config_parse` of a text that ends with a NUL. -/
theorem configParse_nul (hz : 0 ∉ text) (after : List UInt8) :
    configParse zeroConfig (text ++ 0 :: after) = parseRet
      (takeLines parsedVersion startConfig ((cutLines text).1 ++ [(cutLines text).2])) := by
  rw [configParse]
  exact configParseLoop_nul after text hz _ _ none (Or.inl rfl) (by simp)

/-! ## Files without a NUL -/

/-- Both searches of `_get_line` stop in the text, and so does its loop. -/
def closed (text : List UInt8) : Bool :=
  cr ∈ text ∧ lf ∈ text ∧ restOf isNewline text ≠ []

/-- The lines at whose end nothing is read behind the text. -/
def closedLines (text : List UInt8) : List (List UInt8) := (linesWhile isNewline closed text).1

theorem closedLines_of_not (h : closed text = false) : closedLines text = [] := by
  rw [closedLines, linesWhile_of_not h]

/-- Where one of them does not stop, `_get_line` reads behind the text. -/
theorem getLine_none (hno : closed text = false) (hz : 0 ∉ text) (next : Option Nat) :
    getLine text next = none := by
  by_cases hcr : cr ∈ text
  · obtain ⟨endCr, hendCr⟩ := Option.ne_none_iff_exists'.mp (strchr_isSome.mpr (Or.inl hcr))
    by_cases hlf : lf ∈ text
    · -- the newlines are the end of the file
      have hrest : restOf isNewline text = [] := by
        by_contra hrest
        exact of_decide_eq_false hno ⟨hcr, hlf, hrest⟩
      have hnl : ∀ b ∈ gapOf isNewline text, isNewline b = true := fun b => sep_of_mem_gapOf
      have hlf' : hasLf text = true := decide_eq_true hlf
      have hsplit := line_gap_rest isNewline text
      have hcr' : strchr text cr ≠ none := strchr_isSome.mpr (Or.inl hcr)
      have hfound := strchr_lf hlf' hz []
      rw [hrest, List.append_nil] at hsplit
      rw [List.append_nil] at hfound
      obtain ⟨x, gap, hgap⟩ := List.exists_cons_of_ne_nil (gapOf_of_hasLf hlf')
      rw [← hsplit, hgap] at hcr' hfound ⊢
      obtain ⟨endCr, endLf, hendCr, hendLf, hstop⟩ :=
        lineEnd_eq (fun b => not_sep_of_mem_lineOf) (fun h => hz (mem_of_mem_lineOf h))
          (hnl x (by rw [hgap]; exact List.mem_cons_self)) hcr' hfound
      rw [hgap] at hnl
      simp only [getLine, hendCr, hendLf, hstop, Option.bind_eq_bind, Option.bind_some,
        List.drop_left, clearNewlines_none hnl, Option.bind_none]
    · have hnone : strchr text lf = none := by
        by_contra hsome
        exact (strchr_isSome.mp hsome).elim hlf hz
      simp only [getLine, hendCr, hnone, Option.bind_eq_bind, Option.bind_some,
        Option.bind_none]
  · have hnone : strchr text cr = none := by
      by_contra hsome
      exact (strchr_isSome.mp hsome).elim hcr hz
    simp only [getLine, hnone, Option.bind_eq_bind, Option.bind_none]

/-- One line of a file without a NUL, whatever is behind the file. -/
theorem configParseLoop_closed (hgo : closed text = true) (hz : 0 ∉ text) (w : List UInt8)
    (fuel : Nat) (cfg : ConfigData) (next : Option Nat) :
    configParseLoop (fuel + 1) cfg (text ++ w) next
      = match takeLines parsedVersion cfg [lineOf isNewline text] with
        | .error c => .ret (-1) c
        | .ok c => configParseLoop fuel c (restOf isNewline text ++ w) (some 0) := by
  obtain ⟨hcr, hlf, hrest⟩ := of_decide_eq_true hgo
  obtain ⟨b, rest, hrest⟩ := List.exists_cons_of_ne_nil hrest
  have hlf' : hasLf text = true := decide_eq_true hlf
  have hb0 : b ≠ 0 := by
    rintro rfl
    exact hz (mem_of_mem_restOf (by rw [hrest]; exact List.mem_cons_self))
  have hmem : lineOf isNewline text ++ (gapOf isNewline text ++ b :: (rest ++ w)) = text ++ w := by
    conv_rhs => rw [← line_gap_rest isNewline text, hrest]
    simp only [List.append_assoc, List.cons_append]
  have hcr' : strchr (text ++ w) cr ≠ none :=
    strchr_isSome.mpr (Or.inl (List.mem_append_left _ hcr))
  have hfound := strchr_lf hlf' hz w
  rw [hrest]
  rw [← hmem] at hcr' hfound ⊢
  exact configParseLoop_line (fun b => not_sep_of_mem_lineOf)
    (fun h => hz (mem_of_mem_lineOf h)) (gapOf_of_hasLf hlf') (fun b => sep_of_mem_gapOf)
    (not_sep_head_restOf hrest) hb0 hcr' hfound

/-- A line refused before the text is read to its end. -/
theorem configParseLoop_refused (w text : List UInt8) (hz : 0 ∉ text) (fuel : Nat)
    (cfg : ConfigData) (next : Option Nat) (hfuel : text.length + 1 ≤ fuel) {c : ConfigData}
    (hrefused : takeLines parsedVersion cfg (closedLines text) = .error c) :
    configParseLoop fuel cfg (text ++ w) next = .ret (-1) c := by
  induction text using linesWhile_induct isNewline closed generalizing fuel cfg next with
  | htake text hgo hne ih =>
      have hlt : (restOf isNewline text).length < text.length := length_restOf_lt hne
      obtain ⟨fuel, rfl⟩ : ∃ n, fuel = n + 1 := ⟨fuel - 1, by omega⟩
      rw [closedLines, linesWhile_of_go hgo hne, takeLines_cons, ← closedLines] at hrefused
      rw [configParseLoop_closed hgo hz]
      cases hline : takeLines parsedVersion cfg [lineOf isNewline text] with
      | error c' =>
          rw [hline] at hrefused
          cases hrefused
          rfl
      | ok c' =>
          rw [hline] at hrefused
          exact ih (fun h => hz (mem_of_mem_restOf h)) _ c' (some 0) (by omega) hrefused
  -- behind the last closed line nothing is left to refuse
  | hleft text hend =>
      have hno : closed text = false := by
        rcases hend with hno | rfl
        · exact hno
        · rfl
      rw [closedLines_of_not hno] at hrefused
      cases hrefused

/-- Otherwise the parser reads on behind the text. -/
theorem configParseLoop_fault (text : List UInt8) (hz : 0 ∉ text) (fuel : Nat)
    (cfg : ConfigData) (next : Option Nat) (hfuel : text.length + 1 ≤ fuel) {c : ConfigData}
    (htaken : takeLines parsedVersion cfg (closedLines text) = .ok c) :
    configParseLoop fuel cfg text next = .fault := by
  induction text using linesWhile_induct isNewline closed generalizing fuel cfg next with
  | htake text hgo hne ih =>
      have hlt : (restOf isNewline text).length < text.length := length_restOf_lt hne
      obtain ⟨fuel, rfl⟩ : ∃ n, fuel = n + 1 := ⟨fuel - 1, by omega⟩
      have hloop := configParseLoop_closed hgo hz [] fuel cfg next
      rw [List.append_nil, List.append_nil] at hloop
      rw [closedLines, linesWhile_of_go hgo hne, takeLines_cons, ← closedLines] at htaken
      rw [hloop]
      cases hline : takeLines parsedVersion cfg [lineOf isNewline text] with
      | error c' =>
          rw [hline] at htaken
          cases htaken
      | ok c' =>
          rw [hline] at htaken
          exact ih (fun h => hz (mem_of_mem_restOf h)) _ c' (some 0) (by omega) htaken
  -- no line is closed any more, so `strchr` looks for a newline past the end
  | hleft text hend =>
      obtain ⟨fuel, rfl⟩ : ∃ n, fuel = n + 1 := ⟨fuel - 1, by omega⟩
      have hno : closed text = false := by
        rcases hend with hno | rfl
        · exact hno
        · rfl
      simp only [configParseLoop, getLine_none hno hz]

end LBoot.Config
