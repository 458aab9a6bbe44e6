/-
  LBoot.Config.ConfigGrammar

  The parser and the grammar of the configuration file.

  The grammar: lines between newlines, CR or LF, each with a setting or none;
  a `CFGVER` must be 1.  The parser differs in two places.  A CR with no LF
  behind it does not end a line, so what is behind the last LF is one line.
  And a version is read with `A` as a digit, and cut to a byte
  (`parsedVersion_eq`).

  Taking lines in order is refused, or gives the configuration that all the
  settings give, whatever the reading of versions (`takeLines_ok_iff`).  So
  the parser and the grammar agree if they refuse the same, and the line at
  the end makes no difference (`config_parse_iff`).
-/

import LBoot.Config.ConfigLines

namespace LBoot.Config

open LBoot.Lib LBoot.Stdlib

/-! ## The grammar -/

def isDigit (b : UInt8) : Bool := 0x30 ≤ b ∧ b ≤ 0x39

/-- The decimal numeral at the front of a value; none is zero. -/
def leadingNumeral (val : List UInt8) : Nat :=
  (val.takeWhile isDigit).foldl (fun n b => 10 * n + (b.toNat - 0x30)) 0

/-- The lines.  A run of newlines leaves empty ones, which set nothing. -/
def grammarLines (text : List UInt8) : List (List UInt8) := text.splitOnP isNewline

/-- Behind a text that ends with a NUL, `_config_parse` ends with what the
    lines of the grammar give. -/
def ParsesAsGrammar (text : List UInt8) : Prop :=
  ∀ after, match takeLines leadingNumeral startConfig (grammarLines text) with
    | .ok cfg => configParse zeroConfig (text ++ 0 :: after) = .ret 0 cfg
    | .error _ => ∃ cfg, configParse zeroConfig (text ++ 0 :: after) = .ret (-1) cfg

/-! ## Settings, in no particular order -/

def Setting.isVersion : Setting → Bool
  | .version _ => true
  | _ => false

def Setting.isModule : Setting → Bool
  | .module _ => true
  | _ => false

/-- The value set. -/
def Setting.val : Setting → List UInt8
  | .version val => val
  | .kernel val => val
  | .cmdline val => val
  | .module val => val

/-- What a setting does where it is not refused. -/
def putSetting (cfg : ConfigData) : Setting → ConfigData
  | .version _ => { cfg with configVersion := 1 }
  | .kernel val => { cfg with kernelPath := some val }
  | .cmdline val => { cfg with kernelCmdline := some val }
  | .module val => { cfg with
      modules := cfg.modules.modify cfg.moduleCount fun md =>
        { md with modulePath := some val, moduleName := some val }
      moduleCount := cfg.moduleCount + 1 }

/-- Every version is 1, and there is no fifth module. -/
structure Accepted (version : List UInt8 → Nat) (lines : List (List UInt8)) : Prop where
  versions : ∀ val, .version val ∈ lines.filterMap setting → version val = 1
  modules : (lines.filterMap setting).countP Setting.isModule ≤ maxModules

/-- What the lines make of a configuration, if none is refused. -/
def configured (cfg : ConfigData) (lines : List (List UInt8)) : ConfigData :=
  (lines.filterMap setting).foldl putSetting cfg

variable {version : List UInt8 → Nat} {cfg c : ConfigData} {settings : List Setting}
  {lines : List (List UInt8)} {text line w : List UInt8} {s : Setting}

theorem applySetting_ok_iff : applySetting version cfg s = .ok c ↔
    (∀ val, s = .version val → version val = 1) ∧
      (s.isModule = true → cfg.moduleCount ≠ maxModules) ∧ c = putSetting cfg s := by
  cases s with
  | version val =>
      rw [applySetting]
      by_cases hv : version val = 1
      · simp only [hv, ne_eq, not_true, if_false, Except.ok.injEq, Setting.isModule, putSetting,
          Setting.version.injEq, forall_eq', true_and, Bool.false_eq_true, false_implies]
        exact eq_comm
      · simp [hv]
  | kernel val => simp [applySetting, Setting.isModule, putSetting, eq_comm]
  | cmdline val => simp [applySetting, Setting.isModule, putSetting, eq_comm]
  | module val =>
      rw [applySetting]
      by_cases hcount : cfg.moduleCount = maxModules
      · simp [hcount, Setting.isModule]
      · simp [hcount, Setting.isModule, putSetting, eq_comm]

theorem moduleCount_putSetting (cfg : ConfigData) (s : Setting) :
    (putSetting cfg s).moduleCount = cfg.moduleCount + if s.isModule then 1 else 0 := by
  cases s <;> rfl

/-- Settings applied in order: only the versions and the number of modules
    decide whether one is refused. -/
theorem foldlM_applySetting_ok_iff (hcount : cfg.moduleCount ≤ maxModules) :
    settings.foldlM (applySetting version) cfg = .ok c ↔
      (∀ val, .version val ∈ settings → version val = 1) ∧
        cfg.moduleCount + settings.countP Setting.isModule ≤ maxModules ∧
          c = settings.foldl putSetting cfg := by
  -- over the settings; what one of them leaves of the modules that still
  -- fit carries it
  induction settings generalizing cfg with
  | nil =>
      rw [List.foldlM_nil, List.countP_nil, List.foldl_nil]
      constructor
      · rintro ⟨⟩
        exact ⟨fun _ h => absurd h List.not_mem_nil, hcount, rfl⟩
      · rintro ⟨-, -, rfl⟩
        rfl
  | cons s settings ih =>
      have hput := moduleCount_putSetting cfg s
      rw [List.foldlM_cons, List.countP_cons, List.foldl_cons]
      constructor
      · intro h
        cases hs : applySetting version cfg s with
        | error c' =>
            rw [hs] at h
            cases h
        | ok c' =>
            rw [hs] at h
            obtain ⟨hversion, hmodule, rfl⟩ := applySetting_ok_iff.mp hs
            have hcount' : (putSetting cfg s).moduleCount ≤ maxModules := by
              rw [hput]
              split
              · next hm => exact Nat.lt_of_le_of_ne hcount (hmodule hm)
              · exact hcount
            obtain ⟨hversions, hmodules, hc⟩ := (ih hcount').mp h
            refine ⟨fun val hval => ?_, by omega, hc⟩
            rcases List.mem_cons.mp hval with heq | hmem
            · exact hversion val heq.symm
            · exact hversions val hmem
      · rintro ⟨hversions, hmodules, hc⟩
        have hs : applySetting version cfg s = .ok (putSetting cfg s) := by
          refine applySetting_ok_iff.mpr ⟨fun val heq => ?_, fun hm hfull => ?_, rfl⟩
          · exact hversions val (heq ▸ List.mem_cons_self)
          · rw [if_pos hm] at hmodules
            omega
        rw [hs]
        refine (ih (by rw [hput]; omega)).mpr ⟨fun val hval => ?_, by omega, hc⟩
        exact hversions val (List.mem_cons_of_mem _ hval)

theorem takeLines_ok_iff : takeLines version startConfig lines = .ok c ↔
    Accepted version lines ∧ c = configured startConfig lines := by
  have hstart : startConfig.moduleCount = 0 := rfl
  rw [takeLines, foldlM_applySetting_ok_iff (by rw [hstart]; exact Nat.zero_le _), hstart,
    Nat.zero_add, configured, ← and_assoc]
  exact and_congr_left' ⟨fun h => ⟨h.1, h.2⟩, fun h => ⟨h.versions, h.modules⟩⟩

/-- What is not accepted is refused. -/
theorem takeLines_error_iff :
    (∃ c, takeLines version startConfig lines = .error c) ↔ ¬ Accepted version lines := by
  cases h : takeLines version startConfig lines with
  | ok c => exact iff_of_false (fun ⟨_, hc⟩ => nomatch hc) (not_not_intro (takeLines_ok_iff.mp h).1)
  | error c =>
      refine iff_of_true ⟨c, rfl⟩ fun hacc => ?_
      have hok := takeLines_ok_iff.mpr ⟨hacc, rfl⟩
      rw [h] at hok
      cases hok

/-! ## The lines of the parser and those of the grammar -/

/-- The lines as the parser takes them. -/
def parserLines (text : List UInt8) : List (List UInt8) := (cutLines text).1 ++ [(cutLines text).2]

/-- What is left behind the last cut has no LF. -/
theorem hasLf_cutLines (text : List UInt8) : hasLf (cutLines text).2 = false := by
  induction text using linesWhile_induct isNewline hasLf with
  | htake text hgo hne ih =>
      rw [cutLines_of_hasLf hgo hne]
      exact ih
  | hleft text hend =>
      have hno : hasLf text = false := by
        rcases hend with hno | rfl
        · exact hno
        · rfl
      rw [cutLines_of_not hno, hno]

/-- The grammar cuts what the parser cuts, and then on. -/
theorem grammar_settings (text : List UInt8) : (grammarLines text).filterMap setting
    = (cutLines text).1.filterMap setting
      ++ (grammarLines (cutLines text).2).filterMap setting := by
  induction text using linesWhile_induct isNewline hasLf with
  | htake text hgo hne ih =>
      rw [grammarLines, filterMap_splitOnP setting_nil, ← grammarLines, ih,
        cutLines_of_hasLf hgo hne]
      dsimp only
      cases hs : setting (lineOf isNewline text) with
      | none => rw [List.filterMap_cons_none hs]; rfl
      | some s => rw [List.filterMap_cons_some hs]; rfl
  | hleft text hend =>
      have hno : hasLf text = false := by
        rcases hend with hno | rfl
        · exact hno
        · rfl
      rw [cutLines_of_not hno]
      rfl

theorem configured_append (cfg : ConfigData) (lines lines' : List (List UInt8)) :
    configured cfg (lines ++ lines') = configured (configured cfg lines) lines' := by
  rw [configured, List.filterMap_append, List.foldl_append]
  rfl

theorem configured_grammarLines (text : List UInt8) : configured startConfig (grammarLines text)
    = configured (configured startConfig (cutLines text).1) (grammarLines (cutLines text).2) := by
  rw [configured, grammar_settings, List.foldl_append]
  rfl

theorem configured_singleton (cfg : ConfigData) (line : List UInt8) :
    configured cfg [line] = (setting line).toList.foldl putSetting cfg := by
  rw [configured]
  cases hs : setting line with
  | none => rw [List.filterMap_cons_none hs]; rfl
  | some s => rw [List.filterMap_cons_some hs]; rfl

/-- A text in two lines, or one. -/
theorem configured_first (cfg : ConfigData) (text : List UInt8) :
    configured cfg (grammarLines text) = configured (configured cfg [lineOf isNewline text])
      (grammarLines (restOf isNewline text)) := by
  rw [configured_singleton, configured, grammarLines, filterMap_splitOnP setting_nil,
    List.foldl_append]
  rfl

/-! ## A CR in the last line -/

/-- No value has a CR in it. -/
structure CrFree (cfg : ConfigData) : Prop where
  path : ∀ val, cfg.kernelPath = some val → cr ∉ val
  cmdline : ∀ val, cfg.kernelCmdline = some val → cr ∉ val
  modules : ∀ md ∈ cfg.modules, ∀ val, md.modulePath = some val → cr ∉ val

theorem crFree_startConfig : CrFree startConfig := by
  constructor
  · rintro val ⟨⟩
  · rintro val ⟨⟩
  · intro md hmd val hval
    rw [List.eq_of_mem_replicate hmd] at hval
    cases hval

theorem CrFree.put (h : CrFree cfg) (hs : cr ∉ s.val) : CrFree (putSetting cfg s) := by
  cases s with
  | version val => exact ⟨h.path, h.cmdline, h.modules⟩
  | kernel val =>
      refine ⟨?_, h.cmdline, h.modules⟩
      rintro _ ⟨⟩
      exact hs
  | cmdline val =>
      refine ⟨h.path, ?_, h.modules⟩
      rintro _ ⟨⟩
      exact hs
  | module val =>
      refine ⟨h.path, h.cmdline, fun md hmd val' hval' => ?_⟩
      obtain ⟨i, hi, rfl⟩ := List.getElem_of_mem hmd
      have hlen : i < cfg.modules.length := by
        rwa [putSetting, List.length_modify] at hi
      have hold := h.modules cfg.modules[i] (List.getElem_mem hlen)
      simp only [putSetting, List.getElem_modify] at hval'
      split at hval'
      · cases hval'
        exact hs
      · exact hold val' hval'

/-- The value of a setting is a part of its line. -/
theorem mem_of_mem_val (h : setting line = some s) {b : UInt8} (hb : b ∈ s.val) : b ∈ line := by
  rw [setting] at h
  split at h
  · cases h
  · next key val hkv =>
    rw [keyValue] at hkv
    split at hkv
    · obtain ⟨-, rfl⟩ := Prod.mk.inj (Option.some.inj hkv)
      have hval : s.val = (line.dropWhile (· ≠ equals)).tail := by
        repeat' split at h
        all_goals first | cases h; rfl | cases h
      rw [hval] at hb
      exact (List.dropWhile_sublist _).subset (List.mem_of_mem_tail hb)
    · cases hkv

theorem CrFree.configured (h : CrFree cfg) (hlines : ∀ line ∈ lines, cr ∉ line) :
    CrFree (configured cfg lines) := by
  rw [LBoot.Config.configured]
  apply List.foldlRecOn (motive := CrFree) _ _ h
  intro c hc s hs
  obtain ⟨line, hmem, hline⟩ := List.mem_filterMap.mp hs
  exact hc.put fun hcr => hlines line hmem (mem_of_mem_val hline hcr)

/-- A longer value. -/
def Setting.extend (w : List UInt8) : Setting → Setting
  | .version val => .version (val ++ w)
  | .kernel val => .kernel (val ++ w)
  | .cmdline val => .cmdline (val ++ w)
  | .module val => .module (val ++ w)

/-- What follows a CR in a line goes to the value; a key with a CR in it is
    none of the four. -/
theorem setting_append_cr (hline : cr ∉ line) (w : List UInt8) :
    setting (line ++ cr :: w) = (setting line).map (Setting.extend (cr :: w)) := by
  -- the first `=` splits the line: the CR is behind it, or before it
  by_cases heq : equals ∈ line
  · obtain ⟨key, val, rfl, hkey⟩ := List.eq_append_cons_of_mem heq
    rw [List.append_assoc, List.cons_append, setting, setting, keyValue_eq hkey,
      keyValue_eq hkey]
    dsimp only
    repeat' split
    all_goals rfl
  · rw [setting_of_not_mem heq]
    by_cases hw : equals ∈ w
    · obtain ⟨key, val, rfl, hkey⟩ := List.eq_append_cons_of_mem hw
      have hkey' : equals ∉ line ++ cr :: key := by
        rintro hmem
        rcases List.mem_append.mp hmem with hmem | hmem
        · exact heq hmem
        · rcases List.mem_cons.mp hmem with hmem | hmem
          · exact absurd hmem (by decide)
          · exact hkey hmem
      have hsplit : line ++ cr :: (key ++ equals :: val) = (line ++ cr :: key) ++ equals :: val := by
        rw [List.append_assoc, List.cons_append]
      have hcr : cr ∈ line ++ cr :: key := List.mem_append_right _ List.mem_cons_self
      -- none of the four keys has a CR in it
      have hne : ∀ k : List UInt8, cr ∉ k → line ++ cr :: key ≠ k := by
        rintro k hk rfl
        exact hk hcr
      rw [hsplit, setting, keyValue_eq hkey']
      dsimp only
      rw [if_neg (hne _ (by decide)), if_neg (hne _ (by decide)), if_neg (hne _ (by decide)),
        if_neg (hne _ (by decide))]
      rfl
    · apply setting_of_not_mem
      intro hmem
      rcases List.mem_append.mp hmem with hmem | hmem
      · exact heq hmem
      · rcases List.mem_cons.mp hmem with hmem | hmem
        · exact absurd hmem (by decide)
        · exact hw hmem

/-- Such a value shows in the configuration. -/
theorem not_crFree_putSetting (hs : cr ∈ s.val) (hversion : s.isVersion = false)
    (hroom : s.isModule = true → cfg.moduleCount < cfg.modules.length) :
    ¬ CrFree (putSetting cfg s) := by
  intro h
  cases s with
  | version val => cases hversion
  | kernel val => exact h.path val rfl hs
  | cmdline val => exact h.cmdline val rfl hs
  | module val =>
      have hlt := hroom rfl
      have hlen : cfg.moduleCount < (putSetting cfg (.module val)).modules.length := by
        rwa [putSetting, List.length_modify]
      refine h.modules _ (List.getElem_mem hlen) val ?_ hs
      simp [putSetting]

/-- The modules of a configuration that lines give. -/
theorem configured_modules (cfg : ConfigData) (lines : List (List UInt8)) :
    (configured cfg lines).moduleCount
        = cfg.moduleCount + (lines.filterMap setting).countP Setting.isModule ∧
      (configured cfg lines).modules.length = cfg.modules.length := by
  rw [configured]
  induction lines.filterMap setting generalizing cfg with
  | nil => exact ⟨rfl, rfl⟩
  | cons s settings ih =>
      obtain ⟨hcount, hlen⟩ := ih (putSetting cfg s)
      have hput : (putSetting cfg s).modules.length = cfg.modules.length := by
        cases s with
        | module val => rw [putSetting, List.length_modify]
        | _ => rfl
      rw [List.foldl_cons, hcount, hlen, moduleCount_putSetting, List.countP_cons, hput]
      exact ⟨by omega, rfl⟩

/-- Without an LF the first line ends at a CR. -/
theorem exists_line_cr (hcr : cr ∈ text) (hlf : lf ∉ text) :
    ∃ w, lineOf isNewline text ++ cr :: w = text := by
  have hsplit := line_gap_rest isNewline text
  obtain ⟨x, gap, hx⟩ := List.exists_cons_of_ne_nil (gapOf_ne_nil hcr (rfl : isNewline cr = true))
  have hnl : isNewline x = true := sep_of_mem_gapOf (by rw [hx]; exact List.mem_cons_self)
  rw [hx, List.cons_append] at hsplit
  rcases of_decide_eq_true hnl with rfl | rfl
  · exact ⟨_, hsplit⟩
  · refine absurd ?_ hlf
    rw [← hsplit]
    exact List.mem_append_right _ List.mem_cons_self

/-- A CR behind the last LF, and behind the CRs that follow it, is no line end
    to the parser.  Here that makes no difference: the line before that CR
    sets no path, command line or module, and the lines behind it change
    nothing. -/
def Harmless (text : List UInt8) : Prop :=
  let last := (cutLines text).2
  let cfg := configured startConfig ((cutLines text).1 ++ [lineOf isNewline last])
  cr ∉ last ∨ (setting (lineOf isNewline last)).all Setting.isVersion = true ∧
    configured cfg (grammarLines (restOf isNewline last)) = cfg

/-- Where nothing is refused, the parser and the grammar give the same
    configuration if and only if the last line is harmless. -/
theorem configured_eq_iff (hp : Accepted parsedVersion (parserLines text)) :
    configured startConfig (grammarLines text) = configured startConfig (parserLines text) ↔
      Harmless text := by
  have hcrnl : isNewline cr = true := rfl
  have hlf : lf ∉ (cutLines text).2 := of_decide_eq_false (hasLf_cutLines text)
  obtain ⟨hcount, hlen⟩ := configured_modules startConfig (cutLines text).1
  have hmodules := hp.modules
  rw [parserLines, List.filterMap_append, List.countP_append] at hmodules
  -- no setting that the grammar allows has a CR in it
  have hfree : CrFree (configured startConfig (grammarLines text)) :=
    crFree_startConfig.configured fun line hline hmem =>
      Bool.false_ne_true ((not_sep_of_mem_splitOnP hline hmem).symm.trans hcrnl)
  rw [Harmless, configured_append]
  rw [configured_grammarLines] at hfree ⊢
  rw [parserLines, configured_append]
  generalize (cutLines text).2 = last at *
  generalize configured startConfig (cutLines text).1 = cfg at *
  by_cases hcr : cr ∈ last
  · -- the last line, up to the CR
    obtain ⟨w, hsplit⟩ := exists_line_cr hcr hlf
    have hfirst : cr ∉ lineOf isNewline last := fun hmem =>
      Bool.false_ne_true ((not_sep_of_mem_lineOf hmem).symm.trans hcrnl)
    have hset := setting_append_cr hfirst w
    rw [hsplit] at hset
    rw [configured_first] at hfree ⊢
    rw [configured_singleton cfg last, hset]
    cases hs : setting (lineOf isNewline last) with
    | none =>
        rw [configured_singleton, hs]
        simp [hcr]
    | some s =>
        cases hversion : s.isVersion with
        | true =>
            cases s with
            | version val =>
                rw [configured_singleton, hs]
                simp [hcr, hversion, Setting.extend, putSetting]
            | _ => cases hversion
        | false =>
            refine iff_of_false (fun heq => ?_) ?_
            · rw [heq] at hfree
              refine not_crFree_putSetting ?_ ?_ (fun hm => ?_) hfree
              · cases s <;> simp [Setting.extend, Setting.val]
              · cases s <;> first | rfl | cases hversion
              · have hone : ([last].filterMap setting).countP Setting.isModule = 1 := by
                  rw [List.filterMap_cons_some (hset.trans (by rw [hs]; rfl)), List.filterMap_nil,
                    List.countP_cons, if_pos hm, List.countP_nil]
                have hroom : startConfig.modules.length = maxModules := rfl
                have hnone : startConfig.moduleCount = 0 := rfl
                omega
            · rintro (hno | ⟨hall, -⟩)
              · exact hno hcr
              · simp [hversion] at hall
  · have hnl : ∀ b ∈ last, isNewline b = false := by
      intro b hb
      refine decide_eq_false ?_
      rintro (rfl | rfl)
      · exact hcr hb
      · exact hlf hb
    rw [grammarLines, List.splitOnP_eq_singleton hnl]
    exact iff_of_true rfl (Or.inl hcr)

/-! ## Versions -/

/-- A version is read with `A` as a digit, and cut to a byte. -/
theorem parsedVersion_eq (val : List UInt8) : parsedVersion val
    = (val.takeWhile isStrtoulDigit).foldl (fun n b => 10 * n + strtoulDigit b) 0 % 2 ^ 8 := by
  have hloop : ∀ (val : List UInt8) (res res' : Nat), res % 2 ^ 8 = res' % 2 ^ 8 → ∃ n,
      strtoulLoop 10 (val ++ [0]) res = some n ∧ n % 2 ^ 8
        = (val.takeWhile isStrtoulDigit).foldl (fun n b => 10 * n + strtoulDigit b) res'
          % 2 ^ 8 := by
    intro val
    induction val with
    | nil => exact fun res res' hres => ⟨res, rfl, hres⟩
    | cons b val ih =>
        intro res res' hres
        rw [List.cons_append, strtoulLoop_cons]
        cases hb : isStrtoulDigit b with
        | false =>
            rw [List.takeWhile_cons_of_neg (by rw [hb]; exact Bool.false_ne_true)]
            exact ⟨res, rfl, hres⟩
        | true =>
            rw [if_pos rfl, List.takeWhile_cons_of_pos hb, List.foldl_cons]
            apply ih
            rw [u32]
            omega
  obtain ⟨n, hn, hmod⟩ := hloop val 0 0 rfl
  rw [parsedVersion, strtoulValue, strtoul, hn, Option.getD_some, hmod]

/-! ## The parser -/

/-- For every text without a NUL: behind it the parser does what the grammar
    says if and only if they refuse the same, and where they do not, the last
    line is harmless. -/
theorem config_parse_iff (text : List UInt8) (hz : 0 ∉ text) :
    ParsesAsGrammar text ↔
      (Accepted leadingNumeral (grammarLines text) ↔ Accepted parsedVersion (parserLines text)) ∧
        (Accepted leadingNumeral (grammarLines text) → Harmless text) := by
  have hparse : ∀ after, configParse zeroConfig (text ++ 0 :: after)
      = parseRet (takeLines parsedVersion startConfig (parserLines text)) :=
    configParse_nul hz
  simp only [ParsesAsGrammar, hparse, forall_const]
  -- accepted by the grammar, the parser has to reach the same settings;
  -- refused, it only has to refuse
  cases hgrammar : takeLines leadingNumeral startConfig (grammarLines text) with
  | ok c =>
      obtain ⟨hg, hc⟩ := takeLines_ok_iff.mp hgrammar
      constructor
      · intro h
        have hok : takeLines parsedVersion startConfig (parserLines text) = .ok c := by
          cases hp : takeLines parsedVersion startConfig (parserLines text) with
          | ok c' =>
              rw [hp] at h
              cases h
              rfl
          | error c' =>
              rw [hp] at h
              cases h
        obtain ⟨hp, hc'⟩ := takeLines_ok_iff.mp hok
        exact ⟨iff_of_true hg hp, fun _ => (configured_eq_iff hp).mp (hc.symm.trans hc')⟩
      · rintro ⟨hiff, hharmless⟩
        have hp := hiff.mp hg
        have hok : takeLines parsedVersion startConfig (parserLines text) = .ok c :=
          takeLines_ok_iff.mpr ⟨hp, hc.trans ((configured_eq_iff hp).mpr (hharmless hg))⟩
        rw [hok]
        rfl
  | error c =>
      have hg : ¬ Accepted leadingNumeral (grammarLines text) := takeLines_error_iff.mp ⟨c, hgrammar⟩
      constructor
      · rintro ⟨c', h⟩
        have hp : ¬ Accepted parsedVersion (parserLines text) := by
          intro hp
          rw [takeLines_ok_iff.mpr ⟨hp, rfl⟩] at h
          cases h
        exact ⟨iff_of_false hg hp, fun h => absurd h hg⟩
      · rintro ⟨hiff, -⟩
        obtain ⟨c', hc'⟩ := takeLines_error_iff.mpr fun hp => hg (hiff.mpr hp)
        rw [hc']
        exact ⟨c', rfl⟩


/-- Lines that end with CR and LF. -/
theorem config_parse_iff_crlf : ParsesAsGrammar
    (keyCfgver ++ [equals, 0x31, cr, lf] ++ keyKernel ++ [equals, 0x61]) := by
  have hline : lineOf isNewline (keyCfgver ++ [equals, 0x31, cr, lf] ++ keyKernel ++ [equals, 0x61])
      = keyCfgver ++ [equals, 0x31] := by decide
  have hrest : restOf isNewline (keyCfgver ++ [equals, 0x31, cr, lf] ++ keyKernel ++ [equals, 0x61])
      = keyKernel ++ [equals, 0x61] := by decide
  have hcut : cutLines (keyCfgver ++ [equals, 0x31, cr, lf] ++ keyKernel ++ [equals, 0x61])
      = ([keyCfgver ++ [equals, 0x31]], keyKernel ++ [equals, 0x61]) := by
    rw [cutLines_of_hasLf (by decide) (by decide), hline, hrest, cutLines_of_not (by decide)]
  have hg : Accepted leadingNumeral
      (grammarLines (keyCfgver ++ [equals, 0x31, cr, lf] ++ keyKernel ++ [equals, 0x61])) :=
    (takeLines_ok_iff (c := { startConfig with configVersion := 1, kernelPath := some [0x61] }).mp
      (by decide)).1
  have hp : Accepted parsedVersion
      (parserLines (keyCfgver ++ [equals, 0x31, cr, lf] ++ keyKernel ++ [equals, 0x61])) := by
    rw [parserLines, hcut]
    exact (takeLines_ok_iff
      (c := { startConfig with configVersion := 1, kernelPath := some [0x61] }).mp (by decide)).1
  refine (config_parse_iff _ (by decide)).mpr ⟨iff_of_true hg hp, fun _ => Or.inl ?_⟩
  rw [hcut]
  decide

/-- Version 257 is accepted, `1A` is not, and a CR alone does not end a line:
    the kernel gets the command line into its path. -/
theorem config_parse_differs :
    ¬ ParsesAsGrammar (keyCfgver ++ [equals, 0x32, 0x35, 0x37]) ∧
    ¬ ParsesAsGrammar (keyCfgver ++ [equals, 0x31, 0x41]) ∧
    ¬ ParsesAsGrammar (keyKernel ++ [equals, 0x61, cr] ++ keyCmdline ++ [equals, 0x62]) := by
  refine ⟨fun h => ?_, fun h => ?_, fun h => ?_⟩
  · have hg : takeLines leadingNumeral startConfig
        (grammarLines (keyCfgver ++ [equals, 0x32, 0x35, 0x37]))
          = .error { startConfig with configVersion := 257 } := by decide
    have hp : configParse zeroConfig (keyCfgver ++ [equals, 0x32, 0x35, 0x37] ++ [0])
        = .ret 0 { startConfig with configVersion := 1 } := by decide
    have hr := h []
    rw [hg] at hr
    obtain ⟨cfg, hcfg⟩ := hr
    rw [hp] at hcfg
    cases hcfg
  · have hg : takeLines leadingNumeral startConfig
        (grammarLines (keyCfgver ++ [equals, 0x31, 0x41]))
          = .ok { startConfig with configVersion := 1 } := by decide
    have hp : configParse zeroConfig (keyCfgver ++ [equals, 0x31, 0x41] ++ [0])
        = .ret (-1) { startConfig with configVersion := 20 } := by decide
    have hr := h []
    rw [hg] at hr
    dsimp only at hr
    rw [hp] at hr
    cases hr
  · have hg : takeLines leadingNumeral startConfig
        (grammarLines (keyKernel ++ [equals, 0x61, cr] ++ keyCmdline ++ [equals, 0x62]))
          = .ok { startConfig with kernelPath := some [0x61], kernelCmdline := some [0x62] } := by
      decide
    have hr := h []
    rw [hg] at hr
    exact absurd hr (by decide)

end LBoot.Config
