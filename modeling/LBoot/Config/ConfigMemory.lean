/-
  LBoot.Config.ConfigMemory

  Does the configuration depend on the file only?

  The buffer holds the file and nothing else: no NUL is written behind it.
  So the file must end the text itself, with a NUL of its own, or make the
  parser give up before it gets to the end.  Otherwise what lies behind the
  buffer is parsed as well.
-/

import LBoot.Config.ConfigLines

namespace LBoot.Config

open LBoot.Lib LBoot.Stdlib

/-- A file of this content that is read whole. -/
def wholeFile (content : List UInt8) : ConfigFile :=
  ⟨content.length, fun sz _ => (s32 sz, content)⟩

variable {content after : List UInt8} {cfg : ConfigData}

/-- A file that is not empty is parsed, with what lies behind it. -/
theorem configLoad_wholeFile (hne : content ≠ []) (after : List UInt8) (cfg : ConfigData) :
    configLoad (some (wholeFile content)) after cfg
      = loadRet (configParse zeroConfig (content ++ after)) := by
  have hlen : content.length ≠ 0 := fun h => hne (List.eq_nil_of_length_eq_zero h)
  simp only [configLoad, wholeFile, hlen, if_false, ne_eq, not_true]

/-- The result of loading a file is that of the file: the parser never reads
    behind the buffer, and neither what lies there nor what the caller's
    configuration held before makes a difference. -/
def FromFile (content : List UInt8) : Prop :=
  ∃ r, r ≠ .fault ∧ r ≠ .stuck ∧
    ∀ after cfg, configLoad (some (wholeFile content)) after cfg = r

/-- For every file content: the result is that of the file if and only if the
    file is empty, which is a panic, or has a NUL in it, or has a line that is
    refused, and neither a search nor the loop of `_get_line` gets to the end
    of the file there. -/
theorem config_load_iff (content : List UInt8) :
    FromFile content ↔ content = [] ∨ 0 ∈ content ∨
      ∃ c, takeLines parsedVersion startConfig (closedLines content) = .error c := by
  by_cases hne : content = []
  · subst hne
    exact iff_of_true ⟨.panic, LoadRet.noConfusion, LoadRet.noConfusion, fun _ _ => rfl⟩
      (Or.inl rfl)
  by_cases hz : 0 ∈ content
  · refine iff_of_true ?_ (Or.inr (Or.inl hz))
    obtain ⟨text, more, rfl, hfirst⟩ := List.eq_append_cons_of_mem hz
    have hparse : ∀ after, configParse zeroConfig (text ++ 0 :: more ++ after) = parseRet
        (takeLines parsedVersion startConfig ((cutLines text).1 ++ [(cutLines text).2])) := by
      intro after
      rw [List.append_assoc, List.cons_append]
      exact configParse_nul hfirst (more ++ after)
    cases hlines : takeLines parsedVersion startConfig
        ((cutLines text).1 ++ [(cutLines text).2]) with
    | ok c =>
        refine ⟨.ret 0 c, LoadRet.noConfusion, LoadRet.noConfusion, fun after cfg => ?_⟩
        rw [configLoad_wholeFile hne, hparse, hlines]
        rfl
    | error c =>
        refine ⟨.ret (-1) c, LoadRet.noConfusion, LoadRet.noConfusion, fun after cfg => ?_⟩
        rw [configLoad_wholeFile hne, hparse, hlines]
        rfl
  cases hlines : takeLines parsedVersion startConfig (closedLines content) with
  | error c =>
      refine iff_of_true ?_ (Or.inr (Or.inr ⟨c, rfl⟩))
      refine ⟨.ret (-1) c, LoadRet.noConfusion, LoadRet.noConfusion, fun after cfg => ?_⟩
      have hparse : configParse zeroConfig (content ++ after) = .ret (-1) c := by
        rw [configParse]
        apply configParseLoop_refused after content hz _ _ none _ hlines
        rw [List.length_append]
        omega
      rw [configLoad_wholeFile hne, hparse]
      rfl
  | ok c =>
      refine iff_of_false ?_ ?_
      · rintro ⟨r, hfault, -, hr⟩
        -- nothing behind the buffer
        have hload := hr [] zeroConfig
        have hparse : configParse zeroConfig content = .fault := by
          rw [configParse]
          exact configParseLoop_fault content hz _ _ none (by omega) hlines
        rw [configLoad_wholeFile hne, List.append_nil, hparse] at hload
        exact hfault hload.symm
      · rintro (hnil | hmem | ⟨c', hc'⟩)
        · exact hne hnil
        · exact hz hmem
        · cases hc'

/-- `KERNEL=ab`, and what may lie behind it: the path of the kernel is not the
    one in the file. -/
theorem config_load_reads_on :
    configLoad (some (wholeFile [0x4b, 0x45, 0x52, 0x4e, 0x45, 0x4c, 0x3d, 0x61, 0x62])) [0]
        zeroConfig
      = .ret 0 { startConfig with kernelPath := some [0x61, 0x62] } ∧
    configLoad (some (wholeFile [0x4b, 0x45, 0x52, 0x4e, 0x45, 0x4c, 0x3d, 0x61, 0x62])) [0x78, 0]
        zeroConfig
      = .ret 0 { startConfig with kernelPath := some [0x61, 0x62, 0x78] } ∧
    ¬ FromFile [0x4b, 0x45, 0x52, 0x4e, 0x45, 0x4c, 0x3d, 0x61, 0x62] := by
  have hend : configLoad (some (wholeFile [0x4b, 0x45, 0x52, 0x4e, 0x45, 0x4c, 0x3d, 0x61, 0x62]))
      [0] zeroConfig = .ret 0 { startConfig with kernelPath := some [0x61, 0x62] } := by
    decide
  have hmore : configLoad (some (wholeFile [0x4b, 0x45, 0x52, 0x4e, 0x45, 0x4c, 0x3d, 0x61, 0x62]))
      [0x78, 0] zeroConfig = .ret 0 { startConfig with kernelPath := some [0x61, 0x62, 0x78] } := by
    decide
  refine ⟨hend, hmore, ?_⟩
  rintro ⟨r, -, -, hr⟩
  have hsame := (hr [0] zeroConfig).trans (hr [0x78, 0] zeroConfig).symm
  rw [hend, hmore] at hsame
  exact absurd hsame (by decide)

end LBoot.Config
