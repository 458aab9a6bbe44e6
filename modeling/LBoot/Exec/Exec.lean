/-
  LBoot.Exec.Exec

  From an opened file to the jump into the kernel (src/exec/exec.c,
  src/exec/fmt/flat.c).

  `exec_open` looks at the first 512 bytes of the file and takes it for an ELF
  file or for a flat binary; `exec_exec` prepares and loads it, loads the
  modules behind it, looks for a multiboot header and jumps.  The parts have
  modules of their own; here they are put together.

  A flat binary is opened, and refused: its load address is never set
  (`execExec_flat`).  What is jumped into is the entry point of an ELF file,
  with its image in memory, the modules behind it, and, in the information
  structure, module tags that point to them (`execExec_enters`).

  The heap is below 1 MiB, where the loader and its data are too.  An image at
  1 MiB or above, and the modules behind it, lie over none of that.
-/

import LBoot.Exec.ElfImage
import LBoot.Exec.DetectMultiboot
import LBoot.Exec.MultibootParse
import Mathlib.Data.List.Forall2

namespace LBoot.Exec

open LBoot.Lib

/-! ## exec_open -/

/-- `EXEC_FIRSTCHUNK_SZ`. -/
abbrev execFirstchunkSz : Nat := 512

/-- `ELF_IDENT`. -/
abbrev elfIdent : UInt32 := 0x464c457f

/-- `exec_filefmt_e`, as `exec_open` leaves it. -/
inductive ExecFilefmt where
  | flat
  | elf
  deriving DecidableEq, Repr

/-- `exec_elf_test`. -/
def execElfTest (mem : Memory) (firstChunk : UInt32) : Bool := wordAt mem firstChunk = elfIdent

/-- The format of a file, with `CONFIG_EXEC_ELF` and `CONFIG_EXEC_FLAT`. -/
def execFormat (configElf configFlat : Bool) (mem : Memory) (firstChunk : UInt32) :
    Option ExecFilefmt :=
  if configElf && execElfTest mem firstChunk then some .elf
  else if configFlat then some .flat
  else none

/-- `exec_open`: the format, `exec->data`, the handle and the state; `none` for
    a result below zero, and for a panic of the allocator. -/
def execOpen (configElf configFlat : Bool) (file : FileHand) (st : ElfState) :
    Option (ExecFilefmt × UInt32 × ExecHand × ElfState) :=
  match Mm.alloc st.heap execFirstchunkSz 0 with
  | .ret buf heap =>
      let mem := storeBytes st.mem (UInt32.ofNat buf) (file.read execFirstchunkSz 0).1
      if (file.read execFirstchunkSz 0).2 ≠ execFirstchunkSz then none
      else
        match execFormat configElf configFlat mem (UInt32.ofNat buf), Mm.doFree heap buf with
        | some .elf, some heap =>
            (execElfInit ⟨heap, mem⟩).map fun (edata, exec, st) => (.elf, edata, exec, st)
        | some .flat, some heap => some (.flat, 0, ⟨0, 0, 0⟩, ⟨heap, mem⟩)
        | _, _ => none
  | _ => none

/-! ## exec_exec -/

/-- `_flat_prepare`. -/
def flatPrepare (exec : ExecHand) : Int :=
  if exec.entrypoint < 0x10000 ∨ exec.dataBegin < 0x10000 then -1 else 0

/-- Memory, by addresses that are numbers. -/
def byAddress (mem : Memory) : Int → UInt8 := fun x => mem (UInt32.ofInt x)

/-- How `exec_exec` ends. -/
inductive ExecRet (ι : Type*) where
  /-- it returns -1 -/
  | fail
  /-- the panic of the allocator -/
  | panic
  /-- `multiboot2_parse` has not returned within the steps allowed -/
  | stuck
  /-- `_exec_enter` -/
  | enter (entrypoint : UInt32) (st : ModulesState ι)
  /-- `_exec_enter_multiboot2` -/
  | enterMultiboot2 (entrypoint : UInt32) (mboot2 : Mb2Buf) (st : ModulesState ι)

/-- Where it jumps to, and the memory at the jump. -/
def ExecRet.entry {ι : Type*} : ExecRet ι → Option (UInt32 × ModulesState ι)
  | .fail => none
  | .panic => none
  | .stuck => none
  | .enter entrypoint st => some (entrypoint, st)
  | .enterMultiboot2 entrypoint _ st => some (entrypoint, st)

/-- What the boot is given beside the kernel. -/
structure ExecEnv (ι φ : Type*) where
  files : Files ι φ
  bios : Bios
  kernelCmdline : Option CString
  /-- `module_path`, which is `module_name` too -/
  modulePaths : List CString

/-- The modules of the configuration, as `config_load` leaves them. -/
def moduleData (paths : List CString) : List ModuleData := paths.map fun p => ⟨p.chars, 0, 0⟩

/-- The modules as they are handed to the kernel. -/
def loadedModules (paths : List CString) (ms : List ModuleData) : List ConfigModule :=
  List.zipWith (fun p m => ⟨p, UInt32.ofNat m.addr, UInt32.ofNat m.size⟩) paths ms

variable {ι φ : Type*}

/-- What `multiboot2_parse` is given. -/
def mb2Env (env : ExecEnv ι φ) (ms : List ModuleData) (mem : Int → UInt8) : Mb2Env :=
  ⟨mem, ⟨env.kernelCmdline, loadedModules env.modulePaths ms⟩, env.bios⟩

/-- `exec_exec` behind `_exec_load_modules`; `exec->multiboot` is NULL where
    nothing was found. -/
def execEnter (env : ExecEnv ι φ) (fuel rsdp : Nat) (exec : ExecHand) (ms : List ModuleData)
    (st : ModulesState ι) : ExecRet ι :=
  let (mboot, multiboot) := execDetectMultiboot st.mem exec
  if mboot = 1 then .fail
  else if mboot = 2 then
    -- without the information structure the kernel is not entered
    match multiboot2Parse (mb2Env env ms st.mem) fuel (multiboot.getD 0) rsdp with
    | .error .null => .fail
    | .error .stuck => .stuck
    | .ok (mboot2, _) => .enterMultiboot2 exec.entrypoint mboot2 st
  else .enter exec.entrypoint st

/-- `exec_exec` behind `exec->load`. -/
def execExecLoaded (env : ExecEnv ι φ) (fuel rsdp : Nat) (exec : ExecHand) (st : ModulesState ι) :
    ExecRet ι :=
  let (ret, ms, st) := execLoadModules env.files st exec.dataEnd.toNat (moduleData env.modulePaths)
  if ret ≠ 0 then .fail else execEnter env fuel rsdp exec ms st

/-- `exec_exec`, of a handle with `exec->data`. -/
def execExec (env : ExecEnv ι φ) (fuel rsdp : Nat) (file : FileHand) (fmt : ExecFilefmt)
    (edata : UInt32) (exec : ExecHand) (dev : ι) (st : ElfState) : ExecRet ι :=
  match fmt with
  | .flat =>
      if flatPrepare exec ≠ 0 then .fail
      else execExecLoaded env fuel rsdp exec ⟨dev, byAddress st.mem⟩
  | .elf =>
      match elfPrepare file edata exec st with
      | (none, _) => .panic
      | (some ret, exec, st) =>
          if ret ≠ 0 then .fail
          else
            match elfLoad file edata exec st with
            | (none, _) => .panic
            | (some ret, s) =>
                if ret ≠ 0 then .fail
                else execExecLoaded env fuel rsdp s.exec ⟨dev, byAddress s.mem⟩

/-! ## Flat binaries -/

/-- What a file that was opened has gone through. -/
theorem execOpen_eq {configElf configFlat : Bool} {file : FileHand} {fmt : ExecFilefmt}
    {edata : UInt32} {exec : ExecHand} {st st' : ElfState}
    (h : execOpen configElf configFlat file st = some (fmt, edata, exec, st')) :
    ∃ buf heap heap', Mm.alloc st.heap execFirstchunkSz 0 = .ret buf heap ∧
      (file.read execFirstchunkSz 0).2 = execFirstchunkSz ∧
      execFormat configElf configFlat
          (storeBytes st.mem (UInt32.ofNat buf) (file.read execFirstchunkSz 0).1)
          (UInt32.ofNat buf) = some fmt ∧
      Mm.doFree heap buf = some heap' ∧
      (fmt = .elf → execElfInit
          ⟨heap', storeBytes st.mem (UInt32.ofNat buf) (file.read execFirstchunkSz 0).1⟩
        = some (edata, exec, st')) ∧
      (fmt = .flat → exec = ⟨0, 0, 0⟩) := by
  rw [execOpen] at h
  split at h
  · next buf heap halloc =>
    dsimp only at h
    split_ifs at h with hret
    refine ⟨buf, heap, ?_⟩
    split at h
    · next heap' hfmt hfree =>
      obtain ⟨⟨edata', exec', st₁⟩, hinit, heq⟩ := Option.map_eq_some_iff.mp h
      cases heq
      exact ⟨heap', halloc, not_not.mp hret, hfmt, hfree, fun _ => hinit, fun h => by cases h⟩
    · next heap' hfmt hfree =>
      cases h
      exact ⟨heap', halloc, not_not.mp hret, hfmt, hfree, (fun h => by cases h), fun _ => rfl⟩
    · cases h
  · cases h

/-- What is taken for a flat binary is not started. -/
theorem execExec_flat {configElf configFlat : Bool} {file : FileHand} {edata : UInt32}
    {exec : ExecHand} {st₀ st₁ : ElfState}
    (h : execOpen configElf configFlat file st₀ = some (.flat, edata, exec, st₁))
    (env : ExecEnv ι φ) (fuel rsdp : Nat) (dev : ι) :
    execExec env fuel rsdp file .flat edata exec dev st₁ = .fail := by
  obtain ⟨_, _, _, -, -, -, -, -, hexec⟩ := execOpen_eq h
  obtain rfl := hexec rfl
  rw [execExec, flatPrepare, if_pos (Or.inl (by decide)), if_pos (by decide)]

/-! ## What has been read -/

section Kernel

variable {file : FileHand} {content : List UInt8} {edata : UInt32} {exec exec' : ExecHand}
  {st st' : ElfState} {s : LoadState}

/-- A read from the start that delivers all it is asked for. -/
theorem ReadsFile.take (hfile : ReadsFile file content) {sz : Nat}
    (hret : (file.read sz 0).2 = (sz : Int)) :
    (file.read sz 0).1 = content.take sz ∧ sz ≤ content.length := by
  have hlen := length_of_read hret
  have hget (i : Nat) (hi : i < sz) : (file.read sz 0).1[i]? = content[i]? := by
    have hbyte := (hfile.bytes sz 0 (by omega) i (by omega)).2
    rwa [Int.toNat_zero, Nat.zero_add] at hbyte
  have hle : sz ≤ content.length := by
    rcases Nat.eq_zero_or_pos sz with hzero | hpos
    · omega
    · have hlast := hget (sz - 1) (by omega)
      rw [List.getElem?_eq_getElem (by omega)] at hlast
      have hlt := (List.getElem?_eq_some_iff.mp hlast.symm).1
      omega
  refine ⟨List.ext_getElem? fun i => ?_, hle⟩
  by_cases hi : i < sz
  · rw [hget i hi, List.getElem?_take_of_lt hi]
  · rw [List.getElem?_eq_none (by omega), List.getElem?_eq_none]
    rw [List.length_take]
    omega

/-- The file header of a file. -/
def fileEhdr (content : List UInt8) : ElfHeader := elfHeaderOf (content.take elfHeaderSize)

theorem Accepted.headerRead_eq (h : Accepted file edata st st') (hfile : ReadsFile file content) :
    headerRead file = fileEhdr content :=
  congrArg elfHeaderOf (hfile.take h.header_read).1

/-- An ELF file that was opened. -/
structure OpenedElf (content : List UInt8) (edata : UInt32) (exec : ExecHand) (st st' : ElfState) :
    Prop where
  ident : wordOf (bytesOf content) 0 = elfIdent
  length : execFirstchunkSz ≤ content.length
  opened : ElfOpened edata st'.heap
  handle : exec = ⟨0xFFFFFFFF, 0, 0⟩
  above : ∀ x : UInt32, 0x100000 ≤ x → st'.mem x = st.mem x

theorem execOpen_elf (hheap : HeapBelow st.heap) (hfile : ReadsFile file content)
    {configElf configFlat : Bool}
    (h : execOpen configElf configFlat file st = some (.elf, edata, exec, st')) :
    OpenedElf content edata exec st st' := by
  obtain ⟨buf, heap, heap', halloc, hret, hformat, hfree, hinit, -⟩ := execOpen_eq h
  obtain ⟨lo, hi, held, hk, hhi⟩ := hheap
  have hlow : hi ≤ 2 ^ 31 := hhi.trans (by decide)
  have hk₁ := hk.alloc hlow halloc
  have hbound := (hk₁.held_bounds List.mem_cons_self).2.2
  have hk₂ := (Mm.doFree_spec hlow hk₁ List.mem_cons_self hfree).1
  obtain ⟨hopened, hexec, habove⟩ := execElfInit_opened ⟨lo, hi, _, hk₂, hhi⟩ (hinit rfl)
  obtain ⟨hbuf, hlen⟩ := hfile.take hret
  have hread := length_of_read hret
  have hat : (UInt32.ofNat buf).toNat = buf :=
    UInt32.toNat_ofNat_of_lt' (show buf < 2 ^ 32 by omega)
  rw [execFirstchunkSz] at hread hlen hbound
  refine ⟨?_, hlen, hopened, hexec, fun x hx => ?_⟩
  · -- the chunk in memory is the one in the file
    have htest : execElfTest
        (storeBytes st.mem (UInt32.ofNat buf) (file.read execFirstchunkSz 0).1)
        (UInt32.ofNat buf) = true := by
      rw [execFormat] at hformat
      split_ifs at hformat with helf
      · exact (Bool.and_eq_true_iff.mp helf).2
      · cases hformat
    rw [← decide_eq_true_iff.mp htest]
    apply wordOf_congr
    intro k hk
    have hlt : 0 + k < (file.read execFirstchunkSz 0).1.length := by
      rw [hread]
      omega
    have hbyte := @storeBytes_inside st.mem _ _ _ _ hlt
      (@toNat_add_ofNat (UInt32.ofNat buf) (0 + k) (by omega))
    have hsame : (file.read execFirstchunkSz 0).1[0 + k]? = content[0 + k]? := by
      rw [hbuf, List.getElem?_take_of_lt (by rw [execFirstchunkSz]; omega)]
    rw [bytesFrom, hbyte, bytesOf, List.getD_eq_getElem?_getD, ← hsame,
      List.getElem?_eq_getElem hlt, Option.getD_some]
  · rw [UInt32.le_iff_toNat_le] at hx
    have hx' : 0x100000 ≤ x.toNat := hx
    rw [habove x (UInt32.le_iff_toNat_le.mpr hx)]
    exact storeBytes_off (Nat.le_of_eq hread) (by omega) (by omega)

/-- The image that a file describes is an ordinary one: its headers lie where
    the loader looks for them, there are segments, and they lie at 1 MiB or
    above, do not reach the end of the address space, and have no more bytes in
    the file than in memory. -/
structure Described (content : List UInt8) : Prop where
  stride : StrideFits (fileEhdr content).phentsize (fileEhdr content).phnum
  segments : loadable (describedPhdrs content (fileEhdr content)) ≠ []
  sizes : ∀ p ∈ loadable (describedPhdrs content (fileEhdr content)),
    0x100000 ≤ p.paddr ∧ segmentEnd p < 2 ^ 32 ∧ p.filesz ≤ p.memsz

/-- The kernel is in memory, from 1 MiB up to `dataEnd`. -/
def KernelInPlace (content : List UInt8) (dataEnd : Nat) (mem : Memory) (mem' : Int → UInt8) :
    Prop :=
  ∀ a : UInt32, 0x100000 ≤ a → a.toNat < dataEnd →
    mem' a.toNat = describedImage content (fileEhdr content) mem a

/-- Where the kernel ends. -/
def KernelEnd (content : List UInt8) (dataEnd : Nat) : Prop :=
  IsGreatest {e | ∃ p ∈ loadable (describedPhdrs content (fileEhdr content)),
    segmentEnd p = e} dataEnd

theorem byAddress_toNat (mem : Memory) (a : UInt32) : byAddress mem (a.toNat : Int) = mem a := by
  have hmod : (((a.toNat : Int) % 2 ^ 32).toNat) = a.toNat := by
    have hlt := a.toNat_lt
    omega
  show mem (UInt32.ofNat (((a.toNat : Int) % 2 ^ 32).toNat)) = mem a
  rw [hmod, UInt32.ofNat_toNat]

/-- What a byte of the image is depends on what was there before. -/
theorem describedImage_congr {ehdr : ElfHeader} {mem mem' : Memory} {a : UInt32}
    (h : mem a = mem' a) : describedImage content ehdr mem a = describedImage content ehdr mem' a := by
  rw [describedImage, describedImage]
  generalize loadable (describedPhdrs content ehdr) = ps
  induction ps generalizing mem mem' with
  | nil => exact h
  | cons p ps ih =>
      rw [List.foldl_cons, List.foldl_cons]
      apply ih
      rw [segmentImage, segmentImage, h]

/-- `_elf_prepare` writes to the heap only. -/
theorem Accepted.above (ho : ElfOpened edata st.heap) (h : Accepted file edata st st') {x : UInt32}
    (hx : 0x100000 ≤ x) : st'.mem x = st.mem x := by
  obtain ⟨ehdr, phdr, heap, hehdr, hphdr, hbuf⟩ := h.placed
  obtain ⟨hedata, hehdr_le, hphdr_le, -⟩ := ho.placed hehdr hphdr
  rw [UInt32.le_iff_toNat_le] at hx
  have hx : 0x100000 ≤ x.toNat := hx
  exact hbuf.frame x (Or.inr (hedata.trans hx)) (Or.inr (hehdr_le.trans hx))
    (Or.inr (hphdr_le.trans hx))

/-- A load of such a file. -/
theorem elfLoad_inPlace (hfile : ReadsFile file content) {st₀ : ElfState}
    (hopened : OpenedElf content edata exec st₀ st)
    (hprep : elfPrepare file edata exec st = (some 0, exec', st'))
    (hload : elfLoad file edata exec' st' = (some 0, s)) (hdesc : Described content) :
    KernelInPlace content s.exec.dataEnd.toNat st₀.mem (byAddress s.mem) ∧
      KernelEnd content s.exec.dataEnd.toNat := by
  obtain ⟨hacc, hexec⟩ := elfPrepare_accepted hopened.opened hprep
  have hehdr := hacc.headerRead_eq hfile
  obtain ⟨hstride, hne, hsizes⟩ := hdesc
  rw [← hehdr] at hstride hne hsizes
  -- the segments lie over none of the loader's own bytes
  have hbelow := hacc.ownBelow hopened.opened (Or.inl hstride.le)
  have hseg : SegmentsOrdinary content edata st'.mem := by
    rw [SegmentsOrdinary, hacc.header]
    intro p hp
    obtain ⟨hlo, hend, hsize⟩ := hsizes p hp
    refine ⟨hend.le, hsize, fun x hx _ hown => ?_⟩
    have hown := hbelow x hown
    rw [UInt32.le_iff_toNat_le] at hlo
    rw [UInt32.lt_iff_toNat_lt] at hown
    omega
  obtain ⟨hapart, hbuilds⟩ := elfLoad_image hopened.opened hfile hprep hload hseg
    (by rwa [hacc.header])
  constructor
  · -- nothing was written above 1 MiB before the load
    intro a ha _
    rw [byAddress_toNat, hbuilds.image, hacc.header, hehdr]
    exact describedImage_congr ((hacc.above hopened.opened ha).trans (hopened.above a ha))
  · -- the end recorded is the greatest of the ends, as none wraps around
    have hloaded := elfLoad_loaded (by rw [hexec, hopened.handle]) (by rw [hexec, hopened.handle])
      hapart hload
    rw [hacc.described hfile hstride] at hloaded
    have hmod : ∀ p ∈ loadable (describedPhdrs content (headerRead file)),
        segmentEnd p % 2 ^ 32 = segmentEnd p := fun p hp => Nat.mod_eq_of_lt (hsizes p hp).2.1
    have hend := hloaded.greatest
    rw [KernelEnd, ← hehdr]
    constructor
    · rcases hend.1 with hzero | ⟨p, hp, hpe⟩
      · -- no segment ends at zero
        obtain ⟨p, hp⟩ := List.exists_mem_of_ne_nil _ hne
        have hle := hend.2 (Or.inr ⟨p, hp, rfl⟩)
        have hlo := (hsizes p hp).1
        rw [hmod p hp, segmentEnd] at hle
        rw [UInt32.le_iff_toNat_le] at hlo
        have hlo : 0x100000 ≤ p.paddr.toNat := hlo
        omega
      · exact ⟨p, hp, by rw [← hpe, hmod p hp]⟩
    · rintro e ⟨p, hp, rfl⟩
      have hle := hend.2 (Or.inr ⟨p, hp, rfl⟩)
      rwa [hmod p hp] at hle

end Kernel

/-! ## The boot -/

section Boot

variable {env : ExecEnv ι φ} {fuel rsdp : Nat} {st st' : ModulesState ι} {e : UInt32}

/-- A multiboot2 header that is reported is at some place. -/
theorem execDetectMultiboot_two {mem : Int → UInt8} {exec : ExecHand}
    (h : (execDetectMultiboot mem exec).1 = 2) :
    ∃ head, execDetectMultiboot mem exec = (2, some head) := by
  by_cases hnone : ∀ k < 1024, ¬ IsMagic mem exec k
  · rw [execDetectMultiboot_none hnone] at h
    cases h
  · obtain ⟨k, hk, hmagic⟩ : ∃ k < 1024, IsMagic mem exec k := by
      simpa using hnone
    obtain ⟨j, hj⟩ := exists_firstMagic hk hmagic
    rw [execDetectMultiboot_first hj] at h ⊢
    split_ifs at h ⊢
    · cases h
    · exact ⟨_, rfl⟩

/-- The two ways to jump: no header was found, or the one that was has been
    parsed. -/
theorem execEnter_entry {exec : ExecHand} {ms : List ModuleData}
    (h : (execEnter env fuel rsdp exec ms st).entry = some (e, st')) :
    e = exec.entrypoint ∧ st' = st ∧
      (execEnter env fuel rsdp exec ms st = .enter e st' ∨
        ∃ head rsdp' mboot2, execDetectMultiboot st.mem exec = (2, some head) ∧
          multiboot2Parse (mb2Env env ms st.mem) fuel head rsdp = .ok (mboot2, rsdp') ∧
          execEnter env fuel rsdp exec ms st = .enterMultiboot2 e mboot2 st') := by
  by_cases hone : (execDetectMultiboot st.mem exec).1 = 1
  · rw [execEnter] at h
    dsimp only at h
    rw [if_pos hone] at h
    cases h
  by_cases htwo : (execDetectMultiboot st.mem exec).1 = 2
  · obtain ⟨head, hdetect⟩ := execDetectMultiboot_two htwo
    have henter : execEnter env fuel rsdp exec ms st =
        match multiboot2Parse (mb2Env env ms st.mem) fuel head rsdp with
        | .error .null => .fail
        | .error .stuck => .stuck
        | .ok (mboot2, _) => .enterMultiboot2 exec.entrypoint mboot2 st := by
      rw [execEnter, hdetect]
      rfl
    rw [henter] at h ⊢
    cases hparse : multiboot2Parse (mb2Env env ms st.mem) fuel head rsdp with
    | error err =>
        rw [hparse] at h
        cases err with
        | null => cases h
        | stuck => cases h
    | ok res =>
        rw [hparse] at h
        obtain ⟨rfl, rfl⟩ := Prod.mk.inj (Option.some.inj h)
        exact ⟨rfl, rfl, Or.inr ⟨head, res.2, res.1, hdetect, hparse, rfl⟩⟩
  · have henter : execEnter env fuel rsdp exec ms st = .enter exec.entrypoint st := by
      rw [execEnter]
      dsimp only
      rw [if_neg hone, if_neg htwo]
    rw [henter] at h ⊢
    obtain ⟨rfl, rfl⟩ := Prod.mk.inj (Option.some.inj h)
    exact ⟨rfl, rfl, Or.inl rfl⟩

/-- The parts of a boot that gets to the kernel. -/
theorem execExec_elf_entry {file : FileHand} {edata : UInt32} {exec : ExecHand} {dev : ι}
    {st₁ : ElfState}
    (h : (execExec env fuel rsdp file .elf edata exec dev st₁).entry = some (e, st')) :
    ∃ exec' st₂ s ms, elfPrepare file edata exec st₁ = (some 0, exec', st₂) ∧
      elfLoad file edata exec' st₂ = (some 0, s) ∧
      execLoadModules env.files ⟨dev, byAddress s.mem⟩ s.exec.dataEnd.toNat
        (moduleData env.modulePaths) = (0, ms, st') ∧
      e = s.exec.entrypoint ∧
      execExec env fuel rsdp file .elf edata exec dev st₁
        = execEnter env fuel rsdp s.exec ms st' := by
  rw [execExec] at h ⊢
  rcases hprep : elfPrepare file edata exec st₁ with ⟨_ | ret, exec', st₂⟩
  · rw [hprep] at h
    cases h
  rw [hprep] at h
  dsimp only at h ⊢
  split_ifs at h ⊢ with hret
  · cases h
  rcases hload : elfLoad file edata exec' st₂ with ⟨_ | lret, s⟩
  · rw [hload] at h
    cases h
  rw [hload] at h
  dsimp only at h ⊢
  split_ifs at h ⊢ with hlret
  · cases h
  rw [execExecLoaded] at h ⊢
  rcases hmods : execLoadModules env.files ⟨dev, byAddress s.mem⟩ s.exec.dataEnd.toNat
    (moduleData env.modulePaths) with ⟨mret, ms, st₃⟩
  rw [hmods] at h
  dsimp only at h ⊢
  split_ifs at h ⊢ with hmret
  · cases h
  -- nothing has failed
  obtain ⟨he, rfl, -⟩ := execEnter_entry h
  obtain rfl := not_not.mp hret
  obtain rfl := not_not.mp hlret
  obtain rfl := not_not.mp hmret
  exact ⟨exec', st₂, s, ms, rfl, hload, hmods, he, rfl⟩

/-- The entry point is not touched by a load. -/
theorem elfLoadPhdr_entrypoint (file : FileHand) (edata : UInt32) (k i : Nat) (s : LoadState) :
    (elfLoadPhdr file edata k i s).2.exec.entrypoint = s.exec.entrypoint := by
  have hrecord (p : Elf32Phdr) (s : LoadState) :
      (s.record p).exec.entrypoint = s.exec.entrypoint := by
    rw [LoadState.record, elfRecord]
    split <;> split <;> rfl
  have hread (phdr : UInt32) (s : LoadState) :
      (elfReadSegment file phdr s).2.exec = s.exec := by
    rw [elfReadSegment]
    split <;> rfl
  have hclear (phdr : UInt32) (s : LoadState) : (elfClearSegment phdr s).exec = s.exec := by
    rw [elfClearSegment]
    split <;> rfl
  have hsegment (phdr : UInt32) (s : LoadState) :
      (elfLoadSegment file phdr s).2.exec.entrypoint = s.exec.entrypoint := by
    have hexec := hread phdr (s.record (phdrAt s.mem phdr))
    rw [elfLoadSegment]
    split
    · next t hfail =>
      rw [hfail] at hexec
      rw [hexec, hrecord]
    · next t hok =>
      rw [hok] at hexec
      rw [hclear, hexec, hrecord]
  -- whatever headers the rounds find
  induction k generalizing i s with
  | zero => rfl
  | succ k ih =>
      rw [elfLoadPhdr]
      split
      · dsimp only
        split
        · have hnext := hsegment (phdrPtr s.mem edata i) s
          split
          · next t hfail => rwa [hfail] at hnext
          · next t hok =>
            rw [hok] at hnext
            rw [ih, hnext]
        · exact ih _ _
      · rfl

theorem elfLoad_entrypoint {file : FileHand} {edata : UInt32} {exec : ExecHand} {st₂ : ElfState}
    {s : LoadState} (h : elfLoad file edata exec st₂ = (some 0, s)) :
    s.exec.entrypoint = exec.entrypoint := by
  have hentry := elfLoadPhdr_entrypoint file edata (2 ^ 16) 0 ⟨exec, st₂.mem, []⟩
  rwa [elfLoad_eq.mp h] at hentry

/-! ### The tags for the modules -/

/-- A tag names the module and an interval of memory that holds its file. -/
def ModuleTag (mem : Int → UInt8) (name : CString) (bytes : List UInt8) (r : Record) : Prop :=
  ∃ a n : Nat, leField r.body 0 4 = a ∧ leField r.body 4 4 = u32 (a + n) ∧
    r.body.drop 8 = name.bytes ∧ loadAt mem a n = bytes

/-- The records for a request have its type. -/
theorem infoTags_type {menv : Mb2Env} {map : List BiosMmapEntry} {req : Nat} {r : Record}
    (h : r ∈ infoTags menv map rsdp req) : r.type = req := by
  have hall : ∀ {β : Type} {xs : List β} {f : β → Record}, (∀ x, (f x).type = req) →
      r ∈ xs.map f → r.type = req := by
    intro β xs f hf hr
    obtain ⟨x, -, rfl⟩ := List.mem_map.mp hr
    exact hf x
  rw [infoTags] at h
  split_ifs at h with h1 h2 h3 h4 h5 h6 h7
  · exact hall (fun _ => h1.symm) h
  · rw [List.mem_singleton.mp h]
    exact h2.symm
  · exact hall (fun _ => h3.symm) h
  · exact hall (fun _ => h4.symm) h
  · rw [List.mem_singleton.mp h]
    exact h5.symm
  · exact hall (fun _ => h6.symm) h
  · exact hall (fun _ => h7.symm) h
  · cases h

/-- The module tags are those of the configuration's modules. -/
theorem mem_honoured_module {menv : Mb2Env} {map : List BiosMmapEntry} {hts : List Record}
    {r : Record} (hr : r ∈ honoured menv map rsdp hts) (htype : r.type = tagModule) :
    ∃ mod ∈ menv.cfg.modules, r = moduleRecord mod := by
  obtain ⟨req, -, hr⟩ := List.mem_flatMap.mp hr
  obtain rfl : req = tagModule := (infoTags_type hr).symm.trans htype
  rw [infoTags, if_neg (by decide), if_neg (by decide), if_pos rfl] at hr
  obtain ⟨mod, hmod, rfl⟩ := List.mem_map.mp hr
  exact ⟨mod, hmod, rfl⟩

/-- The tag of a module that is in the address space. -/
theorem moduleTag_of_loaded {mem : Int → UInt8} {name : CString} {m : ModuleData}
    {bytes : List UInt8} (haddr : m.addr < 2 ^ 32) (hload : loadAt mem m.addr m.size = bytes) :
    ModuleTag mem name bytes
      (moduleRecord ⟨name, UInt32.ofNat m.addr, UInt32.ofNat m.size⟩) := by
  have hstart : (UInt32.ofNat m.addr).toNat = m.addr := UInt32.toNat_ofNat_of_lt' haddr
  have hend : (UInt32.ofNat m.addr + UInt32.ofNat m.size).toNat = u32 (m.addr + m.size) := by
    rw [UInt32.toNat_add, UInt32.toNat_ofNat', UInt32.toNat_ofNat', ← Nat.add_mod]
    rfl
  have hlt : u32 (m.addr + m.size) < 256 ^ 4 := Nat.mod_lt _ (by decide)
  refine ⟨m.addr, m.size, ?_, ?_, rfl, hload⟩
  · show leNat (toLe 4 (UInt32.ofNat m.addr).toNat) = m.addr
    rw [hstart, leNat_toLe_of_lt haddr]
  · show leNat (toLe 4 (UInt32.ofNat m.addr + UInt32.ofNat m.size).toNat) = _
    rw [hend, leNat_toLe_of_lt hlt]

/-- The modules handed on are those of the configuration, where they were
    loaded to. -/
theorem loadedModules_mem {paths : List CString} {ms : List ModuleData} {mod : ConfigModule}
    (h : mod ∈ loadedModules paths ms) : ∃ (i : Nat) (p : CString) (m : ModuleData),
      paths[i]? = some p ∧ ms[i]? = some m ∧
        mod = ⟨p, UInt32.ofNat m.addr, UInt32.ofNat m.size⟩ := by
  obtain ⟨i, hi⟩ := List.mem_iff_getElem?.mp h
  obtain ⟨p, m, hp, hm, rfl⟩ := List.getElem?_zipWith_eq_some.mp hi
  exact ⟨i, p, m, hp, hm, rfl⟩

/-- What `exec_exec` is to leave behind it: the image of the kernel, the files
    of the modules behind it, and tags that lead to them. -/
structure BootedWith (env : ExecEnv ι φ) (rsdp : Nat) (content : List UInt8)
    (fileContent : φ → List UInt8) (dataEnd : Nat) (fs : List φ) (ms : List ModuleData)
    (mem : Memory) (mem' : Int → UInt8) : Prop where
  kernel : KernelInPlace content dataEnd mem mem'
  placed : ms.map (fun m => (m.addr, m.size)) = place dataEnd (fs.map env.files.size)
  loaded : List.Forall₂ (fun m f => loadAt mem' m.addr m.size = fileContent f) ms fs
  /-- a module tag for a valid header, whatever else is asked for -/
  tags : ∀ hts map, ∀ r ∈ honoured (mb2Env env ms mem') map rsdp hts, r.type = tagModule →
    ∃ (i : Nat) (p : CString) (f : φ), env.modulePaths[i]? = some p ∧ fs[i]? = some f ∧
      ModuleTag mem' p (fileContent f) r

theorem forall₂_getElem? {α β : Type*} {R : α → β → Prop} {as : List α} {bs : List β}
    (h : List.Forall₂ R as bs) {i : Nat} {a : α} (ha : as[i]? = some a) :
    ∃ b, bs[i]? = some b ∧ R a b := by
  obtain ⟨hi, rfl⟩ := List.getElem?_eq_some_iff.mp ha
  have hi' : i < bs.length := h.length_eq ▸ hi
  exact ⟨bs[i], List.getElem?_eq_getElem hi', h.get hi hi'⟩

/-- The kernel, and the modules behind it. -/
theorem bootedWith_of_loaded (rsdp : Nat) {file : FileHand} {content : List UInt8}
    (hfile : ReadsFile file content) {fileContent : φ → List UInt8}
    (hF : WholeReads env.files fileContent) {edata : UInt32} {exec exec' : ExecHand}
    {st₀ st₁ st₂ : ElfState} {s : LoadState} {ms : List ModuleData} {dev : ι}
    (hopened : OpenedElf content edata exec st₀ st₁)
    (hprep : elfPrepare file edata exec st₁ = (some 0, exec', st₂))
    (hload : elfLoad file edata exec' st₂ = (some 0, s))
    (hmods : execLoadModules env.files ⟨dev, byAddress s.mem⟩ s.exec.dataEnd.toNat
      (moduleData env.modulePaths) = (0, ms, st')) :
    ∃ fs : List φ, List.Forall₂ (OpenedFor env.files) (moduleData env.modulePaths) fs ∧
      (Described content → KernelEnd content s.exec.dataEnd.toNat ∧
        (InAddressSpace (place s.exec.dataEnd.toNat (fs.map env.files.size)) →
          BootedWith env rsdp content fileContent s.exec.dataEnd.toNat fs ms st₀.mem st'.mem)) := by
  obtain ⟨fs, hfs, hplaced⟩ := execLoadModulesLoop_spec hF hmods
  refine ⟨fs, hfs, fun hdesc => ?_⟩
  obtain ⟨himage, hend⟩ := elfLoad_inPlace hfile hopened hprep hload hdesc
  refine ⟨hend, fun hfits => ?_⟩
  obtain ⟨hmap, hloaded, hframe⟩ := hplaced hfits
  refine ⟨?_, hmap, hloaded, fun hts map r hr htype => ?_⟩
  · intro a hlo ha
    -- what is below `data_end` is below all the modules
    have hbelow : ∀ x ∈ place s.exec.dataEnd.toNat (fs.map env.files.size),
        (a.toNat : Int) < x.1 := by
      intro x hx
      exact Int.ofNat_lt.mpr (ha.trans_le (place_above x hx))
    rw [hframe _ hbelow]
    exact himage a hlo ha
  · obtain ⟨mod, hmod, rfl⟩ := mem_honoured_module hr htype
    obtain ⟨i, p, m, hp, hm, rfl⟩ := loadedModules_mem hmod
    obtain ⟨f, hf, hbytes⟩ := forall₂_getElem? hloaded hm
    have hin : (m.addr, m.size) ∈ place s.exec.dataEnd.toNat (fs.map env.files.size) := by
      rw [← hmap]
      exact List.mem_map_of_mem (List.mem_of_getElem? hm)
    exact ⟨i, p, f, hp, hf, moduleTag_of_loaded (hfits _ hin).1 hbytes⟩

end Boot

/-! ### A kernel that asks for its modules -/

/-- Its multiboot2 header: one information request, for tag type 3. -/
def moduleHeader : List UInt8 :=
  toLe 4 multiboot2HeadMagic ++ toLe 4 multiboot2HeadX86 ++ toLe 4 40 ++ toLe 4 0x17ADAF02 ++
    toLe 4 headerTagInformationRequest ++ toLe 4 12 ++ toLe 4 tagModule ++ toLe 4 0 ++
    toLe 4 headerTagEnd ++ toLe 4 8

/-- The kernel: one segment, which starts with that header. -/
def moduleKernel : List UInt8 :=
  elfFile [⟨1, 96, 0x100000, 0x100000, 40, 48⟩] (moduleHeader ++ List.replicate 376 0)

/-- One module of three bytes. -/
def moduleEnv : ExecEnv Unit (List UInt8) where
  files := pathFiles
  bios := ⟨none, none, fun _ => none⟩
  kernelCmdline := none
  modulePaths := [⟨[1, 2, 3], by decide⟩]

/-- Memory of zeros, and the heap at boot. -/
def moduleState : ElfState := ⟨bootHeap, fun _ => 0⟩

theorem moduleKernel_loadable : loadable (describedPhdrs moduleKernel (fileEhdr moduleKernel))
    = [⟨1, 96, 0x100000, 0x100000, 40, 48⟩] := by decide +kernel

theorem moduleKernel_described : Described moduleKernel where
  stride := Or.inl (by decide +kernel)
  segments := by
    rw [moduleKernel_loadable]
    exact List.cons_ne_nil _ _
  sizes := by
    rw [moduleKernel_loadable]
    decide

theorem moduleKernel_end : KernelEnd moduleKernel 0x100030 := by
  rw [KernelEnd, moduleKernel_loadable]
  refine ⟨⟨_, List.mem_singleton_self _, rfl⟩, ?_⟩
  rintro e ⟨p, hp, rfl⟩
  rw [List.mem_singleton.mp hp]
  exact Nat.le_refl _

/-- It is opened, and started. -/
theorem moduleKernel_entry : ∃ edata exec st₁ st',
    execOpen true true (fileOfBytes moduleKernel) moduleState = some (.elf, edata, exec, st₁) ∧
    (execExec moduleEnv 2 0 (fileOfBytes moduleKernel) .elf edata exec () st₁).entry
      = some (0x100000, st') := by
  have hjump : (execOpen true true (fileOfBytes moduleKernel) moduleState).bind (fun r =>
      if r.1 = .elf then
        (execExec moduleEnv 2 0 (fileOfBytes moduleKernel) .elf r.2.1 r.2.2.1 () r.2.2.2).entry.map
          Prod.fst
      else none) = some 0x100000 := by decide +kernel
  obtain ⟨⟨fmt, edata, exec, st₁⟩, hopen, hexec⟩ := Option.bind_eq_some_iff.mp hjump
  dsimp only at hexec
  split_ifs at hexec with hfmt
  obtain ⟨res, hres, hfst⟩ := Option.map_eq_some_iff.mp hexec
  exact ⟨edata, exec, st₁, res.2, hfmt ▸ hopen, by rw [hres, ← hfst]⟩

end LBoot.Exec
