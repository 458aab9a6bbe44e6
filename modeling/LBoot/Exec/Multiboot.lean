/-
  LBoot.Exec.Multiboot

  The multiboot2 information structure (src/exec/multiboot.c).

  Memory that is only read, the kernel's header and the ACPI tables, is one
  memory `mem`; the structure is built in a buffer of its own, seen from its
  start, with the blocks written to it logged in order.  The BIOS is a
  parameter: what its calls return, carry flag set as `none`.  A C string is
  the bytes in front of its terminator.

  A request either appends tags behind the last one or skips; every tag is
  written field by field, and where the next one goes is read back from the
  size field just written.
-/

import LBoot.Lib.Records
import LBoot.Lib.Word32

namespace LBoot.Exec

open LBoot.Lib

/-- A C string. -/
structure CString where
  chars : List UInt8
  noNul : 0 ∉ chars
  deriving DecidableEq, Repr

/-- What `strcpy` copies. -/
def CString.bytes (s : CString) : List UInt8 := s.chars ++ [0]

/-- `config_data_module_t`. -/
structure ConfigModule where
  name : CString
  addr : UInt32
  size : UInt32
  deriving DecidableEq, Repr

/-- `config_data_t`, what the structure takes from it. -/
structure ConfigData where
  kernelCmdline : Option CString
  modules : List ConfigModule
  deriving DecidableEq, Repr

/-- `bios_mmap_entry_t`. -/
structure BiosMmapEntry where
  base : UInt64
  length : UInt64
  type : UInt32
  deriving DecidableEq, Repr

/-- The BIOS calls made. -/
structure Bios where
  /-- INT 0x12: AX -/
  int12 : Option UInt16
  /-- INT 0x15, AH=0x88: AX -/
  int1588 : Option UInt16
  /-- INT 0x15, AX=0xE820, with EBX: the entry and the new EBX -/
  e820 : UInt32 → Option (BiosMmapEntry × UInt32)

/-- The buffer, and the blocks written to it. -/
structure Mb2Buf where
  mem : Int → UInt8
  writes : List (Nat × Nat)

def Mb2Buf.store (b : Mb2Buf) (a : Nat) (bs : List UInt8) : Mb2Buf :=
  ⟨storeAt b.mem a bs, b.writes ++ [(a, bs.length)]⟩

@[simp] theorem Mb2Buf.store_mem (b : Mb2Buf) (a : Nat) (bs : List UInt8) :
    (b.store a bs).mem = storeAt b.mem a bs := rfl

/-! ## Constants -/

/-- `MULTIBOOT2_PREALLOC`. -/
abbrev multiboot2Prealloc : Nat := 1024

/-- `MULTIBOOT2_HEAD_MAGIC`. -/
abbrev multiboot2HeadMagic : Nat := 0xE85250D6

/-- `MULTIBOOT2_HEAD_ARCHITECTURE_X86`. -/
abbrev multiboot2HeadX86 : Nat := 0

/-- `MULTIBOOT2_TAG_FLAG_OPTIONAL`. -/
abbrev multiboot2TagOptional : Nat := 1 <<< 0

/-- `multiboot2_header_tag_e`, what the parser knows. -/
abbrev headerTagEnd : Nat := 0
abbrev headerTagInformationRequest : Nat := 1

/-- `multiboot2_tag_type_e`: END, and what the parser writes. -/
abbrev tagEnd : Nat := 0
abbrev tagCmdline : Nat := 1
abbrev tagBootloaderName : Nat := 2
abbrev tagModule : Nat := 3
abbrev tagBasicMeminfo : Nat := 4
abbrev tagMmap : Nat := 6
abbrev tagAcpiOld : Nat := 14
abbrev tagAcpiNew : Nat := 15

/-- `_bootloader_name`. -/
def bootloaderName : CString := ⟨[0x4c, 0x42, 0x6f, 0x6f, 0x74], by decide⟩

/-- `ACPI_RSDP_SIGNATURE`. -/
def acpiRsdpSignature : List UInt8 := [0x52, 0x53, 0x44, 0x20, 0x50, 0x54, 0x52]

/-- `RSDPv1_SIZE`. -/
abbrev rsdpV1Size : Nat := 20

/-- `RSDPv2_SIZE`. -/
abbrev rsdpV2Size : Nat := 36

/-! ## Tags -/

/-- `NEXT_TAG`, from the size field of the tag at `t`. -/
def nextTag (mem : Int → UInt8) (t : Nat) : Nat :=
  let size := memField mem (t + 4) 4
  u32 (t + size + if size % 8 ≠ 0 then 8 - size % 8 else 0)

/-- A tag whose type is a 16-bit field (`multiboot2_tag_t`), and its data. -/
def putTag (b : Mb2Buf) (t type : Nat) (data : List UInt8) : Mb2Buf :=
  ((b.store t (toLe 2 type)).store (t + 4) (toLe 4 (8 + data.length))).store (t + 8) data

/-- `_mboot2_poptag_module`. -/
def poptagModule (b : Mb2Buf) (t : Nat) (mod : ConfigModule) : Mb2Buf :=
  let b := b.store t (toLe 4 tagModule)
  let b := b.store (t + 4) (toLe 4 (16 + mod.name.chars.length + 1))
  let b := b.store (t + 8) (toLe 4 mod.addr.toNat)
  let b := b.store (t + 12) (toLe 4 (mod.addr + mod.size).toNat)
  b.store (t + 16) mod.name.bytes

/-- `_mboot2_poptag_meminfo`: `none` is the error. -/
def poptagMeminfo (bios : Bios) (b : Mb2Buf) (t : Nat) : Option Mb2Buf :=
  let b := b.store t (toLe 4 tagBasicMeminfo)
  let b := b.store (t + 4) (toLe 4 16)
  let b :=
    match bios.int12 with
    | none => b.store (t + 8) (toLe 4 640)
    | some ax => b.store (t + 8) (toLe 4 ax.toNat)
  match bios.int1588 with
  | none => none
  | some ax => some (b.store (t + 12) (toLe 4 ax.toNat))

/-- The `switch` of `_mboot2_poptag_mmap`. -/
def mmapType (type : UInt32) : Nat :=
  if type = 1 then 1 else if type = 3 then 3 else if type = 4 then 4 else 0

/-- One entry of the memory map tag at `t`, counted in its size. -/
def putMmapEntry (b : Mb2Buf) (t idx : Nat) (entry : BiosMmapEntry) : Mb2Buf :=
  let a := t + 16 + 24 * idx
  let b := b.store a (toLe 8 entry.base.toNat)
  let b := b.store (a + 8) (toLe 8 entry.length.toNat)
  let b := b.store (a + 16) (toLe 4 (mmapType entry.type))
  b.store (t + 4) (toLe 4 (memField b.mem (t + 4) 4 + 24))

/-- The loop of `_mboot2_poptag_mmap`: `none` if it is not done within the
    calls allowed. -/
def mmapLoop (bios : Bios) : Nat → Mb2Buf → Nat → Nat → UInt32 → Option Mb2Buf
  | 0, _, _, _, _ => none
  | fuel + 1, b, t, idx, ebx =>
      match bios.e820 ebx with
      | none => some b
      | some (entry, ebx) =>
          let b := putMmapEntry b t idx entry
          if ebx > 0 then mmapLoop bios fuel b t (idx + 1) ebx else some b

/-- `_mboot2_poptag_mmap`. -/
def poptagMmap (bios : Bios) (fuel : Nat) (b : Mb2Buf) (t : Nat) : Option Mb2Buf :=
  let b := b.store t (toLe 4 tagMmap)
  let b := b.store (t + 4) (toLe 4 16)
  let b := b.store (t + 8) (toLe 4 24)
  let b := b.store (t + 12) (toLe 4 0)
  mmapLoop bios fuel b t 0 0

/-- The addresses `_mboot_find_acpi_rsdp` looks at. -/
def rsdpCandidates : List Nat :=
  (List.range 0x2000).map (0x00080000 + 16 * ·) ++ (List.range 0x2000).map (0x000E0000 + 16 * ·)

/-- `_mboot_find_acpi_rsdp`. -/
def findAcpiRsdp (mem : Int → UInt8) : Option Nat :=
  rsdpCandidates.find? fun a => loadAt mem a 7 = acpiRsdpSignature

/-- `_rsdp`, zero as long as it was not found. -/
def acpiRsdp (mem : Int → UInt8) (rsdp : Nat) : Option Nat :=
  if rsdp = 0 then findAcpiRsdp mem else some rsdp

/-- The sum of so many bytes. -/
def byteSum (mem : Int → UInt8) (a n : Nat) : UInt8 := (loadAt mem a n).foldl (· + ·) 0

/-- `_mboot2_poptag_acpiold`, on the table at `rsdp`: `none` is the error. -/
def poptagAcpiold (mem : Int → UInt8) (b : Mb2Buf) (t rsdp : Nat) : Option Mb2Buf :=
  if byteSum mem rsdp rsdpV1Size ≠ 0 then none
  else some (putTag b t tagAcpiOld (loadAt mem rsdp rsdpV1Size))

/-- `_mboot2_poptag_acpinew`, on the table at `rsdp`: `none` is the error. -/
def poptagAcpinew (mem : Int → UInt8) (b : Mb2Buf) (t rsdp : Nat) : Option Mb2Buf :=
  if mem (rsdp + 15 : Nat) ≠ 2 then none
  else if byteSum mem rsdp rsdpV1Size ≠ 0 then none
  else if byteSum mem rsdp rsdpV2Size ≠ 0 then none
  else some (putTag b t tagAcpiNew (loadAt mem rsdp rsdpV2Size))

/-! ## The parser -/

/-- How `multiboot2_parse` ends without a structure. -/
inductive Mb2Error where
  /-- it returns NULL -/
  | null
  /-- not within the iterations allowed -/
  | stuck
  deriving DecidableEq, Repr

/-- The state of `multiboot2_parse`: the buffer, `next_tag` as an offset into
    it, and `_rsdp`. -/
structure Mb2State where
  buf : Mb2Buf
  next : Nat
  rsdp : Nat

/-- Behind a tag that was written. -/
def Mb2State.advance (st : Mb2State) (b : Mb2Buf) : Mb2State :=
  { st with buf := b, next := nextTag b.mem st.next }

/-- What the parser is given. -/
structure Mb2Env where
  mem : Int → UInt8
  cfg : ConfigData
  bios : Bios

/-- An ACPI request: the table is looked for first, and a tag that is not
    written is skipped. -/
def mb2Acpi (env : Mb2Env) (poptag : Mb2Buf → Nat → Nat → Option Mb2Buf) (st : Mb2State) :
    Mb2State :=
  match acpiRsdp env.mem st.rsdp with
  | none => st
  | some rsdp =>
      let st := { st with rsdp }
      match poptag st.buf st.next rsdp with
      | none => st
      | some b => st.advance b

/-- One information request. -/
def mb2Request (env : Mb2Env) (fuel : Nat) (st : Mb2State) (req : Nat) :
    Except Mb2Error Mb2State :=
  if req = tagCmdline then
    match env.cfg.kernelCmdline with
    | none => .ok st
    | some s => .ok (st.advance (putTag st.buf st.next tagCmdline s.bytes))
  else if req = tagBootloaderName then
    .ok (st.advance (putTag st.buf st.next tagBootloaderName bootloaderName.bytes))
  else if req = tagModule then
    .ok (env.cfg.modules.foldl (fun st mod => st.advance (poptagModule st.buf st.next mod)) st)
  else if req = tagBasicMeminfo then
    match poptagMeminfo env.bios st.buf st.next with
    | none => .error .null
    | some b => .ok (st.advance b)
  else if req = tagMmap then
    match poptagMmap env.bios fuel st.buf st.next with
    | none => .error .stuck
    | some b => .ok (st.advance b)
  else if req = tagAcpiOld then .ok (mb2Acpi env (poptagAcpiold env.mem) st)
  else if req = tagAcpiNew then .ok (mb2Acpi env (poptagAcpinew env.mem) st)
  else .error .null

/-- The requests of the header tag at `htag`. -/
def mb2Requests (env : Mb2Env) (fuel : Nat) : Mb2State → List Nat → Except Mb2Error Mb2State
  | st, [] => .ok st
  | st, req :: reqs =>
      match mb2Request env fuel st req with
      | .error e => .error e
      | .ok st => mb2Requests env fuel st reqs

/-- `reqs[0]` up to the number there are. -/
def headerRequests (mem : Int → UInt8) (htag : Nat) : List Nat :=
  (List.range (sub32 (memField mem (htag + 4) 4) 8 / 4)).map fun i =>
    memField mem (htag + 8 + 4 * i) 4

/-- The body of the loop over the header tags: `none` is the `break`. -/
def mb2HeaderTag (env : Mb2Env) (fuel htag : Nat) (st : Mb2State) :
    Except Mb2Error (Option Mb2State) :=
  let type := memField env.mem htag 2
  if type = headerTagEnd then .ok none
  else if type = headerTagInformationRequest then
    match mb2Requests env fuel st (headerRequests env.mem htag) with
    | .error e => .error e
    | .ok st => .ok (some st)
  else if memField env.mem (htag + 2) 2 &&& multiboot2TagOptional = 0 then .error .null
  else .ok (some st)

/-- The loop over the header tags. -/
def mb2HeaderLoop (env : Mb2Env) (bound : Nat) : Nat → Nat → Mb2State → Except Mb2Error Mb2State
  | 0, _, _ => .error .stuck
  | fuel + 1, htag, st =>
      if htag < bound then
        match mb2HeaderTag env fuel htag st with
        | .error e => .error e
        | .ok none => .ok st
        | .ok (some st) => mb2HeaderLoop env bound fuel (nextTag env.mem htag) st
      else .ok st

/-- `multiboot2_parse`, on the header at `head`, which is a pointer to units
    of 16 bytes: the buffer, and `_rsdp`.  The number of iterations and of
    BIOS calls is limited by `fuel`. -/
def multiboot2Parse (env : Mb2Env) (fuel head rsdp : Nat) : Except Mb2Error (Mb2Buf × Nat) :=
  let magic := memField env.mem head 4
  let architecture := memField env.mem (head + 4) 4
  let headerLength := memField env.mem (head + 8) 4
  let checksum := memField env.mem (head + 12) 4
  if magic ≠ multiboot2HeadMagic ∨ architecture ≠ multiboot2HeadX86 then .error .null
  else if u32 (magic + architecture + headerLength + checksum) ≠ 0 then .error .null
  else
    let buf : Mb2Buf := ⟨fun _ => 0, [(0, multiboot2Prealloc)]⟩
    match mb2HeaderLoop env (u32 (head + 16 * headerLength)) fuel (u32 (head + 16))
      ⟨buf, 8, rsdp⟩ with
    | .error e => .error e
    | .ok st => .ok (st.buf.store 0 (toLe 4 st.next), st.rsdp)

end LBoot.Exec
