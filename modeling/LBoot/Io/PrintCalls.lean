/-
  LBoot.Io.PrintCalls

  What the program prints, against `_printf_buff` (src/io/output.c and its
  callers).

  Text and numbers of every call stay far below the buffer
  (`othersLength_printCalls`).  The strings do not: `_print` has no bound, and
  keys, names and paths of the config get to `%s` at any length.
-/

import LBoot.Io.Print

namespace LBoot.Io

open LBoot.Lib

/-! ## The calls -/

/-- `sizeof(_printf_buff)`. -/
abbrev printfBuffSize : Nat := 1024

/-- The formats of `printf`, `print_status`, `panic` and `DEBUG_PRINT`, file
    by file, those of the debug levels included. -/
def printCalls : List String := [
  -- config/config.c
  "-------- Config Data --------\n",
  "  config_version: %hhu\n",
  "     kernel_path: %s\n",
  "  kernel_cmdline: %s\n",
  "         modules: %u\n",
  "         [%2u] path: %s\n",
  "              name: %s\n",
  "              addr: %p\n",
  "-----------------------------\n",
  "_config_parse: Unsupported config version: %hhu\n",
  "_config_parse: Maximum module count (%u) exceeded!\n",
  "_config_parse: Unsupported key: %s\n",
  -- exec/exec.c
  "exec_open: Could not read first chunk from file.\n",
  "exec_open: Format could not be determined, assuming flat binary.\n",
  "exec_open: Unsupported format.\n",
  "Loading module `%s` (%s)",
  "_exec_load_modules: Could not find file\n",
  "_exec_load_modules: Could not read from file\n",
  "Kernel uses multiboot 1 - this is unsupported.\n",
  "Multiboot 2 header found at %p\n",
  "Jumping into kernel at %p.\n",
  -- exec/fmt/elf.c
  "_elf_phdr_check: Contains segment < 1 MiB - unsupported.\n",
  "_elf_prepare: Explicit address given, ignoring (no relocation support)\n",
  "_elf_prepare: Unsupported target platform.\n",
  "_elf_prepare: Only executable-type ELF binaries supported.\n",
  "_elf_prepare: Entrypoint < 1 MiB - unsupported.\n",
  "  Loading  %6u bytes from file into %p.\n",
  "_elf_load_phdr: Failure reading %u bytes of data into %p from %p\n",
  "  Clearing %6u bytes at             %p.\n",
  -- exec/fmt/flat.c
  "_flat_prepare: Refusing to load binary below 1 MiB boundry\n",
  -- exec/multiboot.c
  "multiboot2_parse: Invalid checksum!\n",
  "%p  TAG  1: %s\n",
  "%p  TAG  2: %s\n",
  "Unhandled multiboot tag request: %d\n",
  "Unhandled multiboot header tag type: %d\n",
  "%p  TAG  3: %s: %p-%p\n",
  "%p  TAG  4: lower: %u, upper: %u\n",
  "%p  TAG  6: %16llx, %16llx, %d\n",
  "No RSDP table found\n",
  "Bad RSDPv1 checksum: %hhu\n",
  "%p  TAG 14: %6s, %p\n",
  "RSDP is from ACPIv1\n",
  "Bad RSDPv2 checksum: %hhu\n",
  "%p  TAG 15: %6s, %p, %lp\n",
  -- intr/interrupts.c
  "PUSHA Registers:\n  edi: %08x, esi: %08x\n  ebp: %08x, esp: %08x\n  ebx: %08x, edx: %08x\n  ecx: %08x, eax: %08x\n",
  "IRET Registers: \n  eip: %08x, cs: %x\n  eflags: %08x\n  esp: %08x, ds: %x\n",
  "Unhandled exception: %2u, %08x",
  -- io/output.c
  "%02x ",
  "\n",
  -- io/serial.c
  "serial: Attempt to use more than %u serial ports",
  "_serial_read called with interrupts disabled",
  "Unhandled serial interrupt type: %hhu",
  -- mm/alloc.c
  "Available Low Memory:\n  < 64 KiB: %3u KiB\n  > 64 KiB: %3u KiB\n\n",
  "No available allocation entries!",
  "Could not allocate a new allocation block!",
  "Attempt to alloc 0 bytes!",
  "alloc(%d, %x): Could not allocate memory!",
  "Attempt to free address not previously allocated: %p",
  -- startup/cstart.c
  "Failed initializing storage!\n",
  "Failed initializing filesystem!\n",
  "Loading config `%s`",
  "Failed loading config!\n",
  "Kernel not specified in config!\n",
  "Loading kernel `%s`",
  "Failed to find kernel!\n",
  "Failed to open kernel for execution!\n",
  "Failed to load and execute kernel!\n",
  -- storage/bios.c
  "Attempted to read from floppy into an invalid memory address!",
  " [%02hu,%02hhu,%02hhu]",
  " TRY",
  "_bios_read(..., %p, %5d, %4d)",
  "Address or size not aligned to sector count!",
  "Negative offset!",
  " FAIL\n",
  " [CHK: %4x]",
  " OK\n",
  -- storage/fs/fat.c
  "ERROR: Cluster below root directory\n",
  "_fat_get_next_cluster: %3u (%5d) -> %3u (%5d)\n",
  "_fat_file_read(..., %p, %d, %d)\n",
  "Attempt to read past end of file!",
  "ERROR: Unexpected end of file!\n",
  "ERROR: Could not read from FS!\n",
  "_fat_pop_file: %u (%d), %u, %2x\n",
  "_fat_fs_find %s\n",
  "Directory data NULL!",
  "  %3u: %11s\n",
  "Attempted to destroy static root directory!",
  -- storage/fs/fs.c
  "Directory not found: %s\n",
  "Not a directory\n",
  "File not found: %s\n",
  -- storage/protocol/protocol.c
  "Unsupported scheme: `%s`\n",
  -- storage/protocol/xmodem.c
  "xmodem: URI `%s` missing `//`\n",
  "xmodem: Bad serial port name `%s`\n",
  "xmodem: Bad checksum type: %hhu\n",
  "xmodem: EOT\n",
  "xmodem: Bad packet size: %d\n",
  "xmodem: Bad packet prefix: %hhu\n",
  "xmodem: Corrupt block?\n",
  "xmodem: Unexpected block number %hhu, expected %hhu or %hhu\n",
  "xmodem: File too large\n",
  "xmodem: Failed to read %u bytes, only read %d\n",
  "xmodem: Checksum failure\n",
  "XMODEM start\n",
  "xmodem: Buffer Overrun\n",
  "xmodem: Data Error\n",
  -- time/time.c
  "Attempt to time_delay() while interrupts disabled"]

/-! ## Lengths -/

section

variable (strings : UInt32 → List Char)

/-- The characters printed for `%s`. -/
def stringsLength : List Directive → List UInt32 → Nat
  | [], _ => 0
  | .char _ :: ds, varg => stringsLength ds varg
  | .conv s k :: ds, varg =>
      (if k = .str then convLength strings s k varg else 0) +
        stringsLength ds (varg.drop (convWords s k))

/-- The other characters. -/
def othersLength : List Directive → List UInt32 → Nat
  | [], _ => 0
  | .char _ :: ds, varg => othersLength ds varg + 1
  | .conv s k :: ds, varg =>
      (if k = .str then 0 else convLength strings s k varg) +
        othersLength ds (varg.drop (convWords s k))

theorem formatLength_eq (ds : List Directive) (varg : List UInt32) :
    formatLength strings ds varg = stringsLength strings ds varg + othersLength strings ds varg := by
  induction ds generalizing varg with
  | nil => rfl
  | cons d ds ih =>
      cases d with
      | char c => rw [formatLength, stringsLength, othersLength, ih, Nat.add_assoc]
      | conv s k =>
          rw [formatLength, stringsLength, othersLength, ih]
          split_ifs with hk
          · omega
          · omega

/-- The characters of a number are those of its width, or of the longest
    there is. -/
def convBound (s : PrintSpec) : Conversion → Nat
  | .dec _ | .hex _ | .oct => 1 + max s.width 22
  | .ptr => 1 + max (if s.width = 0 then 4 * 2 else s.width) 22
  | .chr => 1
  | .str | .double | .count => 0

def othersBound : List Directive → Nat
  | [] => 0
  | .char _ :: ds => othersBound ds + 1
  | .conv s k :: ds => convBound s k + othersBound ds

theorem intLength_le (num : UInt64) {base : UInt64} (pad : Nat) (flags : PrintFlags)
    (hb : 8 ≤ base.toNat) : intLength num base pad flags ≤ 1 + max pad 22 := by
  have hmag : printMagnitude num flags < 2 ^ 64 := by
    rw [← printMagnitude_eq]
    exact UInt64.toNat_lt _
  have hdigits : (Nat.toDigits base.toNat (printMagnitude num flags)).length ≤ 22 := by
    rw [Nat.length_toDigits_le_iff (by omega) (by decide)]
    calc printMagnitude num flags < 2 ^ 64 := hmag
      _ ≤ 8 ^ 22 := by decide
      _ ≤ base.toNat ^ 22 := Nat.pow_le_pow_left hb 22
  rw [intLength]
  split_ifs
  · omega
  · omega

theorem othersLength_le (ds : List Directive) (varg : List UInt32) :
    othersLength strings ds varg ≤ othersBound ds := by
  induction ds generalizing varg with
  | nil => exact Nat.le_refl _
  | cons d ds ih =>
      cases d with
      | char c => exact Nat.succ_le_succ (ih varg)
      | conv s k =>
          rw [othersLength, othersBound]
          refine Nat.add_le_add ?_ (ih _)
          cases k with
          | dec unsigned => exact intLength_le _ _ _ (by decide)
          | hex upper => exact intLength_le _ _ _ (by decide)
          | oct => exact intLength_le _ _ _ (by decide)
          | ptr => exact intLength_le _ _ _ (by decide)
          | str => exact Nat.zero_le _
          | chr => exact Nat.le_refl _
          | double => exact Nat.le_refl _
          | count => exact Nat.le_refl _

end

/-- The text and the numbers of a call take less than a third of the
    buffer. -/
theorem othersLength_printCalls (strings : UInt32 → List Char) {call : String}
    (hcall : call ∈ printCalls) (varg : List UInt32) :
    othersLength strings (directives call.toList) varg ≤ 320 := by
  have hall : ∀ call ∈ printCalls, othersBound (directives call.toList) ≤ 320 := by
    unfold printCalls
    -- the kernel is slow to decode a literal, so each is taken for its characters
    repeat refine List.forall_mem_cons.mpr ⟨by rw [String.toList_ofList]; decide +kernel, ?_⟩
    exact List.forall_mem_nil _
  exact (othersLength_le strings _ varg).trans (hall call hcall)

/-- A call stays within `_printf_buff` exactly if its strings do, together
    with at most 320 other characters. -/
theorem printCalls_fit_iff (strings : UInt32 → List Char) (call : String)
    (hcall : call ∈ printCalls) (varg : List UInt32)
    (hargs : formatWords (directives call.toList) ≤ varg.length) :
    othersLength strings (directives call.toList) varg ≤ 320 ∧
      ∃ out nchars, print strings call.toList varg = some (out, nchars) ∧
        (out.length + 1 ≤ printfBuffSize ↔
          stringsLength strings (directives call.toList) varg <
            printfBuffSize - othersLength strings (directives call.toList) varg) := by
  have hothers := othersLength_printCalls strings hcall varg
  refine ⟨hothers, _, _, print_eq hargs, ?_⟩
  rw [length_formatText, formatLength_eq]
  omega

/-- A short module name. -/
theorem printCalls_fit_module :
    ∃ out nchars, print (fun _ => ['m', 'o', 'd']) "Loading module `%s` (%s)".toList
      [0x8000, 0x8000] = some (out, nchars) ∧ out.length + 1 ≤ printfBuffSize := by
  obtain ⟨-, out, nchars, hprint, hfit⟩ := printCalls_fit_iff (fun _ => ['m', 'o', 'd'])
    "Loading module `%s` (%s)" (by decide) [0x8000, 0x8000] (by decide)
  exact ⟨out, nchars, hprint, hfit.mpr (by decide)⟩

/-- A key of 1000 characters runs past the end of the buffer. -/
theorem printCalls_overflow :
    ∃ call ∈ printCalls, ∃ out nchars,
      print (fun _ => List.replicate 1000 'k') call.toList [0x8000] = some (out, nchars) ∧
        ¬ out.length + 1 ≤ printfBuffSize := by
  have hstrings : ∀ key : List Char, stringsLength (fun _ => key)
      (directives "_config_parse: Unsupported key: %s\n".toList) [0x8000] =
        min uintMax key.length := fun key => rfl
  refine ⟨"_config_parse: Unsupported key: %s\n", by decide, _, _, print_eq (by decide), ?_⟩
  rw [length_formatText, formatLength_eq, hstrings, List.length_replicate]
  show ¬ 1000 + _ + 1 ≤ 1024
  have hothers : othersLength (fun _ => List.replicate 1000 'k')
      (directives "_config_parse: Unsupported key: %s\n".toList) [0x8000] = 33 := by decide
  rw [hothers]
  decide

end LBoot.Io
