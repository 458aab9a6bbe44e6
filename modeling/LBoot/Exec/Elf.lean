/-
  LBoot.Exec.Elf

  The ELF loader (src/exec/fmt/elf.c): `elfPrepare` reads and checks the file
  header and the program headers, `elfLoad` copies the segments to memory.

  The file is a parameter, known by what its `read` delivers.  The headers lie
  in memory, in two buffers from the heap that `exec_elf_data_t` points to, and
  are looked at there, while the segments are written too: what a segment is
  written over is what the loop finds from then on.  Where the entries of the
  table are smaller than the headers looked at, the bytes behind it are
  whatever the heap holds there.  The code of the loader, its stack, its
  handles and the table of the allocator are no part of this memory.

  `writes` logs the blocks of bytes that the load writes, in order; addresses
  wrap modulo 2 ^ 32.
-/

import LBoot.Lib.LittleEndian
import LBoot.Mm.Alloc

namespace LBoot.Exec

open LBoot.Lib

/-- `file_hand_t`, as far as the loader uses it. -/
structure FileHand where
  /-- `read` of so many bytes at an offset: the bytes put into the buffer, and
      the value returned -/
  read : Nat → Int → List UInt8 × Int
  read_le : ∀ sz off, (read sz off).1.length ≤ sz
  /-- a count is the number of bytes read -/
  read_count : ∀ sz off, 0 ≤ (read sz off).2 → (read sz off).2 = (read sz off).1.length

/-- `elf_header_t`, the fields the loader looks at. -/
structure ElfHeader where
  «class» : Nat
  data : Nat
  type : Nat
  machine : Nat
  entry : UInt32
  phoff : UInt32
  phentsize : Nat
  phnum : Nat
  deriving DecidableEq, Repr

/-- `elf32_phdr_t`, the fields the loader looks at. -/
structure Elf32Phdr where
  type : UInt32
  offset : UInt32
  vaddr : UInt32
  paddr : UInt32
  filesz : UInt32
  memsz : UInt32
  deriving DecidableEq, Repr

/-- `sizeof(elf_header_t)`. -/
abbrev elfHeaderSize : Nat := 64

/-- `sizeof(elf32_phdr_t)`. -/
abbrev elf32PhdrSize : Nat := 32

/-- `sizeof(exec_elf_data_t)`: two pointers. -/
abbrev execElfDataSize : Nat := 8

def hostElfClass : Nat := 1
def elfDataLittleendian : Nat := 1
def hostElfMachine : Nat := 3
def elfTypeExec : Nat := 2
def elfPhdrTypeLoad : UInt32 := 1

/-- The file header in its buffer. -/
def elfHeaderOf (buf : List UInt8) : ElfHeader where
  «class» := leField buf 4 1
  data := leField buf 5 1
  type := leField buf 16 2
  machine := leField buf 18 2
  entry := UInt32.ofNat (leField buf 24 4)
  phoff := UInt32.ofNat (leField buf 28 4)
  phentsize := leField buf 42 2
  phnum := leField buf 44 2

/-- A 32-bit word among some bytes. -/
def wordOf (bytes : Nat → UInt8) (off : Nat) : UInt32 :=
  UInt32.ofNat (leNat [bytes off, bytes (off + 1), bytes (off + 2), bytes (off + 3)])

/-- The program header at an offset. -/
def elf32PhdrOf (bytes : Nat → UInt8) (off : Nat) : Elf32Phdr where
  type := wordOf bytes off
  offset := wordOf bytes (off + 4)
  vaddr := wordOf bytes (off + 8)
  paddr := wordOf bytes (off + 12)
  filesz := wordOf bytes (off + 16)
  memsz := wordOf bytes (off + 20)

/-- Some bytes, by their place. -/
def bytesOf (bs : List UInt8) (i : Nat) : UInt8 := bs.getD i 0

/-! ## Memory -/

/-- Memory, by the addresses of the machine. -/
abbrev Memory := UInt32 → UInt8

/-- A block of bytes written from `a` on. -/
def storeBytes (mem : Memory) (a : UInt32) (bs : List UInt8) : Memory := fun x =>
  (bs[(x - a).toNat]?).getD (mem x)

/-- Some blocks, one after the other. -/
def applyWrites (mem : Memory) (ws : List (UInt32 × List UInt8)) : Memory :=
  ws.foldl (fun mem w => storeBytes mem w.1 w.2) mem

/-- The bytes from `a` on. -/
def bytesFrom (mem : Memory) (a : UInt32) (i : Nat) : UInt8 := mem (a + UInt32.ofNat i)

/-- The word at an address. -/
def wordAt (mem : Memory) (a : UInt32) : UInt32 := wordOf (bytesFrom mem a) 0

/-- The allocator, and memory. -/
structure ElfState where
  heap : Mm.Alloc
  mem : Memory

/-- `edata->ehdr`. -/
def edataEhdr (mem : Memory) (edata : UInt32) : UInt32 := wordAt mem edata

/-- `edata->phdr`. -/
def edataPhdr (mem : Memory) (edata : UInt32) : UInt32 := wordAt mem (edata + 4)

/-- `*edata->ehdr`. -/
def elfEhdr (mem : Memory) (edata : UInt32) : ElfHeader :=
  elfHeaderOf ((List.range elfHeaderSize).map (bytesFrom mem (edataEhdr mem edata)))

/-- `&edata->phdr[i]`. -/
def phdrPtr (mem : Memory) (edata : UInt32) (i : Nat) : UInt32 :=
  edataPhdr mem edata + UInt32.ofNat (i * elf32PhdrSize)

/-- `*phdr`. -/
def phdrAt (mem : Memory) (phdr : UInt32) : Elf32Phdr := elf32PhdrOf (bytesFrom mem phdr) 0

/-- The headers of the table. -/
def elfPhdrs (mem : Memory) (edata : UInt32) : List Elf32Phdr :=
  (List.range (elfEhdr mem edata).phnum).map fun i => phdrAt mem (phdrPtr mem edata i)

/-! ## Preparing -/

/-- `exec_hand_t`, the fields the loader sets. -/
structure ExecHand where
  dataBegin : UInt32
  dataEnd : UInt32
  entrypoint : UInt32
  deriving DecidableEq, Repr

/-- `exec_elf_init`, of a handle that `exec_open` has cleared: `exec->data`,
    the handle, and the state; `none` is the panic of `alloc`. -/
def execElfInit (st : ElfState) : Option (UInt32 × ExecHand × ElfState) :=
  match Mm.alloc st.heap execElfDataSize 0 with
  | .ret edata heap =>
      some (UInt32.ofNat edata, ⟨0xFFFFFFFF, 0, 0⟩,
        ⟨heap, storeBytes st.mem (UInt32.ofNat edata) (List.replicate execElfDataSize 0)⟩)
  | _ => none

/-- `_elf_phdr_check`. -/
def elfPhdrCheck : List Elf32Phdr → Int
  | [] => 0
  | p :: ps => if p.type = elfPhdrTypeLoad ∧ p.vaddr < 0x100000 then -1 else elfPhdrCheck ps

/-- A buffer with a part of the file: it is allocated, its address goes into a
    field of `exec_elf_data_t`, and the file is read into it.  What `read`
    returned, and the state; `none` is the panic of `alloc`. -/
def elfReadBuf (file : FileHand) (field : UInt32) (sz : Nat) (off : Int) (st : ElfState) :
    Option (Int × ElfState) :=
  match Mm.alloc st.heap sz 0 with
  | .ret addr heap =>
      let mem := storeBytes st.mem field (toLe 4 addr)
      some ((file.read sz off).2, ⟨heap, storeBytes mem (wordAt mem field) (file.read sz off).1⟩)
  | _ => none

/-- `free`, of one pointer after the other; `none` is the panic. -/
def freeAll (heap : Mm.Alloc) (ptrs : List UInt32) : Option Mm.Alloc :=
  ptrs.foldlM (fun heap ptr => Mm.doFree heap ptr.toNat) heap

/-- The way out of `_elf_prepare` on a failure. -/
def elfPrepFail (ptrs : List UInt32) (exec : ExecHand) (st : ElfState) :
    Option Int × ExecHand × ElfState :=
  match freeAll st.heap ptrs with
  | none => (none, exec, st)
  | some heap => (some (-1), exec, { st with heap })

/-- `_elf_prepare`: what it returns (`none` is a panic), the handle and the
    state. -/
def elfPrepare (file : FileHand) (edata : UInt32) (exec : ExecHand) (st : ElfState) :
    Option Int × ExecHand × ElfState :=
  match elfReadBuf file edata elfHeaderSize 0 st with
  | none => (none, exec, st)
  | some (ret, st) =>
      let ehdr := elfEhdr st.mem edata
      let fail1 := elfPrepFail [edataEhdr st.mem edata, edata] exec st
      if ret ≠ elfHeaderSize then fail1
      else if ehdr.class ≠ hostElfClass ∨ ehdr.data ≠ elfDataLittleendian ∨
          ehdr.machine ≠ hostElfMachine then fail1
      else if ehdr.type ≠ elfTypeExec then fail1
      else if ehdr.entry < 0x100000 then fail1
      else
        -- nothing is known of the size: `alloc` panics on an empty table too
        let phdrTotSize := u32 (ehdr.phentsize * ehdr.phnum)
        match elfReadBuf file (edata + 4) phdrTotSize (s32 ehdr.phoff.toNat) st with
        | none => (none, exec, st)
        | some (ret, st) =>
            let fail2 := elfPrepFail [edataPhdr st.mem edata, edataEhdr st.mem edata, edata] exec st
            if ret ≠ s32 phdrTotSize then fail2
            else if elfPhdrCheck (elfPhdrs st.mem edata) ≠ 0 then fail2
            else (some 0, { exec with entrypoint := (elfEhdr st.mem edata).entry }, st)

/-! ## Loading -/

/-- The state of a load: the handle, memory, and the blocks written so far
    with the address each starts at. -/
structure LoadState where
  exec : ExecHand
  mem : Memory
  writes : List (UInt32 × List UInt8)

/-- A block is written. -/
def LoadState.write (s : LoadState) (a : UInt32) (bs : List UInt8) : LoadState :=
  { s with mem := storeBytes s.mem a bs, writes := s.writes ++ [(a, bs)] }

/-- `data_begin` and `data_end` grow to take in a segment. -/
def elfRecord (p : Elf32Phdr) (exec : ExecHand) : ExecHand :=
  let exec := if p.paddr < exec.dataBegin then { exec with dataBegin := p.paddr } else exec
  if p.paddr + p.memsz > exec.dataEnd then { exec with dataEnd := p.paddr + p.memsz } else exec

/-- A segment is recorded. -/
def LoadState.record (s : LoadState) (p : Elf32Phdr) : LoadState :=
  { s with exec := elfRecord p s.exec }

/-- What `read` delivers of a segment. -/
def segmentRead (file : FileHand) (p : Elf32Phdr) : List UInt8 × Int :=
  file.read p.filesz.toNat (s32 p.offset.toNat)

/-- The file data of a segment goes to `paddr`: whether all of it came.  (C
    leaves open whether `phdr->filesz` is looked at before the call of `read`
    or behind it.) -/
def elfReadSegment (file : FileHand) (phdr : UInt32) (s : LoadState) : Bool × LoadState :=
  let p := phdrAt s.mem phdr
  if p.filesz ≠ 0 then
    let s := s.write p.paddr (segmentRead file p).1
    -- the header may be among the bytes just written: its size is looked at again
    (decide ((segmentRead file p).2 = s32 (phdrAt s.mem phdr).filesz.toNat), s)
  else (true, s)

/-- The rest of a segment is cleared. -/
def elfClearSegment (phdr : UInt32) (s : LoadState) : LoadState :=
  let p := phdrAt s.mem phdr
  if p.filesz < p.memsz then
    s.write (p.paddr + p.filesz) (List.replicate (p.memsz - p.filesz).toNat 0)
  else s

/-- The body of the loop of `_elf_load_phdr` for a loadable segment: whether
    the loop goes on. -/
def elfLoadSegment (file : FileHand) (phdr : UInt32) (s : LoadState) : Bool × LoadState :=
  match elfReadSegment file phdr (s.record (phdrAt s.mem phdr)) with
  | (false, s) => (false, s)
  | (true, s) => (true, elfClearSegment phdr s)

/-- `_elf_load_phdr` from the header number `i` on.  `phnum` has 16 bits, so
    that 2 ^ 16 rounds are enough. -/
def elfLoadPhdr (file : FileHand) (edata : UInt32) : Nat → Nat → LoadState → Int × LoadState
  | 0, _, s => (0, s)
  | k + 1, i, s =>
      if i < (elfEhdr s.mem edata).phnum then
        -- `edata->phdr[i]` as it stands in memory by now
        let phdr := phdrPtr s.mem edata i
        if (phdrAt s.mem phdr).type = elfPhdrTypeLoad then
          match elfLoadSegment file phdr s with
          | (false, s) => (-1, s)
          | (true, s) => elfLoadPhdr file edata k (i + 1) s
        else elfLoadPhdr file edata k (i + 1) s
      else (0, s)

/-- `_elf_load`: what it returns (`none` is a panic), and the load. -/
def elfLoad (file : FileHand) (edata : UInt32) (exec : ExecHand) (st : ElfState) :
    Option Int × LoadState :=
  match elfLoadPhdr file edata (2 ^ 16) 0 ⟨exec, st.mem, []⟩ with
  | (ret, s) =>
      if ret ≠ 0 then
        ((freeAll st.heap [edataPhdr s.mem edata, edataEhdr s.mem edata, edata]).map fun _ => -1, s)
      else (some 0, s)

/-! ## The loader's own bytes -/

/-- A byte that the load looks at: of `exec_elf_data_t`, of the file header or
    of the program headers. -/
def Own (mem : Memory) (edata x : UInt32) : Prop :=
  (∃ k < execElfDataSize, x = edata + UInt32.ofNat k) ∨
    (∃ k < elfHeaderSize, x = edataEhdr mem edata + UInt32.ofNat k) ∨
    ∃ k < (elfEhdr mem edata).phnum * elf32PhdrSize, x = edataPhdr mem edata + UInt32.ofNat k

/-- A block that has none of these bytes. -/
def Apart (mem : Memory) (edata : UInt32) (w : UInt32 × List UInt8) : Prop :=
  ∀ k < w.2.length, ¬ Own mem edata (w.1 + UInt32.ofNat k)

/-- They are as they were. -/
def SameOwn (mem : Memory) (edata : UInt32) (mem' : Memory) : Prop :=
  ∀ x, Own mem edata x → mem' x = mem x

theorem wordOf_congr {t t' : Nat → UInt8} {a b : Nat} (h : ∀ k < 4, t (a + k) = t' (b + k)) :
    wordOf t a = wordOf t' b := by
  have h0 := h 0 (by omega)
  rw [Nat.add_zero, Nat.add_zero] at h0
  rw [wordOf, wordOf, h0, h 1 (by omega), h 2 (by omega), h 3 (by omega)]

/-- A header is the words at its place. -/
theorem elf32PhdrOf_congr {t t' : Nat → UInt8} {a b : Nat}
    (h : ∀ k < 24, t (a + k) = t' (b + k)) : elf32PhdrOf t a = elf32PhdrOf t' b := by
  have hword (j : Nat) (hj : j + 4 ≤ 24) : wordOf t (a + j) = wordOf t' (b + j) := by
    apply wordOf_congr
    intro k hk
    rw [Nat.add_assoc, Nat.add_assoc]
    exact h (j + k) (by omega)
  have hfirst := hword 0 (by omega)
  rw [Nat.add_zero, Nat.add_zero] at hfirst
  rw [elf32PhdrOf, elf32PhdrOf, hfirst, hword 4 (by omega), hword 8 (by omega),
    hword 12 (by omega), hword 16 (by omega), hword 20 (by omega)]

theorem storeBytes_nil (mem : Memory) (a : UInt32) : storeBytes mem a [] = mem := rfl

/-- A byte that is none of the block is left alone. -/
theorem storeBytes_outside {mem : Memory} {a x : UInt32} {bs : List UInt8}
    (h : ∀ k < bs.length, x ≠ a + UInt32.ofNat k) : storeBytes mem a bs x = mem x := by
  rw [storeBytes]
  rcases Nat.lt_or_ge (x - a).toNat bs.length with hlt | hge
  · -- then `x` is the byte of that number
    refine absurd ?_ (h _ hlt)
    rw [UInt32.ofNat_toNat, UInt32.add_comm, UInt32.sub_add_cancel]
  · rw [List.getElem?_eq_none hge, Option.getD_none]

theorem applyWrites_append (mem : Memory) (ws vs : List (UInt32 × List UInt8)) :
    applyWrites mem (ws ++ vs) = applyWrites (applyWrites mem ws) vs := List.foldl_append

section Own

variable {mem mem' : Memory} {edata : UInt32}

/-- A block apart from the loader's bytes leaves them as they are. -/
theorem SameOwn.storeBytes (h : SameOwn mem edata mem') {a : UInt32} {bs : List UInt8}
    (hapart : Apart mem edata (a, bs)) : SameOwn mem edata (storeBytes mem' a bs) := by
  intro x hx
  rw [storeBytes_outside, h x hx]
  rintro k hk rfl
  exact hapart k hk hx

theorem SameOwn.edataEhdr (h : SameOwn mem edata mem') :
    edataEhdr mem' edata = edataEhdr mem edata := by
  apply wordOf_congr
  intro k hk
  exact h _ (Or.inl ⟨_, by rw [execElfDataSize]; omega, rfl⟩)

theorem SameOwn.edataPhdr (h : SameOwn mem edata mem') :
    edataPhdr mem' edata = edataPhdr mem edata := by
  apply wordOf_congr
  intro k hk
  refine h _ (Or.inl ⟨4 + (0 + k), by rw [execElfDataSize]; omega, ?_⟩)
  rw [UInt32.ofNat_add 4, ← UInt32.add_assoc]
  rfl

theorem SameOwn.elfEhdr (h : SameOwn mem edata mem') : elfEhdr mem' edata = elfEhdr mem edata := by
  rw [LBoot.Exec.elfEhdr, LBoot.Exec.elfEhdr, h.edataEhdr]
  congr 1
  apply List.map_congr_left
  intro i hi
  exact h _ (Or.inr (Or.inl ⟨i, List.mem_range.mp hi, rfl⟩))

theorem SameOwn.phdrPtr (h : SameOwn mem edata mem') (i : Nat) :
    phdrPtr mem' edata i = phdrPtr mem edata i := by
  rw [LBoot.Exec.phdrPtr, LBoot.Exec.phdrPtr, h.edataPhdr]

/-- A header of the table stays as it is. -/
theorem SameOwn.phdrAt (h : SameOwn mem edata mem') {i : Nat}
    (hi : i < (LBoot.Exec.elfEhdr mem edata).phnum) :
    phdrAt mem' (LBoot.Exec.phdrPtr mem edata i) = phdrAt mem (LBoot.Exec.phdrPtr mem edata i) := by
  apply elf32PhdrOf_congr
  intro k hk
  refine h _ (Or.inr (Or.inr ⟨i * elf32PhdrSize + (0 + k), ?_, ?_⟩))
  · rw [elf32PhdrSize]
    omega
  · rw [LBoot.Exec.phdrPtr, UInt32.ofNat_add (i * elf32PhdrSize), UInt32.add_assoc]

/-! ### The headers of the table -/

/-- The loop goes on behind this segment. -/
def SegmentRead (file : FileHand) (p : Elf32Phdr) : Prop :=
  p.filesz ≠ 0 → (segmentRead file p).2 = s32 p.filesz.toNat

instance (file : FileHand) (p : Elf32Phdr) : Decidable (SegmentRead file p) :=
  inferInstanceAs (Decidable (_ → _))

/-- With the file data of a segment. -/
def LoadState.data (s : LoadState) (file : FileHand) (p : Elf32Phdr) : LoadState :=
  if p.filesz ≠ 0 then s.write p.paddr (segmentRead file p).1 else s

/-- With its zero fill. -/
def LoadState.fill (s : LoadState) (p : Elf32Phdr) : LoadState :=
  if p.filesz < p.memsz then
    s.write (p.paddr + p.filesz) (List.replicate (p.memsz - p.filesz).toNat 0)
  else s

theorem drop_elfPhdrs {i : Nat} (hi : i < (LBoot.Exec.elfEhdr mem edata).phnum) :
    (elfPhdrs mem edata).drop i
      = LBoot.Exec.phdrAt mem (LBoot.Exec.phdrPtr mem edata i) :: (elfPhdrs mem edata).drop (i + 1) := by
  rw [List.drop_eq_getElem_cons (by rwa [elfPhdrs, List.length_map, List.length_range])]
  simp [elfPhdrs]

theorem drop_elfPhdrs_of_le {i : Nat} (hi : (LBoot.Exec.elfEhdr mem edata).phnum ≤ i) :
    (elfPhdrs mem edata).drop i = [] :=
  List.drop_of_length_le (by rwa [elfPhdrs, List.length_map, List.length_range])

variable {file : FileHand} {i : Nat} {s : LoadState} {p : Elf32Phdr}

/-- File data that goes elsewhere leaves the header looked at as it is. -/
theorem elfReadSegment_same (hsame : SameOwn mem edata s.mem)
    (hi : i < (LBoot.Exec.elfEhdr mem edata).phnum)
    (hp : LBoot.Exec.phdrAt mem (LBoot.Exec.phdrPtr mem edata i) = p)
    (hapart : p.filesz ≠ 0 → Apart mem edata (p.paddr, (segmentRead file p).1)) :
    elfReadSegment file (LBoot.Exec.phdrPtr mem edata i) s
        = (decide (SegmentRead file p), s.data file p) ∧ SameOwn mem edata (s.data file p).mem := by
  have hnow := (hsame.phdrAt hi).trans hp
  rw [elfReadSegment, hnow, LoadState.data]
  dsimp only
  split
  · next hz =>
    -- the header looked at behind the read is still `p`
    have hsame' := hsame.storeBytes (hapart hz)
    have hthen : LBoot.Exec.phdrAt (s.write p.paddr (segmentRead file p).1).mem
        (LBoot.Exec.phdrPtr mem edata i) = p := (hsame'.phdrAt hi).trans hp
    rw [hthen]
    exact ⟨congrArg (·, _) (decide_eq_decide.mpr ⟨fun h _ => h, fun h => h hz⟩), hsame'⟩
  · next hz => exact ⟨congrArg (·, s) (decide_eq_true fun h => absurd h hz).symm, hsame⟩

theorem elfClearSegment_same (hsame : SameOwn mem edata s.mem)
    (hi : i < (LBoot.Exec.elfEhdr mem edata).phnum)
    (hp : LBoot.Exec.phdrAt mem (LBoot.Exec.phdrPtr mem edata i) = p)
    (hapart : p.filesz < p.memsz → Apart mem edata
      (p.paddr + p.filesz, List.replicate (p.memsz - p.filesz).toNat 0)) :
    elfClearSegment (LBoot.Exec.phdrPtr mem edata i) s = s.fill p ∧
      SameOwn mem edata (s.fill p).mem := by
  rw [elfClearSegment, (hsame.phdrAt hi).trans hp, LoadState.fill]
  split
  · next hlt => exact ⟨rfl, hsame.storeBytes (hapart hlt)⟩
  · exact ⟨rfl, hsame⟩

end Own

end LBoot.Exec
