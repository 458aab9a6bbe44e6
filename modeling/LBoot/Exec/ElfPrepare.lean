/-
  LBoot.Exec.ElfPrepare

  What `_elf_prepare` leaves of a file that it accepts (src/exec/fmt/elf.c).

  `exec_elf_data_t` and the two buffers are areas of the heap, so that they are
  apart, and below 1 MiB where the heap is; `cstart` gives the allocator the
  memory below 0x80000.  The file header is what was read of it, the table is
  what was read behind it, and no other memory is changed (`Buffers`).
-/

import LBoot.Exec.Elf
import LBoot.Mm.AllocPartition

namespace LBoot.Exec

open LBoot.Lib

/-- The allocator's memory ends below 1 MiB. -/
def HeapBelow (heap : Mm.Alloc) : Prop :=
  ∃ lo hi held, Mm.Keeps lo hi held heap ∧ hi ≤ 0x100000

/-- `exec->data` is an area of that memory. -/
def ElfOpened (edata : UInt32) (heap : Mm.Alloc) : Prop :=
  ∃ lo hi held, Mm.Keeps lo hi held heap ∧ hi ≤ 0x100000 ∧
    (edata.toNat, execElfDataSize) ∈ held ∧ 4 ∣ edata.toNat

/-- So it is in every run of the allocator on memory below 1 MiB. -/
theorem heapBelow_of_run {base size : Nat} (hfit : base + size ≤ 0x100000)
    (hroom : Mm.firstBlock base + Mm.sizeofAllocBlock < base + size) {calls : List Mm.AllocCall}
    {u : Mm.AllocRun}
    (hrun : (Mm.allocInit base size).bind (fun s => Mm.allocMachine.run ⟨s, []⟩ calls) = some u) :
    HeapBelow u.heap := by
  obtain ⟨s, hinit, hcalls⟩ := Option.bind_eq_some_iff.mp hrun
  have hlow : base + size ≤ 2 ^ 31 := hfit.trans (by decide)
  -- the invariant of the allocator's runs
  have hkeeps := Machine.run_invariant
    (I := fun v => Mm.Keeps (Mm.firstBlock base + Mm.sizeofAllocBlock) (base + size) v.live v.heap)
    (fun v call w hv hstep => Mm.allocMachine_step hlow hv hstep)
    (Mm.allocInit_keeps hlow hroom hinit) hcalls
  exact ⟨_, _, _, hkeeps, hfit⟩

/-! ## Stores -/

theorem storeBytes_apply {mem : Memory} {a : UInt32} {bs : List UInt8}
    (hfits : a.toNat + bs.length ≤ 2 ^ 32) (x : UInt32) :
    storeBytes mem a bs x =
      if h : a.toNat ≤ x.toNat ∧ x.toNat < a.toNat + bs.length then
        bs.get ⟨x.toNat - a.toNat, by omega⟩
      else mem x := by
  have ha := a.toNat_lt
  have hx := x.toNat_lt
  have hsub : (x - a).toNat = (2 ^ 32 - a.toNat + x.toNat) % 2 ^ 32 := UInt32.toNat_sub x a
  rw [storeBytes]
  split
  · next hin =>
      have hidx : (x - a).toNat = x.toNat - a.toNat := by rw [hsub]; omega
      rw [hidx, List.getElem?_eq_getElem (by omega), Option.getD_some, List.get_eq_getElem]
  · next hout => rw [List.getElem?_eq_none (by rw [hsub]; omega), Option.getD_none]

/-- A byte of the block. -/
theorem storeBytes_inside {mem : Memory} {a x : UInt32} {bs : List UInt8} {i : Nat}
    (hi : i < bs.length) (hx : x.toNat = a.toNat + i) : storeBytes mem a bs x = bs[i] := by
  have ha := a.toNat_lt
  have hlt := x.toNat_lt
  have hidx : (x - a).toNat = i := by
    rw [UInt32.toNat_sub_of_le _ _ (UInt32.le_iff_toNat_le.mpr (by omega))]
    omega
  rw [storeBytes, hidx, List.getElem?_eq_getElem hi, Option.getD_some]

/-- A byte in front of the block, or behind it. -/
theorem storeBytes_off {mem : Memory} {a x : UInt32} {bs : List UInt8} {n : Nat}
    (hlen : bs.length ≤ n) (hfits : a.toNat + n ≤ 2 ^ 32)
    (h : x.toNat < a.toNat ∨ a.toNat + n ≤ x.toNat) : storeBytes mem a bs x = mem x := by
  rw [storeBytes_apply (by omega), dif_neg (by omega)]

theorem toNat_add_ofNat {a : UInt32} {i : Nat} (h : a.toNat + i < 2 ^ 32) :
    (a + UInt32.ofNat i).toNat = a.toNat + i := by
  have hi : i < UInt32.size := show i < 2 ^ 32 by omega
  rw [UInt32.toNat_add, UInt32.toNat_ofNat_of_lt' hi, Nat.mod_eq_of_lt h]

/-- A pointer that was stored is read back. -/
theorem wordAt_storeBytes (mem : Memory) {a : UInt32} {n : Nat} (ha : a.toNat + 4 ≤ 2 ^ 32)
    (hn : n < 2 ^ 32) : wordAt (storeBytes mem a (toLe 4 n)) a = UInt32.ofNat n := by
  have hlen : (toLe 4 n).length = 4 := length_toLe 4 n
  have hbyte (i : Nat) (hi : i < (toLe 4 n).length) :
      bytesFrom (storeBytes mem a (toLe 4 n)) a i = (toLe 4 n)[i] :=
    storeBytes_inside hi (toNat_add_ofNat (by omega))
  rw [wordAt, wordOf, hbyte 0 (by omega), hbyte (0 + 1) (by omega), hbyte (0 + 2) (by omega),
    hbyte (0 + 3) (by omega)]
  have hall : [(toLe 4 n)[0], (toLe 4 n)[1], (toLe 4 n)[2], (toLe 4 n)[3]] = toLe 4 n := rfl
  exact congrArg UInt32.ofNat ((congrArg leNat hall).trans (leNat_toLe_of_lt hn))

/-- A word of memory that was not written. -/
theorem wordAt_congr {mem mem' : Memory} {a : UInt32} (ha : a.toNat + 4 ≤ 2 ^ 32)
    (h : ∀ x : UInt32, a.toNat ≤ x.toNat → x.toNat < a.toNat + 4 → mem' x = mem x) :
    wordAt mem' a = wordAt mem a := by
  apply wordOf_congr
  intro k hk
  have hat : (a + UInt32.ofNat (0 + k)).toNat = a.toNat + (0 + k) := toNat_add_ofNat (by omega)
  exact h _ (by omega) (by omega)

/-! ## A buffer -/

/-- What `elfReadBuf` does to the memory: a pointer, and what was read. -/
structure Filled (file : FileHand) (field : UInt32) (sz : Nat) (off : Int) (addr : Nat)
    (mem mem' : Memory) : Prop where
  ptr : wordAt mem' field = UInt32.ofNat addr
  bytes : ∀ i (hi : i < (file.read sz off).1.length),
    bytesFrom mem' (UInt32.ofNat addr) i = (file.read sz off).1[i]
  frame : ∀ x : UInt32, (x.toNat < field.toNat ∨ field.toNat + 4 ≤ x.toNat) →
    (x.toNat < addr ∨ addr + sz ≤ x.toNat) → mem' x = mem x

section Heap

variable {file : FileHand} {edata field : UInt32} {sz addr lo hi : Nat} {off ret : Int}
  {held : List (Nat × Nat)} {heap : Mm.Alloc} {st st' : ElfState} {a : Nat × Nat}

/-- The buffer is apart from where its address is put. -/
theorem elfReadBuf_filled (file : FileHand) (off : Int) (hk : Mm.Keeps lo hi held st.heap) (hhi : hi ≤ 0x100000)
    (ha : a ∈ held) (hfield : a.1 ≤ field.toNat ∧ field.toNat + 4 ≤ a.1 + a.2)
    (halloc : Mm.alloc st.heap sz 0 = .ret addr heap) :
    ∃ mem, elfReadBuf file field sz off st = some ((file.read sz off).2, ⟨heap, mem⟩) ∧
      Filled file field sz off addr st.mem mem := by
  have hk' := hk.alloc (hhi.trans (by decide)) halloc
  obtain ⟨-, -, haddr⟩ := hk'.held_bounds List.mem_cons_self
  have hbound := (hk.held_bounds ha).2.2
  have hapart := hk'.held_apart ha
  dsimp only at haddr hapart
  have hat : (UInt32.ofNat addr).toNat = addr :=
    UInt32.toNat_ofNat_of_lt' (show addr < 2 ^ 32 by omega)
  have hlen := file.read_le sz off
  have hptr : wordAt (storeBytes st.mem field (toLe 4 addr)) field = UInt32.ofNat addr :=
    wordAt_storeBytes _ (by omega) (by omega)
  refine ⟨storeBytes (storeBytes st.mem field (toLe 4 addr)) (UInt32.ofNat addr)
    (file.read sz off).1, ?_, ?_, ?_, ?_⟩
  · rw [elfReadBuf, halloc]
    dsimp only
    rw [hptr]
  · -- what is read into the buffer leaves the pointer to it alone
    rw [← hptr]
    refine wordAt_congr (by omega) fun x hlo hx => ?_
    rw [hptr]
    exact storeBytes_off hlen (by omega) (by omega)
  · intro i hi
    exact storeBytes_inside hi (toNat_add_ofNat (by omega))
  · intro x hout hbuf
    rw [storeBytes_off hlen (by omega) (by omega), storeBytes_off (Nat.le_of_eq (length_toLe 4 addr))
      (by omega) hout]

/-- A call that does not panic. -/
theorem elfReadBuf_some (h : elfReadBuf file field sz off st = some (ret, st')) :
    ∃ addr, Mm.alloc st.heap sz 0 = .ret addr st'.heap := by
  rw [elfReadBuf] at h
  split at h
  · next addr heap halloc =>
    cases h
    exact ⟨addr, halloc⟩
  · cases h

/-! ## Both buffers -/

/-- What `read` delivers of the table. -/
def tableRead (file : FileHand) (e : ElfHeader) : List UInt8 × Int :=
  file.read (e.phentsize * e.phnum) (s32 e.phoff.toNat)

/-- The memory behind `_elf_prepare`: the file header at `ehdr`, the table at
    `phdr`, and pointers to them. -/
structure Buffers (file : FileHand) (edata : UInt32) (ehdr phdr : Nat) (e : ElfHeader)
    (mem mem' : Memory) : Prop where
  ehdrPtr : edataEhdr mem' edata = UInt32.ofNat ehdr
  phdrPtr : edataPhdr mem' edata = UInt32.ofNat phdr
  header : elfEhdr mem' edata = e
  headerBytes : ∀ i (hi : i < (file.read elfHeaderSize 0).1.length),
    bytesFrom mem' (UInt32.ofNat ehdr) i = (file.read elfHeaderSize 0).1[i]
  table : ∀ i (hi : i < (tableRead file e).1.length),
    bytesFrom mem' (UInt32.ofNat phdr) i = (tableRead file e).1[i]
  frame : ∀ x : UInt32, (x.toNat < edata.toNat ∨ edata.toNat + execElfDataSize ≤ x.toNat) →
    (x.toNat < ehdr ∨ ehdr + elfHeaderSize ≤ x.toNat) →
    (x.toNat < phdr ∨ phdr + e.phentsize * e.phnum ≤ x.toNat) → mem' x = mem x

/-- Where `exec->data` and the buffers are. -/
structure Placed (edata : UInt32) (ehdr phdr tot : Nat) : Prop where
  edata_le : edata.toNat + execElfDataSize ≤ 0x100000
  ehdr_le : ehdr + elfHeaderSize ≤ 0x100000
  phdr_le : phdr + tot ≤ 0x100000
  pos : 0 < tot
  edata_ehdr : ehdr + elfHeaderSize ≤ edata.toNat ∨ edata.toNat + execElfDataSize ≤ ehdr
  edata_phdr : phdr + tot ≤ edata.toNat ∨ edata.toNat + execElfDataSize ≤ phdr
  ehdr_phdr : phdr + tot ≤ ehdr ∨ ehdr + elfHeaderSize ≤ phdr
  dvd : 4 ∣ edata.toNat ∧ 4 ∣ ehdr ∧ 4 ∣ phdr

/-- Two areas that were allocated beside `exec->data`. -/
theorem ElfOpened.placed (ho : ElfOpened edata st.heap) {ehdr phdr tot : Nat}
    {heap heap' : Mm.Alloc} (hehdr : Mm.alloc st.heap elfHeaderSize 0 = .ret ehdr heap)
    (hphdr : Mm.alloc heap tot 0 = .ret phdr heap') : Placed edata ehdr phdr tot := by
  obtain ⟨lo, hi, held, hk, hhi, hmem, hdvd⟩ := ho
  have hlow : hi ≤ 2 ^ 31 := hhi.trans (by decide)
  have hk₁ := hk.alloc hlow hehdr
  have hk₂ := hk₁.alloc hlow hphdr
  have hedata := (hk.held_bounds hmem).2.2
  have hbound₁ := (hk₁.held_bounds List.mem_cons_self).2.2
  obtain ⟨-, hpos, hbound₂⟩ := hk₂.held_bounds List.mem_cons_self
  exact {
    edata_le := hedata.trans hhi
    ehdr_le := hbound₁.trans hhi
    phdr_le := hbound₂.trans hhi
    pos := hpos
    edata_ehdr := hk₁.held_apart hmem
    edata_phdr := hk₂.held_apart (List.mem_cons_of_mem _ hmem)
    ehdr_phdr := hk₂.held_apart List.mem_cons_self
    dvd := ⟨hdvd, Mm.alloc_dvd hehdr, Mm.alloc_dvd hphdr⟩ }

/-- The file header, where it is in memory as it was read. -/
theorem elfEhdr_of_bytes {mem : Memory} {ehdr : Nat} {buf : List UInt8}
    (hptr : edataEhdr mem edata = UInt32.ofNat ehdr) (hlen : buf.length = elfHeaderSize)
    (hbytes : ∀ i (hi : i < buf.length), bytesFrom mem (UInt32.ofNat ehdr) i = buf[i]) :
    elfEhdr mem edata = elfHeaderOf buf := by
  rw [elfEhdr, hptr]
  congr 1
  apply List.ext_getElem
  · rw [List.length_map, List.length_range, hlen]
  · intro i hi hi'
    rw [List.getElem_map, List.getElem_range]
    exact hbytes i hi'

/-- The first read: the file header is in its buffer. -/
theorem elfReadBuf_header (file : FileHand) (ho : ElfOpened edata st.heap) {ehdr : Nat}
    (hehdr : Mm.alloc st.heap elfHeaderSize 0 = .ret ehdr heap) :
    ∃ mem, elfReadBuf file edata elfHeaderSize 0 st
        = some ((file.read elfHeaderSize 0).2, ⟨heap, mem⟩) ∧
      Filled file edata elfHeaderSize 0 ehdr st.mem mem := by
  obtain ⟨lo, hi, held, hk, hhi, hmem, -⟩ := ho
  exact elfReadBuf_filled file 0 hk hhi hmem
    ⟨Nat.le_refl _, by show edata.toNat + 4 ≤ edata.toNat + 8; omega⟩ hehdr

/-- The second read: the table is in its buffer, and the header still is. -/
theorem elfReadBuf_table (ho : ElfOpened edata st.heap) {ehdr phdr : Nat} {heap' : Mm.Alloc}
    {e : ElfHeader} {mem : Memory} (hehdr : Mm.alloc st.heap elfHeaderSize 0 = .ret ehdr heap)
    (hphdr : Mm.alloc heap (e.phentsize * e.phnum) 0 = .ret phdr heap')
    (hlen : (file.read elfHeaderSize 0).1.length = elfHeaderSize)
    (he : elfHeaderOf (file.read elfHeaderSize 0).1 = e)
    (hfill : Filled file edata elfHeaderSize 0 ehdr st.mem mem) :
    ∃ mem', elfReadBuf file (edata + 4) (e.phentsize * e.phnum) (s32 e.phoff.toNat) ⟨heap, mem⟩
        = some ((tableRead file e).2, ⟨heap', mem'⟩) ∧
      Buffers file edata ehdr phdr e st.mem mem' := by
  obtain ⟨hedata, hehdr_le, hphdr_le, -, hap, hap', hap'', -⟩ := ho.placed hehdr hphdr
  obtain ⟨lo, hi, held, hk, hhi, hmem, -⟩ := ho
  have hk₁ := hk.alloc (hhi.trans (by decide)) hehdr
  rw [execElfDataSize] at hedata hap hap'
  have hfield : (edata + 4).toNat = edata.toNat + 4 := @toNat_add_ofNat edata 4 (by omega)
  have hin : edata.toNat ≤ (edata + 4).toNat ∧ (edata + 4).toNat + 4 ≤ edata.toNat + 8 := by
    omega
  obtain ⟨mem', hread', hfill'⟩ := @elfReadBuf_filled (edata + 4) _ _ _ _ _ heap' ⟨heap, mem⟩ _
    file (s32 e.phoff.toNat) hk₁ hhi (List.mem_cons_of_mem _ hmem) hin hphdr
  -- the second pointer goes behind the first, and what is read into the second
  -- buffer leaves the first one alone
  have hptr : edataEhdr mem' edata = UInt32.ofNat ehdr :=
    (wordAt_congr (by omega) fun x hlo hx => hfill'.frame x (by omega) (by omega)).trans hfill.ptr
  have hbytes : ∀ i (hi : i < (file.read elfHeaderSize 0).1.length),
      bytesFrom mem' (UInt32.ofNat ehdr) i = (file.read elfHeaderSize 0).1[i] := by
    intro i hi
    rw [← hfill.bytes i hi]
    have hat : (UInt32.ofNat ehdr).toNat = ehdr :=
      UInt32.toNat_ofNat_of_lt' (show ehdr < 2 ^ 32 by omega)
    have hx : (UInt32.ofNat ehdr + UInt32.ofNat i).toNat = ehdr + i := by
      rw [toNat_add_ofNat (by omega), hat]
    exact hfill'.frame _ (by omega) (by omega)
  have hheader : elfEhdr mem' edata = e := by
    rw [← he]
    exact elfEhdr_of_bytes hptr hlen hbytes
  refine ⟨mem', hread', hptr, hfill'.ptr, hheader, hbytes, hfill'.bytes, fun x hx hx₁ hx₂ => ?_⟩
  rw [execElfDataSize] at hx
  exact (hfill'.frame x (by omega) hx₂).trans (hfill.frame x (by omega) hx₁)

/-! ## `_elf_prepare` -/

/-- What is checked of the file header. -/
structure HeaderOk (e : ElfHeader) : Prop where
  class_eq : e.class = hostElfClass
  data_eq : e.data = elfDataLittleendian
  machine_eq : e.machine = hostElfMachine
  type_eq : e.type = elfTypeExec
  entry_ge : 0x100000 ≤ e.entry

/-- A failure does not return 0. -/
theorem elfPrepFail_ne {ptrs : List UInt32} {exec exec' : ExecHand} :
    elfPrepFail ptrs exec st ≠ (some 0, exec', st') := by
  rw [elfPrepFail]
  intro h
  split at h
  · cases (Prod.mk.inj h).1
  · exact absurd (Option.some.inj (Prod.mk.inj h).1) (by decide)

/-- What an accepted file has gone through. -/
theorem elfPrepare_eq {exec exec' : ExecHand} :
    elfPrepare file edata exec st = (some 0, exec', st') ↔
      ∃ st₁, elfReadBuf file edata elfHeaderSize 0 st = some ((elfHeaderSize : Int), st₁) ∧
        HeaderOk (elfEhdr st₁.mem edata) ∧
        elfReadBuf file (edata + 4)
            (u32 ((elfEhdr st₁.mem edata).phentsize * (elfEhdr st₁.mem edata).phnum))
            (s32 (elfEhdr st₁.mem edata).phoff.toNat) st₁
          = some (s32 (u32 ((elfEhdr st₁.mem edata).phentsize * (elfEhdr st₁.mem edata).phnum)),
              st') ∧
        elfPhdrCheck (elfPhdrs st'.mem edata) = 0 ∧
        exec' = { exec with entrypoint := (elfEhdr st'.mem edata).entry } := by
  rw [elfPrepare]
  constructor
  · intro h
    split at h
    · cases (Prod.mk.inj h).1
    · next ret st₁ hread =>
      dsimp only at h
      -- each check that fails leaves by `elfPrepFail`, which does not return 0
      split_ifs at h with hret hplat htype hentry
      all_goals try exact absurd h elfPrepFail_ne
      obtain rfl := not_not.mp hret
      refine ⟨st₁, hread, ?_, ?_⟩
      · rw [not_or, not_or, not_not, not_not, not_not] at hplat
        exact ⟨hplat.1, hplat.2.1, hplat.2.2, not_not.mp htype, UInt32.not_lt.mp hentry⟩
      · split at h
        · cases (Prod.mk.inj h).1
        · next ret st₂ hread' =>
          split_ifs at h with hret' hcheck
          all_goals try exact absurd h elfPrepFail_ne
          obtain ⟨hexec, rfl⟩ := Prod.mk.inj (Prod.mk.inj h).2
          rw [not_not.mp hret'] at hread'
          exact ⟨hread', not_not.mp hcheck, hexec.symm⟩
  · rintro ⟨st₁, hread, ⟨hclass, hdata, hmachine, htype, hentry⟩, hread', hcheck, rfl⟩
    rw [hread]
    dsimp only
    rw [if_neg (not_not.mpr rfl), if_neg (by simp [hclass, hdata, hmachine]),
      if_neg (not_not.mpr htype), if_neg (UInt32.not_lt.mpr hentry), hread']
    dsimp only
    rw [if_neg (not_not.mpr rfl), if_neg (not_not.mpr hcheck)]

/-- The file header that the file starts with. -/
def headerRead (file : FileHand) : ElfHeader := elfHeaderOf (file.read elfHeaderSize 0).1

/-- What is known of a file that was accepted. -/
structure Accepted (file : FileHand) (edata : UInt32) (st st' : ElfState) : Prop where
  header_read : (file.read elfHeaderSize 0).2 = (elfHeaderSize : Int)
  header_ok : HeaderOk (headerRead file)
  table_read : (tableRead file (headerRead file)).2
    = ((headerRead file).phentsize * (headerRead file).phnum : Nat)
  placed : ∃ ehdr phdr heap, Mm.alloc st.heap elfHeaderSize 0 = .ret ehdr heap ∧
    Mm.alloc heap ((headerRead file).phentsize * (headerRead file).phnum) 0 = .ret phdr st'.heap ∧
    Buffers file edata ehdr phdr (headerRead file) st.mem st'.mem
  checked : elfPhdrCheck (elfPhdrs st'.mem edata) = 0

theorem leField_lt (bs : List UInt8) (off w : Nat) : leField bs off w < 256 ^ w := by
  have hlt := leNat_lt ((bs.drop off).take w)
  exact hlt.trans_le (Nat.pow_le_pow_right (by decide) (List.length_take_le ..))

/-- The size of a table is a product of two numbers of 16 bits. -/
theorem headerOf_tot_lt (buf : List UInt8) :
    (elfHeaderOf buf).phentsize * (elfHeaderOf buf).phnum < 2 ^ 32 := by
  have hent : (elfHeaderOf buf).phentsize < 2 ^ 16 := leField_lt buf 42 2
  have hnum : (elfHeaderOf buf).phnum < 2 ^ 16 := leField_lt buf 44 2
  calc (elfHeaderOf buf).phentsize * (elfHeaderOf buf).phnum
      ≤ (2 ^ 16 - 1) * (2 ^ 16 - 1) := Nat.mul_le_mul (by omega) (by omega)
    _ < 2 ^ 32 := by decide

theorem length_of_read {n : Nat} (h : (file.read sz off).2 = (n : Int)) :
    (file.read sz off).1.length = n := by
  have hcount := file.read_count sz off (by omega)
  omega

/-- **What `_elf_prepare` accepts.** -/
theorem elfPrepare_accepted (ho : ElfOpened edata st.heap) {exec exec' : ExecHand}
    (h : elfPrepare file edata exec st = (some 0, exec', st')) :
    Accepted file edata st st' ∧ exec' = { exec with entrypoint := (headerRead file).entry } := by
  obtain ⟨⟨heap, mem⟩, hread, hok, hread', hcheck, hexec⟩ := elfPrepare_eq.mp h
  obtain ⟨heap', mem'⟩ := st'
  obtain ⟨ehdr, hehdr⟩ := elfReadBuf_some hread
  obtain ⟨mem₁, hread₁, hfill⟩ := elfReadBuf_header file ho hehdr
  rw [hread, Option.some.injEq, Prod.mk.injEq, ElfState.mk.injEq] at hread₁
  obtain ⟨hret, -, rfl⟩ := hread₁
  -- the header in memory is the one read, so that the sizes are those of the file
  have hlen := length_of_read hret.symm
  have hheader : elfEhdr mem edata = headerRead file := elfEhdr_of_bytes hfill.ptr hlen hfill.bytes
  have htot : (headerRead file).phentsize * (headerRead file).phnum < 2 ^ 32 := headerOf_tot_lt _
  dsimp only at hok hread' hehdr
  rw [hheader, u32_of_lt htot] at hread'
  rw [hheader] at hok
  obtain ⟨phdr, hphdr⟩ := elfReadBuf_some hread'
  obtain ⟨mem₂, hread₂, hbuf⟩ := elfReadBuf_table ho hehdr hphdr hlen rfl hfill
  rw [hread', Option.some.injEq, Prod.mk.injEq, ElfState.mk.injEq] at hread₂
  obtain ⟨hret', -, rfl⟩ := hread₂
  -- a table that fits the heap is too small for a negative `ssize_t`
  have hsmall := (ho.placed hehdr hphdr).phdr_le
  rw [s32_of_range (by omega) (by omega)] at hret'
  dsimp only at hexec
  rw [hbuf.header] at hexec
  exact ⟨⟨hret.symm, hok, hret'.symm, ⟨ehdr, phdr, _, hehdr, hphdr, hbuf⟩, hcheck⟩, hexec⟩

/-- The other way around: a file whose headers pass the checks, where there is
    room for the table. -/
theorem elfPrepare_of_reads (ho : ElfOpened edata st.heap) {ehdr phdr : Nat} {heap' : Mm.Alloc}
    (exec : ExecHand) (hehdr : Mm.alloc st.heap elfHeaderSize 0 = .ret ehdr heap)
    (hphdr : Mm.alloc heap ((headerRead file).phentsize * (headerRead file).phnum) 0
      = .ret phdr heap')
    (hread : (file.read elfHeaderSize 0).2 = (elfHeaderSize : Int)) (hok : HeaderOk (headerRead file))
    (htable : (tableRead file (headerRead file)).2
      = ((headerRead file).phentsize * (headerRead file).phnum : Nat))
    (hcheck : ∀ mem', Buffers file edata ehdr phdr (headerRead file) st.mem mem' →
      elfPhdrCheck (elfPhdrs mem' edata) = 0) :
    ∃ mem', elfPrepare file edata exec st
        = (some 0, { exec with entrypoint := (headerRead file).entry }, ⟨heap', mem'⟩) ∧
      Buffers file edata ehdr phdr (headerRead file) st.mem mem' := by
  obtain ⟨mem, hread₁, hfill⟩ := elfReadBuf_header file ho hehdr
  have hlen := length_of_read hread
  have hheader : elfEhdr mem edata = headerRead file := elfEhdr_of_bytes hfill.ptr hlen hfill.bytes
  obtain ⟨mem', hread₂, hbuf⟩ := elfReadBuf_table ho hehdr hphdr hlen rfl hfill
  have hsmall := (ho.placed hehdr hphdr).phdr_le
  have htot : (headerRead file).phentsize * (headerRead file).phnum < 2 ^ 32 := headerOf_tot_lt _
  refine ⟨mem', elfPrepare_eq.mpr ⟨⟨heap, mem⟩, by rw [hread₁, hread], ?_⟩, hbuf⟩
  dsimp only
  rw [hheader, u32_of_lt htot, hread₂, htable, s32_of_range (by omega) (by omega),
    hbuf.header]
  exact ⟨hok, rfl, hcheck mem' hbuf, rfl⟩

/-- The loader's own bytes lie below 1 MiB. -/
def OwnBelow (mem : Memory) (edata : UInt32) : Prop := ∀ x, Own mem edata x → x < 0x100000

theorem Buffers.ownBelow {ehdr phdr tot : Nat} {e : ElfHeader} {mem mem' : Memory}
    (hplaced : Placed edata ehdr phdr tot) (hbuf : Buffers file edata ehdr phdr e mem mem')
    (hrows : phdr + e.phnum * elf32PhdrSize ≤ 0x100000) : OwnBelow mem' edata := by
  obtain ⟨hedata, hehdr_le, hphdr_le, -⟩ := hplaced
  have hptr : (UInt32.ofNat ehdr).toNat = ehdr :=
    UInt32.toNat_ofNat_of_lt' (show ehdr < 2 ^ 32 by omega)
  have hptr' : (UInt32.ofNat phdr).toNat = phdr :=
    UInt32.toNat_ofNat_of_lt' (show phdr < 2 ^ 32 by omega)
  intro x hx
  rw [UInt32.lt_iff_toNat_lt]
  show x.toNat < 0x100000
  rcases hx with ⟨k, hk, rfl⟩ | ⟨k, hk, rfl⟩ | ⟨k, hk, rfl⟩
  · rw [toNat_add_ofNat (by omega)]
    omega
  · rw [hbuf.ehdrPtr, toNat_add_ofNat (by omega)]
    omega
  · rw [hbuf.header] at hk
    rw [hbuf.phdrPtr, toNat_add_ofNat (by omega)]
    omega

/-- So they do if the headers looked at are in the table, or at least not so
    many that they reach 1 MiB. -/
theorem Accepted.ownBelow (ho : ElfOpened edata st.heap) (h : Accepted file edata st st')
    (hrow : elf32PhdrSize ≤ (headerRead file).phentsize ∨ (edataPhdr st'.mem edata).toNat
      + (headerRead file).phnum * elf32PhdrSize ≤ 0x100000) : OwnBelow st'.mem edata := by
  obtain ⟨ehdr, phdr, heap, hehdr, hphdr, hbuf⟩ := h.placed
  have hplaced := ho.placed hehdr hphdr
  have hphdr_le := hplaced.phdr_le
  refine hbuf.ownBelow hplaced ?_
  rcases hrow with hsize | hreach
  · have hmul := Nat.mul_le_mul_right (headerRead file).phnum hsize
    rw [Nat.mul_comm elf32PhdrSize] at hmul
    omega
  · rwa [hbuf.phdrPtr, UInt32.toNat_ofNat_of_lt' (show phdr < 2 ^ 32 by omega)] at hreach

/-- `exec_elf_init` opens a file for the loader. -/
theorem execElfInit_opened (hheap : HeapBelow st.heap) {exec : ExecHand}
    (h : execElfInit st = some (edata, exec, st')) :
    ElfOpened edata st'.heap ∧ exec = ⟨0xFFFFFFFF, 0, 0⟩ ∧
      ∀ x : UInt32, 0x100000 ≤ x → st'.mem x = st.mem x := by
  obtain ⟨lo, hi, held, hk, hhi⟩ := hheap
  rw [execElfInit] at h
  split at h
  · next addr heap halloc =>
    cases h
    have hk' := hk.alloc (hhi.trans (by decide)) halloc
    have hbound := (hk'.held_bounds List.mem_cons_self).2.2
    have hat : (UInt32.ofNat addr).toNat = addr :=
      UInt32.toNat_ofNat_of_lt' (show addr < 2 ^ 32 by omega)
    refine ⟨⟨lo, hi, _, hk', hhi, ?_, ?_⟩, rfl, fun x hx => ?_⟩
    · rw [hat]
      exact List.mem_cons_self
    · rw [hat]
      exact Mm.alloc_dvd halloc
    · rw [UInt32.le_iff_toNat_le] at hx
      have hx : 0x100000 ≤ x.toNat := hx
      exact storeBytes_off (Nat.le_of_eq List.length_replicate) (by omega) (by omega)
  · cases h

/-- The header in the file is the one in memory. -/
theorem Accepted.header (h : Accepted file edata st st') :
    elfEhdr st'.mem edata = headerRead file := by
  obtain ⟨_, _, _, -, -, hbuf⟩ := h.placed
  exact hbuf.header

/-- A header of the table is the one that was read for it. -/
theorem phdrAt_of_buffers {ehdr phdr i : Nat} {e : ElfHeader} {mem mem' : Memory}
    (h : Buffers file edata ehdr phdr e mem mem')
    (hi : i * elf32PhdrSize + 24 ≤ (tableRead file e).1.length) :
    phdrAt mem' (phdrPtr mem' edata i)
      = elf32PhdrOf (bytesOf (tableRead file e).1) (i * elf32PhdrSize) := by
  apply elf32PhdrOf_congr
  intro k hk
  have hlt : i * elf32PhdrSize + k < (tableRead file e).1.length := by omega
  have hat : LBoot.Exec.phdrPtr mem' edata i + UInt32.ofNat (0 + k)
      = UInt32.ofNat phdr + UInt32.ofNat (i * elf32PhdrSize + k) := by
    rw [LBoot.Exec.phdrPtr, h.phdrPtr, Nat.zero_add, UInt32.add_assoc, UInt32.ofNat_add]
  rw [bytesFrom, hat, bytesOf, List.getD_eq_getElem?_getD, List.getElem?_eq_getElem hlt]
  exact h.table _ hlt

/-- So are all of them, if they are in the table. -/
theorem Accepted.phdrs (h : Accepted file edata st st')
    (hfit : (headerRead file).phnum * elf32PhdrSize
      ≤ (headerRead file).phentsize * (headerRead file).phnum) :
    elfPhdrs st'.mem edata = (List.range (headerRead file).phnum).map fun i =>
      elf32PhdrOf (bytesOf (tableRead file (headerRead file)).1) (i * elf32PhdrSize) := by
  have hlen := length_of_read h.table_read
  obtain ⟨_, _, _, -, -, hbuf⟩ := h.placed
  rw [elfPhdrs, hbuf.header]
  apply List.map_congr_left
  intro i hi
  have hrow : (i + 1) * elf32PhdrSize ≤ (headerRead file).phnum * elf32PhdrSize :=
    Nat.mul_le_mul_right _ (List.mem_range.mp hi)
  refine phdrAt_of_buffers hbuf ?_
  rw [tableRead, hlen]
  have h32 : elf32PhdrSize = 32 := rfl
  rw [Nat.add_mul] at hrow
  omega

end Heap

/-! ## Files of given bytes -/

/-- A file of the given bytes.  A read past its end fails, and so does one of a
    size that is no count. -/
def fileOfBytes (content : List UInt8) : FileHand where
  read sz off :=
    if 0 ≤ off ∧ off.toNat + sz ≤ content.length ∧ sz < 2 ^ 31 then
      ((content.drop off.toNat).take sz, sz)
    else ([], -1)
  read_le sz off := by
    split
    · exact List.length_take_le ..
    · exact Nat.zero_le _
  read_count sz off := by
    split
    · next h =>
      intro _
      rw [List.length_take, List.length_drop]
      exact congrArg Nat.cast (Nat.min_eq_left (by omega)).symm
    · intro h
      exact absurd h (by decide)

/-- The header of an executable with a table right behind it. -/
def elfFileHeader (version phentsize phnum : Nat) : List UInt8 :=
  [0x7f, 0x45, 0x4c, 0x46, 1, 1, 1] ++ List.replicate 9 0 ++ toLe 2 2 ++ toLe 2 3 ++
    toLe 4 version ++ toLe 4 0x100000 ++ toLe 4 64 ++ List.replicate 8 0 ++ toLe 2 52 ++
    (toLe 2 phentsize ++ toLe 2 phnum ++ toLe 2 40 ++ List.replicate 16 0)

/-- A program header. -/
def phdrBytes (p : Elf32Phdr) : List UInt8 :=
  toLe 4 p.type.toNat ++ toLe 4 p.offset.toNat ++ toLe 4 p.vaddr.toNat ++ toLe 4 p.paddr.toNat ++
    toLe 4 p.filesz.toNat ++ toLe 4 p.memsz.toNat ++ toLe 4 7 ++ toLe 4 1

section Files

variable {version phentsize phnum : Nat} {rest : List UInt8}

theorem length_elfFileHeader : (elfFileHeader version phentsize phnum).length = elfHeaderSize := by
  simp [elfFileHeader]

theorem headerRead_elfFile (hent : phentsize < 2 ^ 16) (hnum : phnum < 2 ^ 16) :
    (fileOfBytes (elfFileHeader version phentsize phnum ++ rest)).read elfHeaderSize 0
        = (elfFileHeader version phentsize phnum, (elfHeaderSize : Int)) ∧
      headerRead (fileOfBytes (elfFileHeader version phentsize phnum ++ rest))
        = ⟨1, 1, 2, 3, 0x100000, 64, phentsize, phnum⟩ := by
  have hin : 0 ≤ (0 : Int) ∧ (0 : Int).toNat + elfHeaderSize
      ≤ (elfFileHeader version phentsize phnum ++ rest).length ∧ elfHeaderSize < 2 ^ 31 := by
    rw [List.length_append, length_elfFileHeader]
    exact ⟨Int.le_refl 0, by rw [Int.toNat_zero]; omega, by decide⟩
  have hread : (fileOfBytes (elfFileHeader version phentsize phnum ++ rest)).read elfHeaderSize 0
      = (elfFileHeader version phentsize phnum, (elfHeaderSize : Int)) := by
    simp only [fileOfBytes, if_pos hin]
    exact Prod.ext (List.take_left' length_elfFileHeader) rfl
  refine ⟨hread, ?_⟩
  have he : leField (elfFileHeader version phentsize phnum) 42 2 = leNat (toLe 2 phentsize) := rfl
  have hn : leField (elfFileHeader version phentsize phnum) 44 2 = leNat (toLe 2 phnum) := rfl
  have hentry : leField (elfFileHeader version phentsize phnum) 24 4 = 0x100000 := by
    show leNat [0, 0, 0x10, 0] = 0x100000
    decide
  have hphoff : leField (elfFileHeader version phentsize phnum) 28 4 = 64 := by
    show leNat [64, 0, 0, 0] = 64
    decide
  rw [headerRead, hread, elfHeaderOf, he, hn, hentry, hphoff, leNat_toLe_of_lt hent,
    leNat_toLe_of_lt hnum]
  rfl

theorem tableRead_elfFile (htot : phentsize * phnum ≤ rest.length)
    (hsmall : phentsize * phnum < 2 ^ 31) :
    tableRead (fileOfBytes (elfFileHeader version phentsize phnum ++ rest))
        ⟨1, 1, 2, 3, 0x100000, 64, phentsize, phnum⟩
      = (rest.take (phentsize * phnum), ((phentsize * phnum : Nat) : Int)) := by
  have hoff : s32 (64 : UInt32).toNat = 64 := s32_of_range (by decide) (by decide)
  have hin : 0 ≤ (64 : Int) ∧ (64 : Int).toNat + phentsize * phnum
      ≤ (elfFileHeader version phentsize phnum ++ rest).length ∧ phentsize * phnum < 2 ^ 31 := by
    rw [List.length_append, length_elfFileHeader]
    exact ⟨by decide, Nat.add_le_add_left htot 64, hsmall⟩
  rw [tableRead]
  dsimp only
  rw [hoff]
  simp only [fileOfBytes, if_pos hin]
  refine Prod.ext ?_ rfl
  show ((elfFileHeader version phentsize phnum ++ rest).drop 64).take _ = _
  rw [List.drop_left' length_elfFileHeader]

/-- Such a file is accepted if its headers pass the check. -/
theorem elfPrepare_elfFile {edata : UInt32} {st : ElfState} {heap heap' : Mm.Alloc}
    {ehdr phdr : Nat} (ho : ElfOpened edata st.heap) (exec : ExecHand)
    (hent : phentsize < 2 ^ 16) (hnum : phnum < 2 ^ 16) (htot : phentsize * phnum ≤ rest.length)
    (hehdr : Mm.alloc st.heap elfHeaderSize 0 = .ret ehdr heap)
    (hphdr : Mm.alloc heap (phentsize * phnum) 0 = .ret phdr heap')
    (hcheck : ∀ mem', Buffers (fileOfBytes (elfFileHeader version phentsize phnum ++ rest)) edata
        ehdr phdr ⟨1, 1, 2, 3, 0x100000, 64, phentsize, phnum⟩ st.mem mem' →
      elfPhdrCheck (elfPhdrs mem' edata) = 0) :
    ∃ mem', elfPrepare (fileOfBytes (elfFileHeader version phentsize phnum ++ rest)) edata exec st
        = (some 0, { exec with entrypoint := 0x100000 }, ⟨heap', mem'⟩) ∧
      Buffers (fileOfBytes (elfFileHeader version phentsize phnum ++ rest)) edata ehdr phdr
        ⟨1, 1, 2, 3, 0x100000, 64, phentsize, phnum⟩ st.mem mem' := by
  obtain ⟨hread, hheader⟩ := @headerRead_elfFile version _ _ rest hent hnum
  have hsmall := (ho.placed hehdr hphdr).phdr_le
  have htable := @tableRead_elfFile version _ _ rest htot (by omega)
  have hprep := @elfPrepare_of_reads (fileOfBytes (elfFileHeader version phentsize phnum ++ rest))
    edata heap st ho ehdr phdr heap' exec hehdr
  rw [hheader] at hprep
  exact hprep hphdr (by rw [hread]) ⟨rfl, rfl, rfl, rfl, UInt32.le_refl _⟩
    (by rw [htable]) hcheck

theorem elfPhdrCheck_eq_zero {ps : List Elf32Phdr}
    (h : ∀ p ∈ ps, p.type = elfPhdrTypeLoad → 0x100000 ≤ p.vaddr) : elfPhdrCheck ps = 0 := by
  induction ps with
  | nil => rfl
  | cons p ps ih =>
      rw [List.forall_mem_cons] at h
      rw [elfPhdrCheck, if_neg, ih h.2]
      rintro ⟨htype, hlow⟩
      exact absurd hlow (UInt32.not_lt.mpr (h.1 htype))

/-- What a program header is decoded to. -/
theorem elf32PhdrOf_phdrBytes (p : Elf32Phdr) : elf32PhdrOf (bytesOf (phdrBytes p)) 0 = p := by
  have hword (x : UInt32) : UInt32.ofNat (leNat (toLe 4 x.toNat)) = x := by
    rw [leNat_toLe_of_lt x.toNat_lt, UInt32.ofNat_toNat]
  have htype : wordOf (bytesOf (phdrBytes p)) 0 = p.type := hword _
  have hoffset : wordOf (bytesOf (phdrBytes p)) 4 = p.offset := hword _
  have hvaddr : wordOf (bytesOf (phdrBytes p)) 8 = p.vaddr := hword _
  have hpaddr : wordOf (bytesOf (phdrBytes p)) 12 = p.paddr := hword _
  have hfilesz : wordOf (bytesOf (phdrBytes p)) 16 = p.filesz := hword _
  have hmemsz : wordOf (bytesOf (phdrBytes p)) 20 = p.memsz := hword _
  rw [elf32PhdrOf, htype, hoffset, hvaddr, hpaddr, hfilesz, hmemsz]

theorem length_flatMap_phdrBytes (ps : List Elf32Phdr) :
    (ps.flatMap phdrBytes).length = elf32PhdrSize * ps.length := by
  induction ps with
  | nil => rfl
  | cons p ps ih =>
      have hp : (phdrBytes p).length = elf32PhdrSize := rfl
      rw [List.flatMap_cons, List.length_append, ih, hp, List.length_cons, Nat.mul_succ, Nat.add_comm]

theorem bytesOf_flatMap {ps : List Elf32Phdr} {i : Nat} (hi : i < ps.length) (bs : List UInt8)
    {k : Nat} (hk : k < 32) :
    bytesOf (ps.flatMap phdrBytes ++ bs) (i * elf32PhdrSize + k) = bytesOf (phdrBytes ps[i]) k := by
  have hlen (p : Elf32Phdr) : (phdrBytes p).length = 32 := rfl
  induction ps generalizing i with
  | nil => exact absurd hi (Nat.not_lt_zero i)
  | cons p ps ih =>
      rw [List.flatMap_cons, List.append_assoc, bytesOf, List.getD_eq_getElem?_getD]
      cases i with
      | zero =>
          rw [List.getElem?_append_left (by rw [hlen, elf32PhdrSize]; omega), Nat.zero_mul,
            Nat.zero_add]
          rfl
      | succ i =>
          have hrest := ih (Nat.lt_of_succ_lt_succ hi)
          rw [bytesOf, List.getD_eq_getElem?_getD] at hrest
          rw [List.getElem?_append_right (by rw [hlen, elf32PhdrSize]; omega), hlen,
            List.getElem_cons_succ, ← hrest, Nat.add_mul, Nat.add_right_comm]
          rfl

/-- An executable with these program headers, and these bytes behind them. -/
def elfFile (ps : List Elf32Phdr) (bs : List UInt8) : List UInt8 :=
  elfFileHeader 1 elf32PhdrSize ps.length ++ (ps.flatMap phdrBytes ++ bs)

/-- It is accepted, with these headers in its table. -/
theorem elfPrepare_elfFile_phdrs {edata : UInt32} {st : ElfState} {heap heap' : Mm.Alloc}
    {ehdr phdr : Nat} {ps : List Elf32Phdr} {bs : List UInt8} (ho : ElfOpened edata st.heap)
    (exec : ExecHand) (hnum : ps.length < 2 ^ 16)
    (hehdr : Mm.alloc st.heap elfHeaderSize 0 = .ret ehdr heap)
    (hphdr : Mm.alloc heap (elf32PhdrSize * ps.length) 0 = .ret phdr heap')
    (hcheck : ∀ p ∈ ps, p.type = elfPhdrTypeLoad → 0x100000 ≤ p.vaddr) :
    ∃ mem', elfPrepare (fileOfBytes (elfFile ps bs)) edata exec st
        = (some 0, { exec with entrypoint := 0x100000 }, ⟨heap', mem'⟩) ∧
      Buffers (fileOfBytes (elfFile ps bs)) edata ehdr phdr
        ⟨1, 1, 2, 3, 0x100000, 64, elf32PhdrSize, ps.length⟩ st.mem mem' ∧
      elfPhdrs mem' edata = ps := by
  have hsmall := (ho.placed hehdr hphdr).phdr_le
  have htot : elf32PhdrSize * ps.length ≤ (ps.flatMap phdrBytes ++ bs).length := by
    rw [List.length_append, length_flatMap_phdrBytes]
    exact Nat.le_add_right _ _
  have htable := @tableRead_elfFile 1 elf32PhdrSize ps.length _ htot (by omega)
  -- the headers in memory are those of the file
  have hphdrs : ∀ mem', Buffers (fileOfBytes (elfFile ps bs)) edata ehdr phdr
      ⟨1, 1, 2, 3, 0x100000, 64, elf32PhdrSize, ps.length⟩ st.mem mem' →
      elfPhdrs mem' edata = ps := by
    intro mem' hbuf
    rw [elfPhdrs, hbuf.header]
    apply List.ext_getElem
    · rw [List.length_map, List.length_range]
    · intro i hi hi'
      have hrow : (i + 1) * elf32PhdrSize ≤ elf32PhdrSize * ps.length := by
        rw [Nat.mul_comm]
        exact Nat.mul_le_mul_left _ hi'
      rw [elf32PhdrSize] at hrow
      rw [List.getElem_map, List.getElem_range, phdrAt_of_buffers hbuf, elfFile, htable,
        ← elf32PhdrOf_phdrBytes ps[i]]
      · apply elf32PhdrOf_congr
        intro k hk
        have hk : i * elf32PhdrSize + k < elf32PhdrSize * ps.length := by
          rw [elf32PhdrSize]
          omega
        rw [Nat.zero_add, ← bytesOf_flatMap hi' bs (by omega), bytesOf, bytesOf,
          List.getD_eq_getElem?_getD, List.getD_eq_getElem?_getD, List.getElem?_take_of_lt hk]
      · rw [elfFile, htable, List.length_take, elf32PhdrSize]
        rw [elf32PhdrSize] at htot
        omega
  obtain ⟨mem', hprep, hbuf⟩ := elfPrepare_elfFile ho exec (by decide) hnum htot hehdr hphdr
    fun mem' hbuf => (congrArg elfPhdrCheck (hphdrs mem' hbuf)).trans (elfPhdrCheck_eq_zero hcheck)
  exact ⟨mem', hprep, hbuf, hphdrs mem' hbuf⟩

end Files

/-! ## The heap at boot -/

/-- The table of the allocator with these entries. -/
def heapOf (es : List Mm.AllocEnt) : Mm.Alloc :=
  ⟨[⟨0x7e00, Vector.ofFn fun i => es.getD i ⟨false, false, 0, 0⟩⟩]⟩

/-- Behind `alloc_init`. -/
def bootHeap : Mm.Alloc := heapOf [⟨true, false, 0x8404, 0x77bfc⟩]

/-- Behind `exec_elf_init`, with `exec->data` at 0x10000. -/
def openedHeap : Mm.Alloc :=
  heapOf [⟨true, false, 0x10008, 0x6fff8⟩, ⟨true, false, 0x8404, 0x7bfc⟩, ⟨true, true, 0x10000, 8⟩]

theorem bootHeap_below : HeapBelow bootHeap := by
  have hinit : Mm.allocInit 0x7e00 0x78200 = some bootHeap := by decide +kernel
  exact ⟨_, _, [], Mm.allocInit_keeps (by decide) (by decide) hinit, by decide⟩

theorem execElfInit_bootHeap (mem : Memory) : execElfInit ⟨bootHeap, mem⟩
    = some (0x10000, ⟨0xFFFFFFFF, 0, 0⟩,
      ⟨openedHeap, storeBytes mem 0x10000 (List.replicate execElfDataSize 0)⟩) := by
  have halloc : Mm.alloc bootHeap execElfDataSize 0 = .ret 0x10000 openedHeap := by decide +kernel
  rw [execElfInit, halloc]
  rfl

theorem openedHeap_opened : ElfOpened 0x10000 openedHeap :=
  (execElfInit_opened bootHeap_below (execElfInit_bootHeap fun _ => 0)).1

/-- With the buffer for the file header. -/
def headerHeap : Mm.Alloc :=
  heapOf [⟨true, false, 0x10048, 0x6ffb8⟩, ⟨true, false, 0x8404, 0x7bfc⟩,
    ⟨true, true, 0x10000, 8⟩, ⟨true, true, 0x10008, 64⟩]

theorem openedHeap_header : Mm.alloc openedHeap elfHeaderSize 0 = .ret 0x10008 headerHeap := by
  decide +kernel

theorem headerHeap_one : ∃ heap, Mm.alloc headerHeap (elf32PhdrSize * 1) 0 = .ret 0x10048 heap := by
  refine ⟨heapOf [⟨true, false, 0x10068, 0x6ff98⟩, ⟨true, false, 0x8404, 0x7bfc⟩,
    ⟨true, true, 0x10000, 8⟩, ⟨true, true, 0x10008, 64⟩, ⟨true, true, 0x10048, 32⟩], ?_⟩
  decide +kernel

/-- A file with one program header, loaded at boot. -/
theorem elfPrepare_one (p : Elf32Phdr) (hp : p.type = elfPhdrTypeLoad → 0x100000 ≤ p.vaddr)
    (bs : List UInt8) (exec : ExecHand) (mem : Memory) :
    ∃ st', elfPrepare (fileOfBytes (elfFile [p] bs)) 0x10000 exec ⟨openedHeap, mem⟩
        = (some 0, { exec with entrypoint := 0x100000 }, st') ∧
      elfPhdrs st'.mem 0x10000 = [p] ∧ OwnBelow st'.mem 0x10000 := by
  obtain ⟨heap, hheap⟩ := headerHeap_one
  obtain ⟨mem', hprep, hbuf, hphdrs⟩ := @elfPrepare_elfFile_phdrs 0x10000 ⟨openedHeap, mem⟩ _ heap
    _ _ [p] bs openedHeap_opened exec (show 1 < 2 ^ 16 by omega) openedHeap_header hheap
    (List.forall_mem_singleton.mpr hp)
  have hopened : ElfOpened 0x10000 (⟨openedHeap, mem⟩ : ElfState).heap := openedHeap_opened
  have hacc := (elfPrepare_accepted hopened hprep).1
  refine ⟨_, hprep, hphdrs, hacc.ownBelow hopened (Or.inl ?_)⟩
  rw [← hacc.header, hbuf.header]

end LBoot.Exec
