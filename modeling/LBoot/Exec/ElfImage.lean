/-
  LBoot.Exec.ElfImage

  The memory an ELF load leaves (src/exec/fmt/elf.c), and the image its file
  describes.

  The file says how large an entry of its program header table is; the table
  is read with that size, and then indexed as an array of `elf32_phdr_t`.
  Where the two agree on where the headers lie, and no segment lies over what
  the loader looks at, the load leaves the image described, segment after
  segment (`elfLoad_image`).  Otherwise the loader looks at other bytes, behind
  the buffer if the entries are smaller, and there are files it loads wrongly,
  wherever there is room for their table (`elfLoad_image_iff`).
-/

import LBoot.Exec.ElfRange
import Mathlib.Tactic.IntervalCases

namespace LBoot.Exec

open LBoot.Lib

/-- Reads deliver the bytes of the file, or fail with -1. -/
structure ReadsFile (file : FileHand) (content : List UInt8) : Prop where
  bytes : ∀ sz off, 0 ≤ (file.read sz off).2 → ∀ i < (file.read sz off).1.length,
    0 ≤ off ∧ (file.read sz off).1[i]? = content[off.toNat + i]?
  fails : ∀ sz off, (file.read sz off).2 < 0 → (file.read sz off).2 = -1

/-! ## The image described -/

/-- The headers of the file, where its own header says they are. -/
def describedPhdrs (content : List UInt8) (ehdr : ElfHeader) : List Elf32Phdr :=
  (List.range ehdr.phnum).map fun i =>
    elf32PhdrOf (bytesOf content) (ehdr.phoff.toNat + i * ehdr.phentsize)

/-- A segment in memory: its bytes in the file, and zeros up to its end. -/
def segmentImage (content : List UInt8) (p : Elf32Phdr) (mem : Memory) : Memory := fun x =>
  if p.paddr.toNat ≤ x.toNat ∧ x.toNat < p.paddr.toNat + p.filesz.toNat then
    bytesOf content (p.offset.toNat + (x.toNat - p.paddr.toNat))
  else if p.paddr.toNat + p.filesz.toNat ≤ x.toNat ∧ x.toNat < segmentEnd p then 0
  else mem x

/-- The segments of the file, one after the other. -/
def describedImage (content : List UInt8) (ehdr : ElfHeader) (mem : Memory) : Memory :=
  (loadable (describedPhdrs content ehdr)).foldl (fun mem p => segmentImage content p mem) mem

/-- A segment that does not wrap around, has no more bytes in the file than in
    memory, and lies over none of these. -/
structure SegmentOrdinary (own : UInt32 → Prop) (p : Elf32Phdr) : Prop where
  fits : segmentEnd p ≤ 2 ^ 32
  filesz_le : p.filesz ≤ p.memsz
  apart : ∀ x : UInt32, p.paddr.toNat ≤ x.toNat → x.toNat < segmentEnd p → ¬ own x

/-- The segments that the file describes are such, with respect to the bytes
    the loader looks at. -/
def SegmentsOrdinary (content : List UInt8) (edata : UInt32) (mem : Memory) : Prop :=
  ∀ p ∈ loadable (describedPhdrs content (elfEhdr mem edata)), SegmentOrdinary (Own mem edata) p

/-- What a load is to do: look at headers in the table only, and leave the
    image described. -/
structure BuildsImage (content : List UInt8) (edata : UInt32) (mem : Memory) (s : LoadState) :
    Prop where
  inTable : ∀ i < (elfEhdr mem edata).phnum, i * elf32PhdrSize + elf32PhdrSize
    ≤ (elfEhdr mem edata).phentsize * (elfEhdr mem edata).phnum
  image : s.mem = describedImage content (elfEhdr mem edata) mem

/-! ## Segments -/

section Segments

variable {file : FileHand} {content : List UInt8} {p : Elf32Phdr} {own : UInt32 → Prop}

theorem s32_of_nonneg {x : Nat} (hx : x < 2 ^ 32) (h : 0 ≤ s32 x) : s32 x = x := by
  rcases Nat.lt_or_ge x (2 ^ 31) with hlt | hge
  · exact s32_of_range (by omega) (by omega)
  · have hwrap : s32 x = s32 ((x : Int) - 2 ^ 32) := by
      rw [s32, s32]
      exact (Int.sub_bmod_right _ _).symm
    rw [hwrap, s32_of_range (by omega) (by omega)] at h
    omega

/-- The result -1 is a size only for a segment that fills the address space. -/
theorem s32_eq_neg_one {x : Nat} (hx : x < 2 ^ 32) (h : s32 x = -1) : x = 2 ^ 32 - 1 := by
  rcases Nat.lt_or_ge x (2 ^ 31) with hlt | hge
  · rw [s32_of_range (by omega) (by omega)] at h
    omega
  · have hwrap : s32 x = s32 ((x : Int) - 2 ^ 32) := by
      rw [s32, s32]
      exact (Int.sub_bmod_right _ _).symm
    rw [hwrap, s32_of_range (by omega) (by omega)] at h
    omega

/-- Such a segment would lie over any byte between the first and the last. -/
theorem SegmentOrdinary.filesz_lt (h : SegmentOrdinary own p) {x : UInt32} (hx : own x)
    (hlo : 1 ≤ x.toNat) (hhi : x.toNat < 2 ^ 32 - 1) : p.filesz.toNat < 2 ^ 32 - 1 := by
  by_contra hge
  have hfits := h.fits
  have hle := h.filesz_le
  have hmax := p.memsz.toNat_lt
  rw [UInt32.le_iff_toNat_le] at hle
  rw [segmentEnd] at hfits
  exact h.apart x (by omega) (by rw [segmentEnd]; omega) hx

/-- The bytes read for a segment are those of the file. -/
theorem segmentData_read (hfile : ReadsFile file content) (hread : SegmentRead file p)
    (hlt : p.filesz.toNat < 2 ^ 32 - 1) :
    (segmentData file p).length = p.filesz.toNat ∧
      ∀ i (hi : i < (segmentData file p).length),
        (segmentData file p)[i] = bytesOf content (p.offset.toNat + i) := by
  by_cases hz : p.filesz = 0
  · have hnil : segmentData file p = [] := if_neg (not_not.mpr hz)
    simp [hnil, hz]
  · have hdata : segmentData file p = (segmentRead file p).1 := if_pos hz
    have hret := hread hz
    -- -1 would have to be the size asked for
    have hpos : 0 ≤ (segmentRead file p).2 := by
      by_contra hneg
      have hfail := hfile.fails _ _ (Int.not_le.mp hneg)
      rw [← segmentRead, hret] at hfail
      have hall := s32_eq_neg_one p.filesz.toNat_lt hfail
      omega
    have hlen := file.read_count _ _ hpos
    rw [← segmentRead, hret, s32_of_nonneg p.filesz.toNat_lt (hret ▸ hpos)] at hlen
    rw [hdata]
    refine ⟨by omega, fun i hi => ?_⟩
    obtain ⟨hoff, hbyte⟩ := hfile.bytes _ _ hpos i hi
    have haddr : (s32 p.offset.toNat).toNat = p.offset.toNat := by
      rw [s32_of_nonneg p.offset.toNat_lt hoff, Int.toNat_natCast]
    rw [haddr] at hbyte
    rw [bytesOf, List.getD_eq_getElem?_getD, ← hbyte]
    exact (congrArg (Option.getD · 0) (List.getElem?_eq_getElem hi)).symm

theorem applyWrites_segmentWrites (mem : Memory) (file : FileHand) (p : Elf32Phdr) :
    applyWrites mem (segmentWrites file p)
      = if p.filesz < p.memsz then
          storeBytes (storeBytes mem p.paddr (segmentData file p)) (p.paddr + p.filesz)
            (List.replicate (p.memsz - p.filesz).toNat 0)
        else storeBytes mem p.paddr (segmentData file p) := by
  rw [segmentWrites, applyWrites_append, segmentData]
  split <;> split <;> rfl

/-- What is written for a segment that was read is its image. -/
theorem applyWrites_segment (hfile : ReadsFile file content) (hread : SegmentRead file p)
    (hp : SegmentOrdinary own p) (hlt : p.filesz.toNat < 2 ^ 32 - 1) (mem : Memory) :
    applyWrites mem (segmentWrites file p) = segmentImage content p mem := by
  obtain ⟨hlen, hbytes⟩ := segmentData_read hfile hread hlt
  have hsize := hp.filesz_le
  have hend := hp.fits
  rw [UInt32.le_iff_toNat_le] at hsize
  rw [segmentEnd] at hend
  -- the file data
  have hdata : ∀ x, storeBytes mem p.paddr (segmentData file p) x
      = if p.paddr.toNat ≤ x.toNat ∧ x.toNat < p.paddr.toNat + p.filesz.toNat then
          bytesOf content (p.offset.toNat + (x.toNat - p.paddr.toNat))
        else mem x := by
    intro x
    rw [storeBytes_apply (by omega)]
    simp only [hlen]
    split
    · exact hbytes _ _
    · rfl
  rw [applyWrites_segmentWrites]
  funext x
  split
  · next hlt =>
      rw [UInt32.lt_iff_toNat_lt] at hlt
      have hstart : (p.paddr + p.filesz).toNat = p.paddr.toNat + p.filesz.toNat := by
        rw [UInt32.toNat_add, Nat.mod_eq_of_lt (by omega)]
      have hsub := UInt32.toNat_sub_of_le p.memsz p.filesz (UInt32.le_iff_toNat_le.mpr hlt.le)
      rw [storeBytes_apply (by rw [List.length_replicate]; omega), segmentImage, segmentEnd]
      simp only [List.length_replicate, List.get_eq_getElem, List.getElem_replicate, hstart, hsub, hdata, dite_eq_ite]
      -- the zero fill is behind the file data
      split
      · rw [if_neg (by omega), if_pos (by omega)]
      · split
        · rfl
        · rw [if_neg (by omega)]
  · next hge =>
      rw [UInt32.lt_iff_toNat_lt] at hge
      rw [hdata, segmentImage, segmentEnd]
      split
      · rfl
      · rw [if_neg (by omega)]

/-- So it is for all of them, one after the other. -/
theorem applyWrites_segments (hfile : ReadsFile file content) {ps : List Elf32Phdr}
    (hread : ∀ p ∈ ps, SegmentRead file p)
    (hps : ∀ p ∈ ps, SegmentOrdinary own p ∧ p.filesz.toNat < 2 ^ 32 - 1) (mem : Memory) :
    applyWrites mem (ps.flatMap (segmentWrites file))
      = ps.foldl (fun mem p => segmentImage content p mem) mem := by
  induction ps generalizing mem with
  | nil => rfl
  | cons p ps ih =>
      rw [List.forall_mem_cons] at hread hps
      rw [List.flatMap_cons, applyWrites_append,
        applyWrites_segment hfile hread.1 hps.1.1 hps.1.2, ih hread.2 hps.2, List.foldl_cons]

/-- What is written for an ordinary segment is written over none of the bytes
    it is apart from. -/
theorem SegmentOrdinary.segmentWrites_apart (h : SegmentOrdinary own p) :
    ∀ w ∈ segmentWrites file p, ∀ k < w.2.length, ¬ own (w.1 + UInt32.ofNat k) := by
  intro w hw k hk
  have hfits := h.fits
  have hle := h.filesz_le
  rw [UInt32.le_iff_toNat_le] at hle
  rw [segmentEnd] at hfits
  rw [segmentWrites, List.mem_append] at hw
  rcases hw with hw | hw
  · split at hw
    · obtain rfl := List.mem_singleton.mp hw
      have hlen := file.read_le p.filesz.toNat (s32 p.offset.toNat)
      dsimp only [segmentRead] at hk ⊢
      have hat := @toNat_add_ofNat p.paddr k (by omega)
      exact h.apart _ (by omega) (by rw [segmentEnd]; omega)
    · exact absurd hw List.not_mem_nil
  · split at hw
    · next hlt =>
      obtain rfl := List.mem_singleton.mp hw
      rw [List.length_replicate] at hk
      rw [UInt32.lt_iff_toNat_lt] at hlt
      have hsub := UInt32.toNat_sub_of_le p.memsz p.filesz (UInt32.le_iff_toNat_le.mpr hlt.le)
      have hadd := UInt32.toNat_add p.paddr p.filesz
      rw [Nat.mod_eq_of_lt (by omega)] at hadd
      have hat := @toNat_add_ofNat (p.paddr + p.filesz) k (by omega)
      dsimp only
      exact h.apart _ (by omega) (by rw [segmentEnd]; omega)
    · exact absurd hw List.not_mem_nil

end Segments

/-! ## The headers -/

/-- The headers the loader looks at lie in its table, at the places where the
    file says they are. -/
def StrideFits (phentsize phnum : Nat) : Prop :=
  phentsize = elf32PhdrSize ∨ phnum = 1 ∧ elf32PhdrSize ≤ phentsize

theorem StrideFits.le {phentsize phnum : Nat} (h : StrideFits phentsize phnum) :
    elf32PhdrSize ≤ phentsize := by
  rcases h with heq | ⟨-, hle⟩
  · exact Nat.le_of_eq heq.symm
  · exact hle

section Load

variable {file : FileHand} {content : List UInt8} {edata : UInt32} {st st' : ElfState}
  {exec exec' : ExecHand} {s : LoadState}

/-- The table of an accepted file is what its header says. -/
theorem Accepted.table (h : Accepted file edata st st') (hfile : ReadsFile file content) {i : Nat}
    (hi : i < (headerRead file).phentsize * (headerRead file).phnum) :
    bytesOf (tableRead file (headerRead file)).1 i
      = bytesOf content ((headerRead file).phoff.toNat + i) := by
  have hread := h.table_read
  have hlen := length_of_read hread
  obtain ⟨hoff, hbyte⟩ := hfile.bytes _ _ (show 0 ≤ (tableRead file (headerRead file)).2 by omega) i
    (by omega)
  have haddr : (s32 (headerRead file).phoff.toNat).toNat = (headerRead file).phoff.toNat := by
    rw [s32_of_nonneg (headerRead file).phoff.toNat_lt hoff, Int.toNat_natCast]
  rw [haddr] at hbyte
  rw [bytesOf, bytesOf, List.getD_eq_getElem?_getD, List.getD_eq_getElem?_getD]
  exact congrArg (Option.getD · 0) hbyte

/-- Where the headers lie where the loader looks for them, it has those that
    the file describes. -/
theorem Accepted.described (h : Accepted file edata st st') (hfile : ReadsFile file content)
    (hfit : StrideFits (headerRead file).phentsize (headerRead file).phnum) :
    elfPhdrs st'.mem edata = describedPhdrs content (headerRead file) := by
  have hrows : (headerRead file).phnum * elf32PhdrSize
      ≤ (headerRead file).phentsize * (headerRead file).phnum := by
    rw [Nat.mul_comm]
    exact Nat.mul_le_mul_right _ hfit.le
  rw [h.phdrs hrows, describedPhdrs]
  apply List.map_congr_left
  intro i hi
  have hi := List.mem_range.mp hi
  -- the two strides agree, or there is one header only
  have hstride : i * elf32PhdrSize = i * (headerRead file).phentsize := by
    rcases hfit with heq | ⟨hone, -⟩
    · rw [heq]
    · obtain rfl : i = 0 := by omega
      rw [Nat.zero_mul, Nat.zero_mul]
  have hrow : (i + 1) * elf32PhdrSize ≤ (headerRead file).phnum * elf32PhdrSize :=
    Nat.mul_le_mul_right _ hi
  apply elf32PhdrOf_congr
  intro k hk
  rw [elf32PhdrSize] at hrow hrows
  rw [h.table hfile (by rw [elf32PhdrSize]; omega), hstride, Nat.add_assoc]

/-- The loader's own bytes are not at the ends of the address space. -/
theorem ElfOpened.own_inside (ho : ElfOpened edata st.heap) (mem : Memory) :
    ∃ x, Own mem edata x ∧ 1 ≤ x.toNat ∧ x.toNat < 2 ^ 32 - 1 := by
  obtain ⟨lo, hi, held, hk, hhi, hmem, -⟩ := ho
  have hbound := (hk.held_bounds hmem).2.2
  rw [execElfDataSize] at hbound
  have hat := @toNat_add_ofNat edata 7 (by omega)
  exact ⟨edata + UInt32.ofNat 7, Or.inl ⟨7, by decide, rfl⟩, by omega, by omega⟩

/-- **The load.**  If the headers lie where the loader looks for them, it
    leaves the image described. -/
theorem elfLoad_image (ho : ElfOpened edata st.heap) (hfile : ReadsFile file content)
    (hprep : elfPrepare file edata exec st = (some 0, exec', st'))
    (hload : elfLoad file edata exec' st' = (some 0, s))
    (hseg : SegmentsOrdinary content edata st'.mem)
    (hfit : StrideFits (elfEhdr st'.mem edata).phentsize (elfEhdr st'.mem edata).phnum) :
    LoadApart file st'.mem edata ∧ BuildsImage content edata st'.mem s := by
  obtain ⟨hacc, -⟩ := elfPrepare_accepted ho hprep
  rw [SegmentsOrdinary, hacc.header] at hseg
  rw [hacc.header] at hfit
  have hsame := hacc.described hfile hfit
  obtain ⟨x, hx, hlo, hhi⟩ := ho.own_inside st'.mem
  have hapart : LoadApart file st'.mem edata := by
    rw [LoadApart, hsame]
    exact fun p hp => (hseg p hp).segmentWrites_apart
  refine ⟨hapart, fun i hi => ?_, ?_⟩
  · rw [hacc.header] at hi ⊢
    calc i * elf32PhdrSize + elf32PhdrSize = elf32PhdrSize * (i + 1) := by rw [Nat.mul_comm]; rfl
      _ ≤ (headerRead file).phentsize * (headerRead file).phnum := Nat.mul_le_mul hfit.le hi
  · obtain ⟨hread, rfl⟩ := (elfLoad_ok hapart).mp hload
    rw [hsame] at hread
    dsimp only
    rw [hsame, hacc.header, describedImage]
    exact applyWrites_segments hfile hread
      (fun p hp => ⟨hseg p hp, (hseg p hp).filesz_lt hx hlo hhi⟩) st'.mem

/-- There is room for the buffers. -/
def TableRoom (heap : Mm.Alloc) (tot : Nat) : Prop :=
  ∃ ehdr heap₁ phdr heap₂, Mm.alloc heap elfHeaderSize 0 = .ret ehdr heap₁ ∧
    Mm.alloc heap₁ tot 0 = .ret phdr heap₂

/-- Not for an empty one. -/
theorem TableRoom.pos {heap : Mm.Alloc} {tot : Nat} (ho : ElfOpened edata heap)
    (h : TableRoom heap tot) : 0 < tot := by
  obtain ⟨ehdr, heap₁, phdr, heap₂, hehdr, hphdr⟩ := h
  exact (@ElfOpened.placed edata ⟨heap, fun _ => 0⟩ ho _ _ _ _ _ hehdr hphdr).pos

/-- There is for the table of an accepted file. -/
theorem elfPrepare_room (ho : ElfOpened edata st.heap)
    (hprep : elfPrepare file edata exec st = (some 0, exec', st')) :
    TableRoom st.heap
      ((elfEhdr st'.mem edata).phentsize * (elfEhdr st'.mem edata).phnum) := by
  obtain ⟨hacc, -⟩ := elfPrepare_accepted ho hprep
  obtain ⟨ehdr, phdr, heap₁, hehdr, hphdr, -⟩ := hacc.placed
  rw [hacc.header]
  exact ⟨ehdr, heap₁, phdr, _, hehdr, hphdr⟩

/-- Every file with this table is loaded as it describes. -/
def LoadsImages (edata : UInt32) (heap : Mm.Alloc) (phentsize phnum : Nat) : Prop :=
  ∀ (file : FileHand) (content : List UInt8) (mem : Memory) (exec exec' : ExecHand)
    (st' : ElfState) (s : LoadState), ReadsFile file content →
    elfPrepare file edata exec ⟨heap, mem⟩ = (some 0, exec', st') →
    (elfEhdr st'.mem edata).phentsize = phentsize → (elfEhdr st'.mem edata).phnum = phnum →
    elfLoad file edata exec' st' = (some 0, s) → SegmentsOrdinary content edata st'.mem →
    BuildsImage content edata st'.mem s

/-- A file with this table that is not. -/
def Misloads (content : List UInt8) (edata : UInt32) (heap : Mm.Alloc) (phentsize phnum : Nat) :
    Prop :=
  ∃ (mem : Memory) (exec' : ExecHand) (st' : ElfState) (s : LoadState),
    elfPrepare (fileOfBytes content) edata ⟨0xFFFFFFFF, 0, 0⟩ ⟨heap, mem⟩ = (some 0, exec', st') ∧
    (elfEhdr st'.mem edata).phentsize = phentsize ∧ (elfEhdr st'.mem edata).phnum = phnum ∧
    elfLoad (fileOfBytes content) edata exec' st' = (some 0, s) ∧
    SegmentsOrdinary content edata st'.mem ∧ ¬ BuildsImage content edata st'.mem s

/-- Small entries are not all in the table. -/
theorem not_inTable {phentsize phnum : Nat} (hsize : phentsize < elf32PhdrSize) (hnum : 0 < phnum) :
    ¬ ∀ i < phnum, i * elf32PhdrSize + elf32PhdrSize ≤ phentsize * phnum := by
  intro hall
  have hlast := hall (phnum - 1) (by omega)
  have hlt : phentsize * phnum < elf32PhdrSize * phnum := Nat.mul_lt_mul_of_pos_right hsize hnum
  rw [← Nat.succ_mul, Nat.succ_eq_add_one, Nat.sub_add_cancel hnum, Nat.mul_comm] at hlast
  omega

/-- A file of given bytes is read as such. -/
theorem fileOfBytes_reads (content : List UInt8) : ReadsFile (fileOfBytes content) content where
  bytes sz off := by
    simp only [fileOfBytes]
    split
    · next hin =>
      intro _ i hi
      rw [List.length_take] at hi
      refine ⟨hin.1, ?_⟩
      rw [List.getElem?_take_of_lt (by omega), List.getElem?_drop]
    · intro hneg
      exact absurd hneg (by decide)
  fails sz off := by
    simp only [fileOfBytes]
    split
    · next hin =>
      intro hneg
      dsimp only at hneg
      omega
    · exact fun _ => rfl

end Load

/-! ## Files with other tables -/

section Table

variable {edata : UInt32} {heap : Mm.Alloc} {phentsize phnum : Nat} {table : Nat → UInt8}

/-- The file with a table of these bytes. -/
def tableFile (version phentsize phnum : Nat) (table : Nat → UInt8) : List UInt8 :=
  elfFileHeader version phentsize phnum ++ (List.range (phentsize * phnum)).map table

/-- The table as it is read. -/
theorem bytesOf_table (hzero : ∀ i, phentsize * phnum ≤ i → table i = 0) (i : Nat) :
    bytesOf ((List.range (phentsize * phnum)).map table) i = table i := by
  rw [bytesOf, List.getD_eq_getElem?_getD, List.getElem?_map]
  rcases Nat.lt_or_ge i (phentsize * phnum) with hlt | hge
  · rw [List.getElem?_range hlt]
    rfl
  · rw [List.getElem?_eq_none (by rwa [List.length_range]), hzero i hge]
    rfl

theorem bytesOf_tableFile {version : Nat} (hzero : ∀ i, phentsize * phnum ≤ i → table i = 0)
    (i : Nat) : bytesOf (tableFile version phentsize phnum table) (64 + i) = table i := by
  have htable := bytesOf_table hzero i
  rw [bytesOf, List.getD_eq_getElem?_getD] at htable
  rw [bytesOf, tableFile, List.getD_eq_getElem?_getD,
    List.getElem?_append_right (by rw [length_elfFileHeader, elfHeaderSize]; omega),
    length_elfFileHeader, elfHeaderSize, Nat.add_sub_cancel_left, htable]

/-- None of the headers described is one of a segment. -/
theorem loadable_tableFile {version : Nat} (hzero : ∀ i, phentsize * phnum ≤ i → table i = 0)
    (hnone : ∀ i < phnum, wordOf table (i * phentsize) ≠ elfPhdrTypeLoad) :
    loadable (describedPhdrs (tableFile version phentsize phnum table)
      ⟨1, 1, 2, 3, 0x100000, 64, phentsize, phnum⟩) = [] := by
  refine List.filter_eq_nil_iff.mpr fun p hp => ?_
  obtain ⟨i, hi, rfl⟩ := List.mem_map.mp hp
  have hword : wordOf (bytesOf (tableFile version phentsize phnum table)) (64 + i * phentsize)
      = wordOf table (i * phentsize) := by
    apply wordOf_congr
    intro k _
    rw [Nat.add_assoc, bytesOf_tableFile hzero]
  rw [decide_eq_true_eq]
  show ¬ wordOf (bytesOf (tableFile version phentsize phnum table)) (64 + i * phentsize) = _
  rw [hword]
  exact hnone i (List.mem_range.mp hi)

/-- A file that describes no segment, and is not loaded so: the headers that
    the loader finds are acceptable, it loads, and it changes memory or looks
    behind the table. -/
theorem tableFile_misloads {version : Nat} (ho : ElfOpened edata heap)
    (hsize : phentsize < 2 ^ 16) (hnum : phnum < 2 ^ 16) (hroom : TableRoom heap (phentsize * phnum))
    (hzero : ∀ i, phentsize * phnum ≤ i → table i = 0)
    (hnone : ∀ i < phnum, wordOf table (i * phentsize) ≠ elfPhdrTypeLoad) (mem : Memory)
    (hload : ∀ ehdr phdr mem', Placed edata ehdr phdr (phentsize * phnum) →
      Buffers (fileOfBytes (tableFile version phentsize phnum table)) edata ehdr phdr
        ⟨1, 1, 2, 3, 0x100000, 64, phentsize, phnum⟩ mem mem' →
      elfPhdrCheck (elfPhdrs mem' edata) = 0 ∧
        ∃ s, elfLoad (fileOfBytes (tableFile version phentsize phnum table)) edata
            ⟨0xFFFFFFFF, 0, 0x100000⟩ ⟨heap, mem'⟩ = (some 0, s) ∧
          ¬ ((∀ i < phnum, i * elf32PhdrSize + elf32PhdrSize ≤ phentsize * phnum) ∧ s.mem = mem')) :
    Misloads (tableFile version phentsize phnum table) edata heap phentsize phnum := by
  obtain ⟨ehdr, heap₁, phdr, heap₂, hehdr, hphdr⟩ := hroom
  have hplaced := @ElfOpened.placed edata ⟨heap, mem⟩ ho _ _ _ _ _ hehdr hphdr
  have htot : phentsize * phnum ≤ ((List.range (phentsize * phnum)).map table).length := by
    rw [List.length_map, List.length_range]
  obtain ⟨mem', hprep, hbuf⟩ := @elfPrepare_elfFile version phentsize phnum _ edata ⟨heap, mem⟩
    heap₁ heap₂ ehdr phdr ho ⟨0xFFFFFFFF, 0, 0⟩ hsize hnum htot hehdr hphdr
    fun mem' hbuf => (hload ehdr phdr mem' hplaced hbuf).1
  obtain ⟨-, s, hs, hnot⟩ := hload ehdr phdr mem' hplaced hbuf
  have hdesc := @loadable_tableFile phentsize phnum table version hzero hnone
  refine ⟨mem, _, _, s, hprep, congrArg ElfHeader.phentsize hbuf.header,
    congrArg ElfHeader.phnum hbuf.header, ?_, ?_, ?_⟩
  · rw [elfLoad_eq] at hs ⊢
    exact hs
  · intro p hp
    dsimp only at hp
    rw [hbuf.header, hdesc] at hp
    exact absurd hp List.not_mem_nil
  · rintro ⟨hin, himage⟩
    dsimp only at hin himage
    rw [hbuf.header] at hin himage
    refine hnot ⟨hin, himage.trans ?_⟩
    rw [describedImage, hdesc, List.foldl_nil]

/-! ### Small entries -/

/-- The bytes of a word that is one. -/
theorem wordOf_one {t : Nat → UInt8} {off : Nat} (h : wordOf t off = 1) :
    t off = 1 ∧ t (off + 1) = 0 ∧ t (off + 2) = 0 ∧ t (off + 3) = 0 := by
  have hlt (b : UInt8) : b.toNat < 256 := b.toNat_lt
  have h0 := hlt (t off)
  have h1 := hlt (t (off + 1))
  have h2 := hlt (t (off + 2))
  have h3 := hlt (t (off + 3))
  have hnat := congrArg UInt32.toNat h
  rw [wordOf, UInt32.toNat_ofNat', Nat.mod_eq_of_lt (by simp [leNat]; omega)] at hnat
  simp only [leNat] at hnat
  have hone : (1 : UInt32).toNat = 1 := rfl
  refine ⟨UInt8.toNat_inj.mp (show (t off).toNat = 1 by omega),
    UInt8.toNat_inj.mp (show (t (off + 1)).toNat = 0 by omega),
    UInt8.toNat_inj.mp (show (t (off + 2)).toNat = 0 by omega),
    UInt8.toNat_inj.mp (show (t (off + 3)).toNat = 0 by omega)⟩

/-- No word of the file header is one. -/
theorem elfFileHeader_word (phentsize phnum : Nat) {j : Nat} (hj : j < 16) :
    wordOf (bytesOf (elfFileHeader 0 phentsize phnum)) (j * 4) ≠ 1 := by
  intro h
  obtain ⟨h0, h1, h2, -⟩ := wordOf_one h
  have hclass : bytesOf (elfFileHeader 0 phentsize phnum) (1 * 4 + 1) = 1 := rfl
  have hshentsize : bytesOf (elfFileHeader 0 phentsize phnum) (11 * 4 + 2) = 40 := rfl
  by_cases h4 : j = 1
  · rw [h4, hclass] at h1
    exact absurd h1 (by decide)
  by_cases h44 : j = 11
  · rw [h44, hshentsize] at h2
    exact absurd h2 (by decide)
  -- the other words do not start with a one
  have hfixed : bytesOf (elfFileHeader 0 phentsize phnum) (j * 4)
      = bytesOf (elfFileHeader 0 0 0) (j * 4) := by
    interval_cases j <;> first | rfl | contradiction
  have hrest : ∀ j < 16, j ≠ 1 → bytesOf (elfFileHeader 0 0 0) (j * 4) ≠ 1 := by decide
  exact hrest j hj h4 (hfixed ▸ h0)

/-- In a memory of zeros no word at a multiple of four is one, behind
    `_elf_prepare`: neither of the pointers is, none of the file header's, and
    the table is empty. -/
theorem wordAt_ne_one {file : FileHand} {ehdr phdr : Nat} {e : ElfHeader} {mem' : Memory}
    (hplaced : Placed edata ehdr phdr (e.phentsize * e.phnum))
    (hbuf : Buffers file edata ehdr phdr e (fun _ => 0) mem')
    (hheader : (file.read elfHeaderSize 0).1 = elfFileHeader 0 phentsize phnum)
    (htable : ∀ i (hi : i < (tableRead file e).1.length), (tableRead file e).1[i] = 0)
    (hlen : (tableRead file e).1.length = e.phentsize * e.phnum)
    {x : UInt32} (hx : x.toNat + 4 ≤ 2 ^ 32) (hdvd : 4 ∣ x.toNat) : wordAt mem' x ≠ 1 := by
  obtain ⟨hedata_le, hehdr_le, hphdr_le, -, -, -, -, hdvd₀, hdvd₁, hdvd₂⟩ := hplaced
  rw [execElfDataSize] at hedata_le
  rw [elfHeaderSize] at hehdr_le
  -- a pointer is a multiple of four
  have hptr : ∀ n, n ≤ 0x100000 → 4 ∣ n → UInt32.ofNat n ≠ 1 := by
    intro n hn h4 hone
    have hnat := congrArg UInt32.toNat hone
    rw [UInt32.toNat_ofNat_of_lt' (show n < 2 ^ 32 by omega)] at hnat
    have hlit : (1 : UInt32).toNat = 1 := rfl
    omega
  by_cases hfirst : x = edata
  · rw [hfirst]
    exact fun h => hptr ehdr (by omega) hdvd₁ (hbuf.ehdrPtr.symm.trans h)
  by_cases hsecond : x = edata + 4
  · rw [hsecond]
    exact fun h => hptr phdr (by omega) hdvd₂ (hbuf.phdrPtr.symm.trans h)
  by_cases hin : ehdr ≤ x.toNat ∧ x.toNat < ehdr + 64
  · -- a word of the file header
    obtain ⟨j, hj⟩ : ∃ j, x.toNat = ehdr + j * 4 := ⟨(x.toNat - ehdr) / 4, by omega⟩
    have hword : wordAt mem' x = wordOf (bytesOf (elfFileHeader 0 phentsize phnum)) (j * 4) := by
      apply wordOf_congr
      intro k hk
      have hlen : j * 4 + k < (file.read elfHeaderSize 0).1.length := by
        rw [hheader, length_elfFileHeader, elfHeaderSize]
        omega
      have hat : x + UInt32.ofNat (0 + k) = UInt32.ofNat ehdr + UInt32.ofNat (j * 4 + k) := by
        rw [← UInt32.toNat_inj, toNat_add_ofNat (by omega), ← UInt32.ofNat_add,
          UInt32.toNat_ofNat_of_lt' (show ehdr + (j * 4 + k) < 2 ^ 32 by omega)]
        omega
      have hbyte := hbuf.headerBytes _ hlen
      rw [bytesFrom] at hbyte ⊢
      rw [hat, hbyte, bytesOf, List.getD_eq_getElem?_getD, ← hheader, List.getElem?_eq_getElem hlen]
      rfl
    rw [hword]
    exact elfFileHeader_word phentsize phnum (by omega)
  · -- any other byte is a zero, of the table or from before
    have hfirst : x.toNat ≠ edata.toNat := fun h => hfirst (UInt32.toNat_inj.mp h)
    have hsecond : x.toNat ≠ edata.toNat + 4 := by
      intro h
      refine hsecond (UInt32.toNat_inj.mp (h.trans ?_))
      exact (@toNat_add_ofNat edata 4 (by omega)).symm
    have hzero : ∀ k < 4, bytesFrom mem' x (0 + k) = 0 := by
      intro k hk
      have hat := @toNat_add_ofNat x (0 + k) (by omega)
      rw [bytesFrom]
      by_cases htab : phdr ≤ x.toNat + k ∧ x.toNat + k < phdr + e.phentsize * e.phnum
      · obtain ⟨i, hi⟩ := Nat.exists_eq_add_of_le htab.1
        have hlt : i < (tableRead file e).1.length := by omega
        have haddr : x + UInt32.ofNat (0 + k) = UInt32.ofNat phdr + UInt32.ofNat i := by
          rw [← UInt32.toNat_inj, hat, ← UInt32.ofNat_add,
            UInt32.toNat_ofNat_of_lt' (show phdr + i < 2 ^ 32 by omega)]
          omega
        rw [haddr]
        exact (hbuf.table i hlt).trans (htable i hlt)
      · rw [hbuf.frame _ (by rw [execElfDataSize]; omega) (by rw [elfHeaderSize]; omega) (by omega)]
    intro hone
    have hbad := (wordOf_one hone).1
    rw [← Nat.add_zero 0, hzero 0 (by omega)] at hbad
    exact absurd hbad (by decide)

theorem wordOf_zero (off : Nat) : wordOf (fun _ => 0) off ≠ elfPhdrTypeLoad := by
  have hword : wordOf (fun _ => 0) off = 0 := rfl
  rw [hword]
  decide

/-- What is read of the table of such a file. -/
theorem tableRead_tableFile {version : Nat} (hsmall : phentsize * phnum < 2 ^ 31) :
    tableRead (fileOfBytes (tableFile version phentsize phnum table))
        ⟨1, 1, 2, 3, 0x100000, 64, phentsize, phnum⟩
      = ((List.range (phentsize * phnum)).map table, ((phentsize * phnum : Nat) : Int)) := by
  have hlen : ((List.range (phentsize * phnum)).map table).length = phentsize * phnum := by
    rw [List.length_map, List.length_range]
  rw [tableFile, tableRead_elfFile (Nat.le_of_eq hlen.symm) hsmall]
  refine Prod.ext (List.take_of_length_le (Nat.le_of_eq hlen)) rfl

/-- With small entries, a header is looked for behind the table. -/
theorem misloads_small (ho : ElfOpened edata heap) (hsize : phentsize < elf32PhdrSize)
    (hnum : phnum < 2 ^ 16) (hpos : 0 < phnum) (hroom : TableRoom heap (phentsize * phnum)) :
    Misloads (tableFile 0 phentsize phnum fun _ => 0) edata heap phentsize phnum := by
  rw [elf32PhdrSize] at hsize
  have hent : phentsize < 2 ^ 16 := by omega
  refine tableFile_misloads ho hent hnum hroom (fun _ _ => rfl)
    (fun i _ => wordOf_zero _) (fun _ => 0) fun ehdr phdr mem' hplaced hbuf => ?_
  have hsmall := hplaced.phdr_le
  have hread := @tableRead_tableFile phentsize phnum (fun _ => 0) 0 (by omega)
  -- no header is found to be one of a segment
  have hnone : loadable (elfPhdrs mem' edata) = [] := by
    refine List.filter_eq_nil_iff.mpr fun p hp => ?_
    obtain ⟨i, hi, rfl⟩ := List.mem_map.mp hp
    rw [hbuf.header] at hi
    have hi : i < phnum := List.mem_range.mp hi
    have hat : (phdrPtr mem' edata i).toNat = phdr + i * 32 := by
      have hptr : (UInt32.ofNat phdr).toNat = phdr :=
        UInt32.toNat_ofNat_of_lt' (show phdr < 2 ^ 32 by omega)
      rw [phdrPtr, hbuf.phdrPtr, toNat_add_ofNat (by rw [elf32PhdrSize]; omega), hptr]
    obtain ⟨-, -, h4⟩ := hplaced.dvd
    rw [decide_eq_true_eq]
    refine wordAt_ne_one hplaced hbuf (congrArg Prod.fst (headerRead_elfFile hent hnum).1) ?_ ?_
      (by omega) (by omega)
    · intro j hj
      simp only [hread, List.getElem_map]
    · rw [hread, List.length_map, List.length_range]
  have hall : ∀ p ∈ loadable (elfPhdrs mem' edata),
      DataAbove (fileOfBytes (tableFile 0 phentsize phnum fun _ => 0)) p ∧ FillAbove p := by
    rw [hnone]
    exact fun p hp => absurd hp List.not_mem_nil
  have hapart : LoadApart (fileOfBytes (tableFile 0 phentsize phnum fun _ => 0)) mem' edata := by
    rw [LoadApart, hnone]
    exact fun p hp => absurd hp List.not_mem_nil
  refine ⟨elfPhdrCheck_eq_zero fun p hp htype => ?_, _, (elfLoad_ok hapart).mpr ⟨?_, rfl⟩, ?_⟩
  · have hload : p ∈ loadable (elfPhdrs mem' edata) :=
      List.mem_filter.mpr ⟨hp, decide_eq_true htype⟩
    rw [hnone] at hload
    exact absurd hload List.not_mem_nil
  · dsimp only
    rw [hnone]
    exact fun p hp => absurd hp List.not_mem_nil
  · exact fun h => not_inTable (by rwa [elf32PhdrSize]) hpos h.1

/-! ### Large entries -/

/-- A table that names a segment where the loader looks for the second header,
    32 bytes behind the first. -/
def strideByte (i : Nat) : UInt8 :=
  if i = 32 then 1 else if i = 42 ∨ i = 46 then 0x20 else if i = 52 then 2 else 0

/-- The segment: two zeros, at 2 MiB. -/
def strideSegment : Elf32Phdr := ⟨1, 0, 0x200000, 0x200000, 0, 2⟩

theorem strideByte_zero {i : Nat} (h : i < 32 ∨ 52 < i) : strideByte i = 0 := by
  rw [strideByte, if_neg (by omega), if_neg (by omega), if_neg (by omega)]

theorem strideByte_one {i : Nat} (h : strideByte i = 1) : i = 32 := by
  by_contra hne
  rw [strideByte, if_neg hne] at h
  split at h
  · exact absurd h (by decide)
  · split at h <;> exact absurd h (by decide)

/-- The loader finds one segment in this table. -/
theorem loadable_strideByte (n : Nat) :
    loadable ((List.range (n + 2)).map fun i => elf32PhdrOf strideByte (i * elf32PhdrSize))
      = [strideSegment] := by
  induction n with
  | zero => decide +kernel
  | succ n ih =>
      have hzero : (elf32PhdrOf strideByte ((n + 2) * elf32PhdrSize)).type = 0 := by
        have hword : wordOf strideByte ((n + 2) * elf32PhdrSize) = wordOf (fun _ => 0) 0 := by
          apply wordOf_congr
          intro k _
          rw [elf32PhdrSize]
          exact strideByte_zero (Or.inr (by omega))
        exact hword
      rw [List.range_succ, List.map_append, loadable, List.filter_append]
      rw [loadable] at ih
      rw [ih, List.map_singleton, List.filter_cons_of_neg (by rw [hzero]; decide), List.filter_nil,
        List.append_nil]

/-- With large entries, bytes are taken for a header that is none. -/
theorem misloads_large (ho : ElfOpened edata heap) (hsize : phentsize < 2 ^ 16)
    (hlarge : elf32PhdrSize < phentsize) (hnum : phnum < 2 ^ 16) (htwo : 2 ≤ phnum)
    (hroom : TableRoom heap (phentsize * phnum)) :
    Misloads (tableFile 1 phentsize phnum strideByte) edata heap phentsize phnum := by
  rw [elf32PhdrSize] at hlarge
  have hmin : 33 * 2 ≤ phentsize * phnum := Nat.mul_le_mul hlarge htwo
  have hzero : ∀ i, phentsize * phnum ≤ i → strideByte i = 0 := fun i hi =>
    strideByte_zero (Or.inr (by omega))
  refine tableFile_misloads ho hsize hnum hroom hzero ?_ (fun _ => 1)
    fun ehdr phdr mem' hplaced hbuf => ?_
  · intro i _ hload
    have hoff := strideByte_one (wordOf_one hload).1
    rcases Nat.eq_zero_or_pos i with rfl | hpos
    · omega
    · have hle : phentsize ≤ i * phentsize := Nat.le_mul_of_pos_left phentsize hpos
      omega
  obtain ⟨hedata_le, hehdr_le, hphdr_le, -⟩ := id hplaced
  have hread := @tableRead_tableFile phentsize phnum strideByte 1 (by omega)
  have hrows : phnum * 32 ≤ phentsize * phnum := by
    rw [Nat.mul_comm]
    exact Nat.mul_le_mul_right _ hlarge.le
  have hone : loadable (elfPhdrs mem' edata) = [strideSegment] := by
    obtain ⟨n, rfl⟩ := Nat.exists_eq_add_of_le' htwo
    rw [← loadable_strideByte n, elfPhdrs, hbuf.header]
    apply congrArg loadable
    apply List.map_congr_left
    intro i hi
    have hrow : (i + 1) * 32 ≤ (n + 2) * 32 := Nat.mul_le_mul_right _ (List.mem_range.mp hi)
    rw [phdrAt_of_buffers hbuf, hread]
    · exact congrArg (elf32PhdrOf · _) (funext (bytesOf_table hzero))
    · rw [hread, List.length_map, List.length_range, elf32PhdrSize]
      omega
  -- everything the loader looks at is below 1 MiB, and the segment is above
  have hbelow : OwnBelow mem' edata := hbuf.ownBelow hplaced <| by
    show phdr + phnum * 32 ≤ 0x100000
    omega
  have hapart : LoadApart (fileOfBytes (tableFile 1 phentsize phnum strideByte)) mem' edata := by
    refine hbelow.loadApart fun p hp => ?_
    rw [hone] at hp
    obtain rfl := List.mem_singleton.mp hp
    exact ⟨fun hz => absurd rfl hz, fun _ => Or.inr (by decide)⟩
  refine ⟨elfPhdrCheck_eq_zero fun p hp htype => ?_, _, (elfLoad_ok hapart).mpr ⟨?_, rfl⟩, ?_⟩
  · have hload : p ∈ loadable (elfPhdrs mem' edata) :=
      List.mem_filter.mpr ⟨hp, decide_eq_true htype⟩
    rw [hone] at hload
    obtain rfl := List.mem_singleton.mp hload
    decide
  · dsimp only
    rw [hone]
    intro p hp hz
    obtain rfl := List.mem_singleton.mp hp
    exact absurd rfl hz
  · rintro ⟨-, hsame⟩
    dsimp only at hsame
    rw [hone] at hsame
    -- a byte of a memory of ones is cleared, which no header says
    have hones := congrFun hsame 0x200000
    have hkept : mem' 0x200000 = 1 := hbuf.frame 0x200000 (Or.inr (hedata_le.trans (by decide)))
      (Or.inr (hehdr_le.trans (by decide))) (Or.inr (hphdr_le.trans (by decide)))
    rw [hkept, List.flatMap_singleton, applyWrites_segmentWrites, if_pos (by decide), segmentData,
      if_neg (by decide), storeBytes_nil] at hones
    have hzero : storeBytes mem' (strideSegment.paddr + strideSegment.filesz)
        (List.replicate (strideSegment.memsz - strideSegment.filesz).toNat 0) 0x200000 = 0 := rfl
    exact absurd (hzero.symm.trans hones) (by decide)

end Table

/-- For every `exec->data` and heap, and every size and number of entries a
    file can name: all such files are loaded as they describe exactly if the
    headers lie where the loader looks for them, or there is no room for such a
    table.  No file with smaller entries is. -/
theorem elfLoad_image_iff (edata : UInt32) (heap : Mm.Alloc) (phentsize phnum : Nat)
    (ho : ElfOpened edata heap) (hsize : phentsize < 2 ^ 16) (hnum : phnum < 2 ^ 16) :
    (LoadsImages edata heap phentsize phnum
        ↔ (TableRoom heap (phentsize * phnum) → StrideFits phentsize phnum)) ∧
      (phentsize < elf32PhdrSize → 0 < phnum →
        ∀ (content : List UInt8) (mem : Memory) (s : LoadState),
          (elfEhdr mem edata).phentsize = phentsize → (elfEhdr mem edata).phnum = phnum →
            ¬ BuildsImage content edata mem s) := by
  refine ⟨⟨fun hall hroom => ?_, fun hfit => ?_⟩, ?_⟩
  · have hfine (content : List UInt8) : ¬ Misloads content edata heap phentsize phnum := by
      rintro ⟨mem, exec', st', s, hprep, hent, hnm, hload, hseg, hnot⟩
      exact hnot (hall _ content mem _ exec' st' s (fileOfBytes_reads content) hprep hent hnm hload
        hseg)
    have hpos : 0 < phnum := Nat.pos_of_ne_zero fun hz => by
      have htot := hroom.pos ho
      rw [hz, Nat.mul_zero] at htot
      exact absurd htot (Nat.lt_irrefl 0)
    rcases Nat.lt_trichotomy phentsize elf32PhdrSize with hlt | heq | hgt
    · exact absurd (misloads_small ho hlt hnum hpos hroom) (hfine _)
    · exact Or.inl heq
    · rcases Nat.lt_or_ge phnum 2 with hone | htwo
      · exact Or.inr ⟨by omega, hgt.le⟩
      · exact absurd (misloads_large ho hsize hgt hnum htwo hroom) (hfine _)
  · intro file content mem exec exec' st' s hfile hprep hent hnm hload hseg
    have hopened : ElfOpened edata (⟨heap, mem⟩ : ElfState).heap := ho
    have hroom := elfPrepare_room hopened hprep
    rw [hent, hnm] at hroom
    exact (elfLoad_image hopened hfile hprep hload hseg (by rw [hent, hnm]; exact hfit hroom)).2
  · intro hlt hpos content mem s hent hnm himage
    apply not_inTable hlt hpos
    intro i hi
    rw [← hent, ← hnm]
    exact himage.inTable i (by rwa [hnm])

/-- Entries of 32 bytes are what the loader looks for. -/
theorem elfLoad_image_iff_32 : LoadsImages 0x10000 openedHeap 32 4 :=
  (elfLoad_image_iff 0x10000 openedHeap 32 4 openedHeap_opened (by decide) (by decide)).1.mpr
    fun _ => Or.inl rfl

/-- The statement without the condition fails: two entries of 40 bytes, neither
    of them a segment, and the loader clears two bytes at 2 MiB. -/
theorem elfLoad_image_stride :
    Misloads (tableFile 1 40 2 strideByte) 0x10000 openedHeap 40 2 ∧
      ¬ ∀ phentsize phnum, LoadsImages 0x10000 openedHeap phentsize phnum := by
  have hroom : TableRoom openedHeap (40 * 2) := by
    refine ⟨_, _, 0x10048, heapOf [⟨true, false, 0x10098, 0x6ff68⟩, ⟨true, false, 0x8404, 0x7bfc⟩,
      ⟨true, true, 0x10000, 8⟩, ⟨true, true, 0x10008, 64⟩, ⟨true, true, 0x10048, 80⟩],
      openedHeap_header, ?_⟩
    decide +kernel
  have hfails := misloads_large openedHeap_opened (by decide) (by decide) (by decide) (by decide)
    hroom
  refine ⟨hfails, fun hall => ?_⟩
  obtain ⟨mem, exec', st', s, hprep, hent, hnm, hload, hseg, hnot⟩ := hfails
  exact hnot (hall 40 2 _ _ mem _ exec' st' s (fileOfBytes_reads _) hprep hent hnm hload hseg)

end LBoot.Exec
