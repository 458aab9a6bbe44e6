/-
  LBoot.Exec.ElfAbove

  Where the bytes of an ELF load go (src/exec/fmt/elf.c).

  The check is made on `vaddr` and the load goes to `paddr`, another field of
  the same header, which nothing checks (`elfLoad_below_mib`).  What is
  written stays above 1 MiB exactly if every segment the loader reaches has
  its `paddr` there and ends before the address space does
  (`elfLoad_above_mib_iff`).  The headers it reaches are those of the table as
  it was read: a segment that is written over the table is written below 1 MiB.
-/

import LBoot.Exec.ElfPrepare

namespace LBoot.Exec

open LBoot.Lib

/-- Every byte written so far has an address of 1 MiB or more. -/
def AboveMib (s : LoadState) : Prop :=
  ∀ w ∈ s.writes, ∀ i < w.2.length, 0x100000 ≤ w.1 + UInt32.ofNat i

/-- A block of `n` bytes at `a` lies between 1 MiB and the end of the address
    space. -/
def FitsAbove (a : UInt32) (n : Nat) : Prop := n = 0 ∨ 0x100000 ≤ a ∧ a.toNat + n ≤ 2 ^ 32

instance (a : UInt32) (n : Nat) : Decidable (FitsAbove a n) :=
  inferInstanceAs (Decidable (_ ∨ _))

/-- The bytes that are read for a segment lie above 1 MiB. -/
def DataAbove (file : FileHand) (p : Elf32Phdr) : Prop :=
  p.filesz ≠ 0 → FitsAbove p.paddr (segmentRead file p).1.length

/-- The zero fill of a segment does. -/
def FillAbove (p : Elf32Phdr) : Prop :=
  p.filesz < p.memsz → FitsAbove (p.paddr + p.filesz) (p.memsz - p.filesz).toNat

/-- Both do for every loadable segment the loader reaches, the headers being
    those of the table. -/
def SegmentsAbove (file : FileHand) : List Elf32Phdr → Prop
  | [] => True
  | p :: ps =>
      if p.type = elfPhdrTypeLoad then
        DataAbove file p ∧ (SegmentRead file p → FillAbove p ∧ SegmentsAbove file ps)
      else SegmentsAbove file ps

/-- Both do for every loadable segment the loader reaches, each header being
    what is found when it is looked at. -/
def FoundAbove (file : FileHand) (edata : UInt32) : Nat → Nat → LoadState → Prop
  | 0, _, _ => True
  | k + 1, i, s =>
      i < (elfEhdr s.mem edata).phnum →
        let phdr := phdrPtr s.mem edata i
        if (phdrAt s.mem phdr).type = elfPhdrTypeLoad then
          DataAbove file (phdrAt s.mem phdr) ∧
            ∀ s', elfReadSegment file phdr (s.record (phdrAt s.mem phdr)) = (true, s') →
              FillAbove (phdrAt s'.mem phdr) ∧
                FoundAbove file edata k (i + 1) (elfClearSegment phdr s')
        else FoundAbove file edata k (i + 1) s

instance (file : FileHand) (p : Elf32Phdr) : Decidable (DataAbove file p) :=
  inferInstanceAs (Decidable (_ → _))

instance (p : Elf32Phdr) : Decidable (FillAbove p) := inferInstanceAs (Decidable (_ → _))

instance decidableSegmentsAbove (file : FileHand) :
    ∀ ps : List Elf32Phdr, Decidable (SegmentsAbove file ps)
  | [] => isTrue trivial
  | p :: ps =>
      have := decidableSegmentsAbove file ps
      inferInstanceAs (Decidable (if p.type = elfPhdrTypeLoad then
        DataAbove file p ∧ (SegmentRead file p → FillAbove p ∧ SegmentsAbove file ps)
      else SegmentsAbove file ps))

/-- A block that wraps passes through address zero. -/
theorem fitsAbove_iff {a : UInt32} {n : Nat} (hn : n ≤ 2 ^ 32) :
    (∀ i < n, 0x100000 ≤ a + UInt32.ofNat i) ↔ FitsAbove a n := by
  have ha := a.toNat_lt
  have hat : ∀ i, i < n → (a + UInt32.ofNat i).toNat = (a.toNat + i) % 2 ^ 32 := by
    intro i hi
    rw [UInt32.toNat_add, UInt32.toNat_ofNat', Nat.add_mod_mod]
  constructor
  · intro h
    by_cases hz : n = 0
    · exact Or.inl hz
    · right
      have hlo := h 0 (by omega)
      refine ⟨by simpa using hlo, ?_⟩
      -- otherwise one of the bytes would be at address zero
      by_contra hwrap
      have hzero := h (2 ^ 32 - a.toNat) (by omega)
      rw [UInt32.le_iff_toNat_le, hat _ (by omega), Nat.add_sub_cancel' (by omega),
        Nat.mod_self] at hzero
      exact absurd hzero (by decide)
  · rintro (rfl | ⟨hlo, hhi⟩) i hi
    · exact absurd hi (Nat.not_lt_zero i)
    · rw [UInt32.le_iff_toNat_le] at hlo ⊢
      rw [hat i hi, Nat.mod_eq_of_lt (by omega)]
      omega

theorem aboveMib_write {s : LoadState} {a : UInt32} {bs : List UInt8}
    (hbs : bs.length ≤ 2 ^ 32) :
    AboveMib (s.write a bs) ↔ AboveMib s ∧ FitsAbove a bs.length := by
  rw [← fitsAbove_iff hbs]
  simp only [AboveMib, LoadState.write, List.mem_append, List.mem_singleton]
  constructor
  · intro h
    exact ⟨fun w hw => h w (Or.inl hw), h (a, bs) (Or.inr rfl)⟩
  · rintro ⟨hold, hnew⟩ w (hw | rfl)
    · exact hold w hw
    · exact hnew

theorem elfReadSegment_aboveMib (file : FileHand) (phdr : UInt32) (s : LoadState) :
    AboveMib (elfReadSegment file phdr s).2 ↔ AboveMib s ∧ DataAbove file (phdrAt s.mem phdr) := by
  have hlen : (segmentRead file (phdrAt s.mem phdr)).1.length ≤ 2 ^ 32 :=
    Nat.le_trans (file.read_le _ _) (Nat.le_of_lt (phdrAt s.mem phdr).filesz.toNat_lt)
  rw [elfReadSegment, DataAbove]
  split
  · next hz =>
    rw [aboveMib_write hlen]
    exact and_congr_right fun _ => ⟨fun h _ => h, fun h => h hz⟩
  · next hz => exact ⟨fun h => ⟨h, fun hne => absurd hne hz⟩, And.left⟩

theorem elfClearSegment_aboveMib (phdr : UInt32) (s : LoadState) :
    AboveMib (elfClearSegment phdr s) ↔ AboveMib s ∧ FillAbove (phdrAt s.mem phdr) := by
  have hmax := ((phdrAt s.mem phdr).memsz - (phdrAt s.mem phdr).filesz).toNat_lt
  rw [elfClearSegment, FillAbove]
  split
  · next hlt =>
    rw [aboveMib_write (by rw [List.length_replicate]; omega), List.length_replicate]
    exact and_congr_right fun _ => ⟨fun h _ => h, fun h => h hlt⟩
  · next hge => exact ⟨fun h => ⟨h, fun hlt => absurd hlt hge⟩, And.left⟩

/-- The loop: every segment it reaches stays above 1 MiB, or some byte does
    not. -/
theorem elfLoadPhdr_aboveMib (file : FileHand) (edata : UInt32) (k i : Nat) (s : LoadState) :
    AboveMib (elfLoadPhdr file edata k i s).2 ↔ AboveMib s ∧ FoundAbove file edata k i s := by
  -- by the rounds left; the state of a round is what the one before has written
  induction k generalizing i s with
  | zero => exact ⟨fun h => ⟨h, trivial⟩, And.left⟩
  | succ k ih =>
      rw [elfLoadPhdr, FoundAbove]
      by_cases hi : i < (elfEhdr s.mem edata).phnum
      · rw [if_pos hi, forall_prop_of_true hi]
        dsimp only
        split
        · have hread := elfReadSegment_aboveMib file (phdrPtr s.mem edata i)
            (s.record (phdrAt s.mem (phdrPtr s.mem edata i)))
          rw [elfLoadSegment]
          generalize elfReadSegment file (phdrPtr s.mem edata i)
            (s.record (phdrAt s.mem (phdrPtr s.mem edata i))) = r at hread
          obtain ⟨ok, t⟩ := r
          have hsame : AboveMib (s.record (phdrAt s.mem (phdrPtr s.mem edata i))) ↔ AboveMib s :=
            Iff.rfl
          rw [hsame] at hread
          cases ok with
          | false =>
              -- the read has failed, and the loop is left
              refine hread.trans (and_congr_right fun _ => ⟨fun h => ⟨h, ?_⟩, And.left⟩)
              intro s' hs'
              cases (Prod.mk.inj hs').1
          | true =>
              have hclear := elfClearSegment_aboveMib (phdrPtr s.mem edata i) t
              dsimp only at hread ⊢
              rw [ih, hclear, hread, and_assoc, and_assoc]
              refine and_congr_right fun _ => and_congr_right fun _ => ⟨?_, fun h => h t rfl⟩
              rintro h s' hs'
              obtain rfl := (Prod.mk.inj hs').2
              exact h
        · exact ih (i + 1) s
      · rw [if_neg hi]
        exact ⟨fun h => ⟨h, fun hlt => absurd hlt hi⟩, And.left⟩

/-! ## The table as it was read -/

section Below

variable {file : FileHand} {mem : Memory} {edata : UInt32} {i k : Nat} {s : LoadState}

/-- A block above 1 MiB is apart from what lies below. -/
theorem FitsAbove.apart (hbelow : OwnBelow mem edata) {a : UInt32} {bs : List UInt8}
    (hlen : bs.length ≤ 2 ^ 32) (h : FitsAbove a bs.length) : Apart mem edata (a, bs) := by
  intro j hj hown
  exact absurd (hbelow _ hown) (UInt32.not_lt.mpr ((fitsAbove_iff hlen).mpr h j hj))

theorem FillAbove.apart (hbelow : OwnBelow mem edata) {p : Elf32Phdr} (h : FillAbove p)
    (hlt : p.filesz < p.memsz) :
    Apart mem edata (p.paddr + p.filesz, List.replicate (p.memsz - p.filesz).toNat 0) := by
  have hlen := List.length_replicate (n := (p.memsz - p.filesz).toNat) (a := (0 : UInt8))
  have hmax := (p.memsz - p.filesz).toNat_lt
  refine FitsAbove.apart hbelow (by rw [hlen]; omega) ?_
  rw [hlen]
  exact h hlt

/-- As long as nothing is written below 1 MiB the loop finds the headers of
    the table; with the first block that goes there both sides are false. -/
theorem foundAbove_iff (hbelow : OwnBelow mem edata) (hsame : SameOwn mem edata s.mem)
    (hk : (elfEhdr mem edata).phnum ≤ i + k) :
    FoundAbove file edata k i s ↔ SegmentsAbove file ((elfPhdrs mem edata).drop i) := by
  induction k generalizing i s with
  | zero =>
      rw [drop_elfPhdrs_of_le (by omega)]
      exact Iff.rfl
  | succ k ih =>
      rw [FoundAbove, hsame.elfEhdr]
      by_cases hi : i < (elfEhdr mem edata).phnum
      · rw [forall_prop_of_true hi, drop_elfPhdrs hi, SegmentsAbove]
        dsimp only
        rw [hsame.phdrPtr, hsame.phdrAt hi]
        generalize hp : phdrAt mem (phdrPtr mem edata i) = p
        split
        · refine and_congr_right fun hdata => ?_
          have hlen : (segmentRead file p).1.length ≤ 2 ^ 32 :=
            Nat.le_trans (file.read_le _ _) (Nat.le_of_lt p.filesz.toNat_lt)
          have hrec : SameOwn mem edata (s.record p).mem := hsame
          obtain ⟨hread, hsame'⟩ := elfReadSegment_same hrec hi hp fun hz =>
            (hdata hz).apart hbelow hlen
          have hp' := (hsame'.phdrAt hi).trans hp
          -- behind a fill that stays above, the headers are still those of the table
          have hnext : FillAbove p → (FoundAbove file edata k (i + 1)
              (elfClearSegment (phdrPtr mem edata i) ((s.record p).data file p))
                ↔ SegmentsAbove file ((elfPhdrs mem edata).drop (i + 1))) := by
            intro hfill
            obtain ⟨hclear, hsame''⟩ := elfClearSegment_same hsame' hi hp (hfill.apart hbelow)
            rw [hclear]
            exact ih hsame'' (by omega)
          rw [hread]
          constructor
          · intro h hok
            have hthen := h _ (congrArg (·, _) (decide_eq_true hok))
            rw [hp'] at hthen
            exact ⟨hthen.1, (hnext hthen.1).mp hthen.2⟩
          · rintro h s' hs'
            obtain ⟨hok, rfl⟩ := Prod.mk.inj hs'
            obtain ⟨hfill, hrest⟩ := h (of_decide_eq_true hok)
            rw [hp']
            exact ⟨hfill, (hnext hfill).mpr hrest⟩
        · exact ih hsame (by omega)
      · rw [drop_elfPhdrs_of_le (by omega)]
        exact iff_of_true (fun hlt => absurd hlt hi) trivial

/-- The whole load, by what the loop finds. -/
theorem elfLoad_aboveMib (file : FileHand) (edata : UInt32) (exec : ExecHand) (st : ElfState) :
    AboveMib (elfLoad file edata exec st).2
      ↔ FoundAbove file edata (2 ^ 16) 0 ⟨exec, st.mem, []⟩ := by
  have hloop := elfLoadPhdr_aboveMib file edata (2 ^ 16) 0 ⟨exec, st.mem, []⟩
  rw [and_iff_right (show AboveMib ⟨exec, st.mem, []⟩ from fun w hw => absurd hw List.not_mem_nil)]
    at hloop
  rw [← hloop, elfLoad]
  generalize elfLoadPhdr file edata (2 ^ 16) 0 ⟨exec, st.mem, []⟩ = r
  obtain ⟨ret, s⟩ := r
  dsimp only
  split <;> exact Iff.rfl

/-- And by the headers of the table. -/
theorem elfLoad_aboveMib_below (file : FileHand) (exec : ExecHand) {st : ElfState}
    (hbelow : OwnBelow st.mem edata) :
    AboveMib (elfLoad file edata exec st).2 ↔ SegmentsAbove file (elfPhdrs st.mem edata) := by
  have hnum : (elfEhdr st.mem edata).phnum < 2 ^ 16 := leField_lt _ 44 2
  have hiff := @foundAbove_iff file st.mem edata 0 (2 ^ 16) ⟨exec, st.mem, []⟩ hbelow
    (fun x _ => rfl) (by omega)
  rwa [elfLoad_aboveMib]

end Below

/-- For every file that `_elf_prepare` accepts: all bytes written by the load
    have addresses of 1 MiB or more if and only if every loadable segment the
    loader reaches lies there with the bytes written for it.  The headers are
    those of the table, if the allocator has memory below 1 MiB and the headers
    looked at do not go on above it, as they do only if the entries of the
    table are too small for a header and are many. -/
theorem elfLoad_above_mib_iff (file : FileHand) (edata : UInt32) (exec exec' : ExecHand)
    (st st' : ElfState) (h : elfPrepare file edata exec st = (some 0, exec', st')) :
    (AboveMib (elfLoad file edata exec' st').2
      ↔ FoundAbove file edata (2 ^ 16) 0 ⟨exec', st'.mem, []⟩) ∧
    (ElfOpened edata st.heap →
      elf32PhdrSize ≤ (elfEhdr st'.mem edata).phentsize ∨ (edataPhdr st'.mem edata).toNat
        + (elfEhdr st'.mem edata).phnum * elf32PhdrSize ≤ 0x100000 →
      (AboveMib (elfLoad file edata exec' st').2
        ↔ SegmentsAbove file (elfPhdrs st'.mem edata))) := by
  refine ⟨elfLoad_aboveMib file edata exec' st', fun ho hrow => ?_⟩
  have hacc := (elfPrepare_accepted ho h).1
  rw [hacc.header] at hrow
  exact elfLoad_aboveMib_below file exec' (hacc.ownBelow ho hrow)

/-- A segment with four bytes in the file and eight in memory. -/
def fourSegment (vaddr paddr : UInt32) : Elf32Phdr := ⟨1, 96, vaddr, paddr, 4, 8⟩

/-- The theorem on a segment linked and loaded at 1 MiB. -/
theorem elfLoad_above_mib_iff_low : ∃ st',
    elfPrepare (fileOfBytes (elfFile [fourSegment 0x100000 0x100000] [1, 2, 3, 4])) 0x10000
        ⟨0xFFFFFFFF, 0, 0⟩ ⟨openedHeap, fun _ => 0⟩ = (some 0, ⟨0xFFFFFFFF, 0, 0x100000⟩, st') ∧
      AboveMib (elfLoad (fileOfBytes (elfFile [fourSegment 0x100000 0x100000] [1, 2, 3, 4]))
        0x10000 ⟨0xFFFFFFFF, 0, 0x100000⟩ st').2 := by
  obtain ⟨st', hprep, hphdrs, -⟩ := elfPrepare_one (fourSegment 0x100000 0x100000)
    (fun _ => UInt32.le_refl _) [1, 2, 3, 4] ⟨0xFFFFFFFF, 0, 0⟩ fun _ => 0
  have hacc := (elfPrepare_accepted openedHeap_opened hprep).1
  refine ⟨st', hprep, ?_⟩
  refine ((elfLoad_above_mib_iff _ _ _ _ _ _ hprep).2 openedHeap_opened (Or.inl ?_)).mpr ?_
  · rw [hacc.header]
    decide +kernel
  · rw [hphdrs]
    decide +kernel

/-- The unconditional statement fails: a segment linked high in virtual memory
    is loaded over the boot sector. -/
theorem elfLoad_below_mib :
    ¬ ∀ (file : FileHand) (edata : UInt32) (exec exec' : ExecHand) (st st' : ElfState),
      elfPrepare file edata exec st = (some 0, exec', st') →
        AboveMib (elfLoad file edata exec' st').2 := by
  intro hall
  obtain ⟨st', hprep, hphdrs, hbelow⟩ := elfPrepare_one (fourSegment 0xC0100000 0x7C00)
    (fun _ => by decide) [1, 2, 3, 4] ⟨0xFFFFFFFF, 0, 0⟩ fun _ => 0
  have habove := hall _ _ _ _ _ _ hprep
  rw [elfLoad_aboveMib_below _ _ hbelow, hphdrs] at habove
  revert habove
  decide +kernel

end LBoot.Exec
