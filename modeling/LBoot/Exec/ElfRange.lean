/-
  LBoot.Exec.ElfRange

  The range of addresses an ELF load records (src/exec/fmt/elf.c).

  A load that returns 0, and writes over none of the bytes it looks at, has
  gone through all loadable segments of the table (`elfLoadPhdr_ok`): what it
  wrote is what each of them stands for, one after the other, and `data_begin`
  and `data_end` have grown over their headers.  The end of a segment is a sum
  of 32 bits, and nothing compares `filesz` with `memsz`.  So what is written
  stays within the range recorded exactly if no end wraps around and no file
  data goes on behind the greatest end (`elfLoad_range_iff`).  Nothing keeps a
  segment off the table either: one that is loaded over the headers behind it
  hides them (`elfLoad_range_short`).
-/

import LBoot.Exec.ElfAbove
import LBoot.Exec.Modules
import Mathlib.Order.Bounds.Basic

namespace LBoot.Exec

open LBoot.Lib

/-- The headers of type PT_LOAD. -/
def loadable (ps : List Elf32Phdr) : List Elf32Phdr := ps.filter fun p => p.type = elfPhdrTypeLoad

/-- The bytes that are read for a segment. -/
def segmentData (file : FileHand) (p : Elf32Phdr) : List UInt8 :=
  if p.filesz ≠ 0 then (segmentRead file p).1 else []

/-- The blocks written for a segment. -/
def segmentWrites (file : FileHand) (p : Elf32Phdr) : List (UInt32 × List UInt8) :=
  (if p.filesz ≠ 0 then [(p.paddr, (segmentRead file p).1)] else []) ++
    if p.filesz < p.memsz then
      [(p.paddr + p.filesz, List.replicate (p.memsz - p.filesz).toNat 0)] else []

/-- What the segments of the table are loaded over is none of the bytes that
    the loader looks at: of `exec_elf_data_t`, of the file header or of the
    table. -/
def LoadApart (file : FileHand) (mem : Memory) (edata : UInt32) : Prop :=
  ∀ p ∈ loadable (elfPhdrs mem edata), ∀ w ∈ segmentWrites file p, Apart mem edata w

/-- Where a segment ends, as a number. -/
def segmentEnd (p : Elf32Phdr) : Nat := p.paddr.toNat + p.memsz.toNat

/-- Every byte written lies in the range recorded. -/
def InRange (s : LoadState) : Prop :=
  ∀ w ∈ s.writes, ∀ i < w.2.length,
    s.exec.dataBegin.toNat ≤ w.1.toNat + i ∧ w.1.toNat + i < s.exec.dataEnd.toNat

/-- The range recorded is that of the segments. -/
structure RangeRecorded (ps : List Elf32Phdr) (s : LoadState) : Prop where
  least : loadable ps ≠ [] →
    IsLeast {a | ∃ p ∈ loadable ps, p.paddr.toNat = a} s.exec.dataBegin.toNat
  greatest : loadable ps ≠ [] →
    IsGreatest {e | ∃ p ∈ loadable ps, segmentEnd p = e} s.exec.dataEnd.toNat
  inside : InRange s
  /-- files placed behind it are placed behind all that was written -/
  behind : ∀ ns, ∀ a ∈ place s.exec.dataEnd.toNat ns, ∀ w ∈ s.writes, ∀ i < w.2.length,
    w.1.toNat + i < a.1

/-- No segment ends at the end of the address space or behind it, and the file
    data of none goes on behind the last end. -/
def RangeFits (file : FileHand) (ps : List Elf32Phdr) : Prop :=
  ∀ p ∈ loadable ps, segmentEnd p < 2 ^ 32 ∧
    ∃ q ∈ loadable ps, p.paddr.toNat + (segmentData file p).length ≤ segmentEnd q

/-! ## A load that returns 0 -/

theorem loadState_fill (file : FileHand) (p : Elf32Phdr) (s : LoadState) :
    ((s.record p).data file p).fill p
      = ⟨elfRecord p s.exec, applyWrites s.mem (segmentWrites file p),
          s.writes ++ segmentWrites file p⟩ := by
  rw [LoadState.fill, LoadState.data, segmentWrites, applyWrites_append]
  split <;> split <;> simp [LoadState.write, LoadState.record, applyWrites]

section Ok

variable {file : FileHand} {mem : Memory} {edata : UInt32} {i k : Nat} {s t : LoadState}

/-- One segment that is loaded elsewhere. -/
theorem elfLoadSegment_apart (hsame : SameOwn mem edata s.mem) (hi : i < (elfEhdr mem edata).phnum)
    {p : Elf32Phdr} (hp : phdrAt mem (phdrPtr mem edata i) = p)
    (hapart : ∀ w ∈ segmentWrites file p, Apart mem edata w) :
    (SegmentRead file p → elfLoadSegment file (phdrPtr mem edata i) s
        = (true, ((s.record p).data file p).fill p) ∧
      SameOwn mem edata (((s.record p).data file p).fill p).mem) ∧
    (¬ SegmentRead file p → (elfLoadSegment file (phdrPtr mem edata i) s).1 = false) := by
  have hnow := (hsame.phdrAt hi).trans hp
  have hrec : SameOwn mem edata (s.record p).mem := hsame
  obtain ⟨hread, hsame'⟩ := elfReadSegment_same hrec hi hp fun hz =>
    hapart _ (List.mem_append_left _ (by rw [if_pos hz]; exact List.mem_singleton_self _))
  obtain ⟨hclear, hsame''⟩ := elfClearSegment_same hsame' hi hp fun hlt =>
    hapart _ (List.mem_append_right _ (by rw [if_pos hlt]; exact List.mem_singleton_self _))
  rw [elfLoadSegment, hnow, hread]
  constructor
  · intro h
    rw [decide_eq_true h]
    exact ⟨congrArg (true, ·) hclear, hsame''⟩
  · intro h
    rw [decide_eq_false h]

/-- Every segment has been read, and the state is what they make of it. -/
theorem elfLoadPhdr_ok (hsame : SameOwn mem edata s.mem) (hk : (elfEhdr mem edata).phnum ≤ i + k)
    (hapart : ∀ p ∈ loadable ((elfPhdrs mem edata).drop i), ∀ w ∈ segmentWrites file p,
      Apart mem edata w) :
    elfLoadPhdr file edata k i s = (0, t) ↔
      (∀ p ∈ loadable ((elfPhdrs mem edata).drop i), SegmentRead file p) ∧
      t = ⟨(loadable ((elfPhdrs mem edata).drop i)).foldl (fun exec p => elfRecord p exec) s.exec,
        applyWrites s.mem ((loadable ((elfPhdrs mem edata).drop i)).flatMap (segmentWrites file)),
        s.writes ++ (loadable ((elfPhdrs mem edata).drop i)).flatMap (segmentWrites file)⟩ := by
  have hnil : ∀ {s : LoadState}, ((0 : Int), s) = (0, t) ↔ (∀ p ∈ loadable [], SegmentRead file p) ∧
      t = ⟨(loadable []).foldl (fun exec p => elfRecord p exec) s.exec,
        applyWrites s.mem ((loadable []).flatMap (segmentWrites file)),
        s.writes ++ (loadable []).flatMap (segmentWrites file)⟩ := by
    intro s
    simp [loadable, applyWrites, eq_comm]
  -- by the rounds left: each leaves the loader's bytes as they are, so that the
  -- next one finds the header that the table has there
  induction k generalizing i s with
  | zero =>
      rw [drop_elfPhdrs_of_le (by omega), elfLoadPhdr]
      exact hnil
  | succ k ih =>
      rw [elfLoadPhdr, hsame.elfEhdr]
      by_cases hi : i < (elfEhdr mem edata).phnum
      · rw [if_pos hi]
        rw [drop_elfPhdrs hi] at hapart ⊢
        dsimp only
        rw [hsame.phdrPtr, hsame.phdrAt hi]
        generalize hp : phdrAt mem (phdrPtr mem edata i) = p at hapart
        by_cases htype : p.type = elfPhdrTypeLoad
        · have hload : loadable (p :: (elfPhdrs mem edata).drop (i + 1))
              = p :: loadable ((elfPhdrs mem edata).drop (i + 1)) :=
            List.filter_cons_of_pos (decide_eq_true htype)
          rw [hload, List.forall_mem_cons] at hapart
          rw [if_pos htype, hload, List.forall_mem_cons]
          obtain ⟨hyes, hno⟩ := elfLoadSegment_apart hsame hi hp hapart.1
          by_cases hread : SegmentRead file p
          · obtain ⟨hseg, hsame'⟩ := hyes hread
            have hnext := ih hsame' (by omega) hapart.2
            rw [hseg]
            refine hnext.trans ?_
            rw [loadState_fill, List.foldl_cons, List.flatMap_cons,
              applyWrites_append, List.append_assoc, and_iff_right hread]
          · -- the loop is left
            have hfail := hno hread
            generalize elfLoadSegment file (phdrPtr mem edata i) s = r at hfail
            obtain ⟨ok, t'⟩ := r
            obtain rfl : ok = false := hfail
            refine iff_of_false (fun h => ?_) fun h => hread h.1.1
            exact absurd (Prod.mk.inj h).1 (by decide)
        · have hload : loadable (p :: (elfPhdrs mem edata).drop (i + 1))
              = loadable ((elfPhdrs mem edata).drop (i + 1)) :=
            List.filter_cons_of_neg (by rwa [decide_eq_true_eq])
          rw [hload] at hapart
          rw [if_neg htype, hload]
          exact ih hsame (by omega) hapart
      · rw [if_neg hi, drop_elfPhdrs_of_le (by omega)]
        exact hnil

/-- `_elf_load` returns 0 if the loop does. -/
theorem elfLoad_eq {exec : ExecHand} {st : ElfState} :
    elfLoad file edata exec st = (some 0, s)
      ↔ elfLoadPhdr file edata (2 ^ 16) 0 ⟨exec, st.mem, []⟩ = (0, s) := by
  rw [elfLoad]
  generalize elfLoadPhdr file edata (2 ^ 16) 0 ⟨exec, st.mem, []⟩ = r
  obtain ⟨ret, t⟩ := r
  dsimp only
  split
  · next hret =>
    refine iff_of_false (fun h => ?_) fun h => hret (Prod.mk.inj h).1
    obtain ⟨_, -, hneg⟩ := Option.map_eq_some_iff.mp (Prod.mk.inj h).1
    exact absurd hneg (by decide)
  · next hret =>
    rw [not_not.mp hret, Prod.mk.injEq, Prod.mk.injEq, and_iff_right rfl, and_iff_right rfl]

/-- Segments above 1 MiB are apart from bytes below. -/
theorem OwnBelow.loadApart (hbelow : OwnBelow mem edata)
    (h : ∀ p ∈ loadable (elfPhdrs mem edata), DataAbove file p ∧ FillAbove p) :
    LoadApart file mem edata := by
  intro p hp w hw
  obtain ⟨hdata, hfill⟩ := h p hp
  rw [segmentWrites, List.mem_append] at hw
  rcases hw with hw | hw
  · split at hw
    · next hz =>
      obtain rfl := List.mem_singleton.mp hw
      exact (hdata hz).apart hbelow
        (Nat.le_trans (file.read_le _ _) (Nat.le_of_lt p.filesz.toNat_lt))
    · exact absurd hw List.not_mem_nil
  · split at hw
    · next hlt =>
      obtain rfl := List.mem_singleton.mp hw
      exact hfill.apart hbelow hlt
    · exact absurd hw List.not_mem_nil

/-- **A load that returns 0** and is apart from what the loader looks at. -/
theorem elfLoad_ok {exec : ExecHand} {st : ElfState} (hapart : LoadApart file st.mem edata) :
    elfLoad file edata exec st = (some 0, s) ↔
      (∀ p ∈ loadable (elfPhdrs st.mem edata), SegmentRead file p) ∧
      s = ⟨(loadable (elfPhdrs st.mem edata)).foldl (fun exec p => elfRecord p exec) exec,
        applyWrites st.mem ((loadable (elfPhdrs st.mem edata)).flatMap (segmentWrites file)),
        (loadable (elfPhdrs st.mem edata)).flatMap (segmentWrites file)⟩ := by
  have hnum : (elfEhdr st.mem edata).phnum < 2 ^ 16 := leField_lt _ 44 2
  have hok := @elfLoadPhdr_ok file st.mem edata 0 (2 ^ 16) ⟨exec, st.mem, []⟩ s (fun x _ => rfl)
    (by omega) hapart
  rw [elfLoad_eq, hok]
  exact Iff.rfl

end Ok

/-! ## The range -/

theorem elfRecord_dataBegin (p : Elf32Phdr) (exec : ExecHand) :
    (elfRecord p exec).dataBegin.toNat = min p.paddr.toNat exec.dataBegin.toNat := by
  have heq : (elfRecord p exec).dataBegin
      = if p.paddr < exec.dataBegin then p.paddr else exec.dataBegin := by
    rw [elfRecord]
    split <;> split <;> rfl
  rw [heq]
  split
  · next hlt => rw [UInt32.lt_iff_toNat_lt] at hlt; omega
  · next hge => rw [UInt32.lt_iff_toNat_lt] at hge; omega

theorem elfRecord_dataEnd (p : Elf32Phdr) (exec : ExecHand) :
    (elfRecord p exec).dataEnd.toNat = max (segmentEnd p % 2 ^ 32) exec.dataEnd.toNat := by
  have hsum : (p.paddr + p.memsz).toNat = segmentEnd p % 2 ^ 32 := UInt32.toNat_add _ _
  have heq : (elfRecord p exec).dataEnd
      = if exec.dataEnd < p.paddr + p.memsz then p.paddr + p.memsz else exec.dataEnd := by
    rw [elfRecord]
    split <;> split <;> rfl
  rw [heq, ← hsum]
  split
  · next hlt => rw [UInt32.lt_iff_toNat_lt] at hlt; omega
  · next hge => rw [UInt32.lt_iff_toNat_lt] at hge; omega

/-- `data_begin` is the least `paddr`, or what it was before. -/
theorem foldl_elfRecord_dataBegin (ps : List Elf32Phdr) (exec : ExecHand) :
    IsLeast {a | a = exec.dataBegin.toNat ∨ ∃ p ∈ ps, p.paddr.toNat = a}
      (ps.foldl (fun exec p => elfRecord p exec) exec).dataBegin.toNat := by
  induction ps generalizing exec with
  | nil =>
      refine ⟨Or.inl rfl, ?_⟩
      rintro a (rfl | ⟨p, hp, -⟩)
      · exact Nat.le_refl _
      · exact absurd hp List.not_mem_nil
  | cons p ps ih =>
      -- the rest starts with the lesser of this `paddr` and what was before
      obtain ⟨hmem, hleast⟩ := ih (elfRecord p exec)
      rw [elfRecord_dataBegin] at hmem hleast
      have hfirst := hleast (Or.inl rfl)
      rw [List.foldl_cons]
      constructor
      · rcases hmem with heq | ⟨q, hq, heq⟩
        · rcases Nat.le_total p.paddr.toNat exec.dataBegin.toNat with hle | hle
          · exact Or.inr ⟨p, List.mem_cons_self, by omega⟩
          · exact Or.inl (by omega)
        · exact Or.inr ⟨q, List.mem_cons_of_mem p hq, heq⟩
      · rintro a (rfl | ⟨q, hq, rfl⟩)
        · omega
        · rcases List.mem_cons.mp hq with rfl | hq
          · omega
          · exact hleast (Or.inr ⟨q, hq, rfl⟩)

/-- `data_end` is the greatest end of a segment as it is computed, or what it
    was before. -/
theorem foldl_elfRecord_dataEnd (ps : List Elf32Phdr) (exec : ExecHand) :
    IsGreatest {e | e = exec.dataEnd.toNat ∨ ∃ p ∈ ps, segmentEnd p % 2 ^ 32 = e}
      (ps.foldl (fun exec p => elfRecord p exec) exec).dataEnd.toNat := by
  induction ps generalizing exec with
  | nil =>
      refine ⟨Or.inl rfl, ?_⟩
      rintro a (rfl | ⟨p, hp, -⟩)
      · exact Nat.le_refl _
      · exact absurd hp List.not_mem_nil
  | cons p ps ih =>
      obtain ⟨hmem, hgreatest⟩ := ih (elfRecord p exec)
      rw [elfRecord_dataEnd] at hmem hgreatest
      have hfirst := hgreatest (Or.inl rfl)
      rw [List.foldl_cons]
      constructor
      · rcases hmem with heq | ⟨q, hq, heq⟩
        · rcases Nat.le_total (segmentEnd p % 2 ^ 32) exec.dataEnd.toNat with hle | hle
          · exact Or.inl (by omega)
          · exact Or.inr ⟨p, List.mem_cons_self, by omega⟩
        · exact Or.inr ⟨q, List.mem_cons_of_mem p hq, heq⟩
      · rintro a (rfl | ⟨q, hq, rfl⟩)
        · omega
        · rcases List.mem_cons.mp hq with rfl | hq
          · omega
          · exact hgreatest (Or.inr ⟨q, hq, rfl⟩)

section Load

variable {file : FileHand} {edata : UInt32} {st : ElfState} {ps : List Elf32Phdr} {s : LoadState}

/-- What a load from `exec_elf_init` on leaves behind. -/
structure Loaded (file : FileHand) (ps : List Elf32Phdr) (s : LoadState) : Prop where
  writes : s.writes = (loadable ps).flatMap (segmentWrites file)
  least : IsLeast {a | a = 0xFFFFFFFF ∨ ∃ p ∈ loadable ps, p.paddr.toNat = a} s.exec.dataBegin.toNat
  greatest : IsGreatest {e | e = 0 ∨ ∃ p ∈ loadable ps, segmentEnd p % 2 ^ 32 = e}
    s.exec.dataEnd.toNat

theorem elfLoad_loaded {exec : ExecHand} (hbegin : exec.dataBegin = 0xFFFFFFFF)
    (hend : exec.dataEnd = 0) (hapart : LoadApart file st.mem edata)
    (h : elfLoad file edata exec st = (some 0, s)) : Loaded file (elfPhdrs st.mem edata) s := by
  obtain ⟨-, rfl⟩ := (elfLoad_ok hapart).mp h
  have hleast := foldl_elfRecord_dataBegin (loadable (elfPhdrs st.mem edata)) exec
  have hgreatest := foldl_elfRecord_dataEnd (loadable (elfPhdrs st.mem edata)) exec
  rw [hbegin] at hleast
  rw [hend] at hgreatest
  exact ⟨rfl, hleast, hgreatest⟩

/-- A byte written for a segment: one of its file data, or of its zero fill. -/
theorem mem_segmentWrites {p : Elf32Phdr} {w : UInt32 × List UInt8} {i : Nat}
    (hfits : segmentEnd p < 2 ^ 32) (hw : w ∈ segmentWrites file p) (hi : i < w.2.length) :
    p.paddr.toNat ≤ w.1.toNat + i ∧
      (w.1.toNat + i < p.paddr.toNat + (segmentData file p).length ∨
        w.1.toNat + i < segmentEnd p) := by
  rw [segmentEnd] at hfits ⊢
  rw [segmentWrites, List.mem_append] at hw
  rcases hw with hw | hw
  · split at hw
    · next hz =>
        obtain rfl := List.mem_singleton.mp hw
        rw [segmentData, if_pos hz]
        dsimp only at hi ⊢
        omega
    · exact absurd hw List.not_mem_nil
  · split at hw
    · next hlt =>
        obtain rfl := List.mem_singleton.mp hw
        rw [List.length_replicate] at hi
        rw [UInt32.lt_iff_toNat_lt] at hlt
        -- the fill starts behind the file data and goes on to the end of the segment
        have hsub := UInt32.toNat_sub_of_le p.memsz p.filesz (UInt32.le_iff_toNat_le.mpr hlt.le)
        have hadd := UInt32.toNat_add p.paddr p.filesz
        rw [Nat.mod_eq_of_lt (by omega)] at hadd
        dsimp only at hi ⊢
        omega
    · exact absurd hw List.not_mem_nil

/-- A range that is recorded tells that no segment reaches the end of the
    address space, and no file data goes on behind the last end. -/
theorem RangeRecorded.fits (h : Loaded file ps s) (hrange : RangeRecorded ps s) :
    RangeFits file ps := by
  intro p hp
  have hne := List.ne_nil_of_mem hp
  obtain ⟨⟨q, hq, hqe⟩, hmax⟩ := hrange.greatest hne
  have hlt := s.exec.dataEnd.toNat_lt
  have hpe := hmax ⟨p, hp, rfl⟩
  refine ⟨by omega, ?_⟩
  -- the last byte read for the segment
  rcases Nat.eq_zero_or_pos (segmentData file p).length with hzero | hpos
  · exact ⟨p, hp, by rw [hzero, segmentEnd]; omega⟩
  · have hz : p.filesz ≠ 0 := by
      intro hz
      rw [segmentData, if_neg (not_not.mpr hz)] at hpos
      exact absurd hpos (Nat.lt_irrefl 0)
    have hdata : segmentData file p = (segmentRead file p).1 := if_pos hz
    have hw : (p.paddr, (segmentRead file p).1) ∈ s.writes := by
      rw [h.writes]
      refine List.mem_flatMap.mpr ⟨p, hp, List.mem_append_left _ ?_⟩
      rw [if_pos hz]
      exact List.mem_singleton_self _
    rw [hdata] at hpos ⊢
    have hin := hrange.inside _ hw _ (Nat.sub_one_lt_of_lt hpos)
    dsimp only at hin
    exact ⟨q, hq, by omega⟩

/-- Where that is so, the bytes written stay within the range, and the range
    is that of the segments. -/
theorem RangeFits.recorded (h : Loaded file ps s) (hfits : RangeFits file ps) :
    RangeRecorded ps s := by
  obtain ⟨hwrites, hleast, hgreatest⟩ := h
  have hmod : ∀ p ∈ loadable ps, segmentEnd p % 2 ^ 32 = segmentEnd p := fun p hp =>
    Nat.mod_eq_of_lt (hfits p hp).1
  -- no sum of 32 bits has come around, so the end recorded is the greatest
  have hmax : ∀ p ∈ loadable ps, segmentEnd p ≤ s.exec.dataEnd.toNat := by
    intro p hp
    have hle := hgreatest.2 (Or.inr ⟨p, hp, rfl⟩)
    rwa [hmod p hp] at hle
  have hin : InRange s := by
    intro w hw i hi
    rw [hwrites] at hw
    obtain ⟨p, hp, hw⟩ := List.mem_flatMap.mp hw
    obtain ⟨hlt, q, hq, hdata⟩ := hfits p hp
    obtain ⟨hlo, hhi⟩ := mem_segmentWrites hlt hw hi
    have hmin := hleast.2 (Or.inr ⟨p, hp, rfl⟩)
    have hpe := hmax p hp
    have hqe := hmax q hq
    omega
  refine ⟨fun hne => ⟨?_, fun a ha => hleast.2 (Or.inr ha)⟩,
    fun hne => ⟨?_, ?_⟩, hin, fun ns a ha w hw i hi => ?_⟩
  · rcases hleast.1 with heq | hmem
    · -- no `paddr` is greater than the value from before
      obtain ⟨p, hp⟩ := List.exists_mem_of_ne_nil _ hne
      have hle := hleast.2 (Or.inr ⟨p, hp, rfl⟩)
      have hlt := p.paddr.toNat_lt
      exact ⟨p, hp, by omega⟩
    · exact hmem
  · rcases hgreatest.1 with heq | ⟨p, hp, hpe⟩
    · obtain ⟨p, hp⟩ := List.exists_mem_of_ne_nil _ hne
      have hle := hmax p hp
      exact ⟨p, hp, by omega⟩
    · exact ⟨p, hp, by rw [← hpe, hmod p hp]⟩
  · rintro e ⟨p, hp, rfl⟩
    exact hmax p hp
  · have habove := place_above a ha
    have hbelow := (hin w hw i hi).2
    omega

end Load

/-- For every file that `_elf_prepare` accepts and `_elf_load` loads without
    writing over what the loader looks at: the range recorded is that of the
    segments, with every byte written inside it and everything placed behind it
    apart, exactly if no segment reaches the end of the address space and no
    file data goes on behind the last end. -/
theorem elfLoad_range_iff (file : FileHand) (edata : UInt32) (exec exec' : ExecHand)
    (st₀ st st' : ElfState) (s : LoadState) (hinit : execElfInit st₀ = some (edata, exec, st))
    (hprep : elfPrepare file edata exec st = (some 0, exec', st'))
    (hload : elfLoad file edata exec' st' = (some 0, s))
    (hapart : LoadApart file st'.mem edata) :
    RangeRecorded (elfPhdrs st'.mem edata) s ↔ RangeFits file (elfPhdrs st'.mem edata) := by
  obtain ⟨hbegin, hend⟩ : exec.dataBegin = 0xFFFFFFFF ∧ exec.dataEnd = 0 := by
    rw [execElfInit] at hinit
    split at hinit
    · cases hinit
      exact ⟨rfl, rfl⟩
    · cases hinit
  obtain ⟨_, -, -, -, -, rfl⟩ := elfPrepare_eq.mp hprep
  have hloaded := @elfLoad_loaded file edata st' s
    { exec with entrypoint := (elfEhdr st'.mem edata).entry } hbegin hend hapart hload
  exact ⟨fun hrange => hrange.fits hloaded, fun hfits => hfits.recorded hloaded⟩

/-- A segment of four bytes in the file and `memsz` in memory, at 1 MiB. -/
def fourBytes (memsz : UInt32) : Elf32Phdr := ⟨1, 96, 0x100000, 0x100000, 4, memsz⟩

/-- A file with this segment, loaded at boot. -/
theorem fourBytes_load (memsz : UInt32) (hmemsz : memsz = 2 ∨ memsz = 8) : ∃ st' s,
    elfPrepare (fileOfBytes (elfFile [fourBytes memsz] [1, 2, 3, 4])) 0x10000
        ⟨0xFFFFFFFF, 0, 0⟩ ⟨openedHeap, storeBytes (fun _ => 0) 0x10000
          (List.replicate execElfDataSize 0)⟩ = (some 0, ⟨0xFFFFFFFF, 0, 0x100000⟩, st') ∧
      elfPhdrs st'.mem 0x10000 = [fourBytes memsz] ∧
      elfLoad (fileOfBytes (elfFile [fourBytes memsz] [1, 2, 3, 4])) 0x10000
        ⟨0xFFFFFFFF, 0, 0x100000⟩ st' = (some 0, s) ∧
      LoadApart (fileOfBytes (elfFile [fourBytes memsz] [1, 2, 3, 4])) st'.mem 0x10000 := by
  obtain ⟨st', hprep, hphdrs, hbelow⟩ := elfPrepare_one (fourBytes memsz)
    (fun _ => UInt32.le_refl _) [1, 2, 3, 4] ⟨0xFFFFFFFF, 0, 0⟩
    (storeBytes (fun _ => 0) 0x10000 (List.replicate execElfDataSize 0))
  have hall : ∀ p ∈ loadable (elfPhdrs st'.mem 0x10000),
      SegmentRead (fileOfBytes (elfFile [fourBytes memsz] [1, 2, 3, 4])) p ∧
        DataAbove (fileOfBytes (elfFile [fourBytes memsz] [1, 2, 3, 4])) p ∧ FillAbove p := by
    rw [hphdrs]
    rcases hmemsz with rfl | rfl <;> decide +kernel
  have hapart := hbelow.loadApart fun p hp => (hall p hp).2
  exact ⟨st', _, hprep, hphdrs, (elfLoad_ok hapart).mpr ⟨fun p hp => (hall p hp).1, rfl⟩, hapart⟩

/-- With room for its file data, a segment is within the range. -/
theorem elfLoad_range_iff_eight : ∃ st' s,
    elfLoad (fileOfBytes (elfFile [fourBytes 8] [1, 2, 3, 4])) 0x10000
        ⟨0xFFFFFFFF, 0, 0x100000⟩ st' = (some 0, s) ∧ RangeRecorded [fourBytes 8] s := by
  obtain ⟨st', s, hprep, hphdrs, hload, hapart⟩ := fourBytes_load 8 (Or.inr rfl)
  refine ⟨st', s, hload, ?_⟩
  rw [← hphdrs]
  refine (elfLoad_range_iff _ _ _ _ _ _ _ _ (execElfInit_bootHeap fun _ => 0) hprep hload
    hapart).mpr ?_
  rw [hphdrs]
  intro p hp
  obtain rfl := List.mem_singleton.mp hp
  exact ⟨by decide, _, hp, by decide +kernel⟩

/-- Two headers: the first segment is where the second header is in memory. -/
def hidingPhdrs : List Elf32Phdr :=
  [⟨1, 0, 0x100000, 0x10068, 0, 32⟩, ⟨1, 0, 0x200000, 0x200000, 0, 8⟩]

/-- A file with them, prepared at boot. -/
def hidingPrepared : Option Int × ExecHand × ElfState :=
  elfPrepare (fileOfBytes (elfFile hidingPhdrs [])) 0x10000 ⟨0xFFFFFFFF, 0, 0⟩
    ⟨openedHeap, storeBytes (fun _ => 0) 0x10000 (List.replicate execElfDataSize 0)⟩

/-- And loaded. -/
def hidingLoaded : Option Int × LoadState :=
  elfLoad (fileOfBytes (elfFile hidingPhdrs [])) 0x10000 hidingPrepared.2.1 hidingPrepared.2.2

/-- The unconditional statement fails: four bytes are read to where two are
    recorded.  And a segment that is written over the table hides the headers
    behind it, though each ends in the range. -/
theorem elfLoad_range_short :
    (¬ ∀ (file : FileHand) (edata : UInt32) (exec exec' : ExecHand) (st₀ st st' : ElfState)
      (s : LoadState), execElfInit st₀ = some (edata, exec, st) →
        elfPrepare file edata exec st = (some 0, exec', st') →
        elfLoad file edata exec' st' = (some 0, s) → LoadApart file st'.mem edata →
        RangeRecorded (elfPhdrs st'.mem edata) s) ∧
    hidingPrepared.1 = some 0 ∧ elfPhdrs hidingPrepared.2.2.mem 0x10000 = hidingPhdrs ∧
    hidingLoaded.1 = some 0 ∧ RangeFits (fileOfBytes (elfFile hidingPhdrs [])) hidingPhdrs ∧
    ¬ RangeRecorded hidingPhdrs hidingLoaded.2 := by
  refine ⟨fun hall => ?_, by decide +kernel, by decide +kernel, by decide +kernel, ?_, fun h => ?_⟩
  · obtain ⟨st', s, hprep, hphdrs, hload, hapart⟩ := fourBytes_load 2 (Or.inl rfl)
    have hrange := hall _ _ _ _ _ _ _ s (execElfInit_bootHeap fun _ => 0) hprep hload hapart
    have hfits := hrange.fits (elfLoad_loaded rfl rfl hapart hload)
    rw [hphdrs] at hfits
    obtain ⟨-, q, hq, hle⟩ := hfits (fourBytes 2) (by decide)
    obtain rfl := List.mem_singleton.mp hq
    revert hle
    decide +kernel
  · intro p hp
    refine ⟨?_, p, hp, ?_⟩
    · revert p
      decide
    · revert p
      decide +kernel
  · -- the second segment is not recorded
    have hend : hidingLoaded.2.exec.dataEnd = 0x10088 := by decide +kernel
    have hlast := (h.greatest (by decide)).2 ⟨_, List.mem_of_mem_tail List.mem_cons_self, rfl⟩
    rw [hend] at hlast
    revert hlast
    decide

end LBoot.Exec
