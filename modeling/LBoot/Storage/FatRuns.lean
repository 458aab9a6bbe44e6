/-
  LBoot.Storage.FatRuns

  Runs of calls of the FAT12 driver (src/storage/fs/fat.c, src/storage/fs/fs.c).

  Searches and reads share a cache of FAT sectors, and scratch buffers that
  `alloc` does not clear.  On a device that answers the same read alike each
  time, a call with a coherent cache does what it does with any other
  (`fatFileRead_alike`, `fatFsFind_alike`).  So a run of calls returns what
  each of them returns alone, whatever came before it and whichever of its
  reads fail (`fsRun_alone`).
-/

import LBoot.Storage.FatDirs
import LBoot.Storage.FsResolve
import Mathlib.Data.Set.Function

namespace LBoot.Storage

open LBoot.Lib

variable {ι κ : Type*}

/-! ## Buffers -/

/-- Memories that differ in their first `n` cells only. -/
abbrev AgreeOutside (n : Nat) (m m' : Int → UInt8) : Prop :=
  Set.EqOn m m' {x | x < 0 ∨ (n : Int) ≤ x}

namespace AgreeOutside

variable {n : Nat} {m m' : Int → UInt8}

/-- A block at the start changes these cells only. -/
theorem store {bs : List UInt8} (hlen : bs.length ≤ n) : AgreeOutside n (storeAt m 0 bs) m := by
  rintro x (hx | hx)
  · exact storeAt_of_outside (Or.inl hx)
  · exact storeAt_of_outside (Or.inr (by omega))

/-- Behind a block that fills them, the memories are the same. -/
theorem storeAt_eq (h : AgreeOutside n m m') {bs : List UInt8} (hlen : bs.length = n) :
    storeAt m 0 bs = storeAt m' 0 bs := by
  funext x
  by_cases hx : x < 0 ∨ (n : Int) ≤ x
  · have hout : x < 0 ∨ 0 + (bs.length : Int) ≤ x := by omega
    rw [storeAt_of_outside hout, storeAt_of_outside hout]
    exact h hx
  · obtain ⟨i, rfl⟩ := Int.eq_ofNat_of_zero_le (by omega : 0 ≤ x)
    have hi : i < bs.length := by omega
    have hin (m : Int → UInt8) : storeAt m 0 bs i = bs[i] := by
      have hcell := storeAt_of_inside (m := m) (a := 0) hi
      rwa [Int.zero_add] at hcell
    rw [hin, hin]

end AgreeOutside

/-- The device writes no more bytes than it is asked for. -/
def BlocksFit (img : StorageImage) : Prop := ∀ off n, (img off n).1.length ≤ n

/-! ## Lookups -/

section Lookup

variable {S : StorageHand ι} {img : StorageImage} {fd : FatData}

/-- A lookup leaves the scratch buffer alone behind its first cluster. -/
theorem fatFetch_tmp (hS : Answers S img) (hfits : BlocksFit img) (s : FatState ι) (a : Int) :
    AgreeOutside fd.clusterSize (fatFetch S fd s a).2.tmp s.tmp := by
  rw [fatFetch, fatTryCache]
  cases fatCacheFind s.cache a with
  | some i => exact .store (Nat.le_of_eq (length_loadAt _ _ _))
  | none =>
      cases hread : S.read s.dev a fd.clusterSize with
      | mk res dev =>
          have hlen := hfits a fd.clusterSize
          rw [← hS s.dev a fd.clusterSize, hread] at hlen
          simp only [hread]
          split <;> exact .store hlen

theorem fatReadFatData_tmp (hS : Answers S img) (hfits : BlocksFit img) (s : FatState ι) (off : Int)
    (sz : Nat) : AgreeOutside fd.clusterSize (fatReadFatData S fd s off sz).2.tmp s.tmp := by
  have hfetch : AgreeOutside fd.clusterSize
      (fatFetch S fd s (off - off.tmod fd.sectorSize)).2.tmp s.tmp :=
    fatFetch_tmp hS hfits s _
  rw [fatReadFatData]
  generalize fatFetch S fd s (off - off.tmod fd.sectorSize) = r at hfetch
  obtain ⟨ok, t⟩ := r
  cases ok <;> exact hfetch

theorem fatGetFatEntry_tmp (hS : Answers S img) (hfits : BlocksFit img) (s : FatState ι) (n : Nat) :
    AgreeOutside fd.clusterSize (fatGetFatEntry S fd s n).2.tmp s.tmp := by
  rw [fatGetFatEntry]
  generalize s32 (fd.fatOffset + (u32 (n * 3) / 2 : Nat)) = off
  by_cases hsplit : off.tmod fd.clusterSize = fd.clusterSize - 1
  · simp only [if_pos hsplit]
    exact (fatReadFatData_tmp hS hfits _ _ _).trans (fatReadFatData_tmp hS hfits _ _ _)
  · simp only [if_neg hsplit]
    exact fatReadFatData_tmp hS hfits _ _ _

theorem fatGetNextCluster_tmp (hS : Answers S img) (hfits : BlocksFit img) (s : FatState ι)
    (c : Int) : AgreeOutside fd.clusterSize (fatGetNextCluster S fd s c).2.tmp s.tmp := by
  rw [fatGetNextCluster]
  split
  · split
    · exact Set.eqOn_refl _ _
    · split <;> exact Set.eqOn_refl _ _
  · dsimp only
    split <;> exact fatGetFatEntry_tmp hS hfits _ _

end Lookup

/-! ## Reads -/

/-- A state of the driver with a coherent cache; `mem` is what lies around its
    scratch buffer. -/
structure Ready (img : StorageImage) (fd : FatData) (mem : Int → UInt8) (s : FatState ι) :
    Prop where
  cache : Coherent img fd s.cache
  tmp : AgreeOutside fd.clusterSize s.tmp mem

/-- Two such states, which a call cannot tell apart. -/
structure Alike (img : StorageImage) (fd : FatData) (mem : Int → UInt8) (s : FatState ι)
    (t : FatState κ) : Prop where
  left : Ready img fd mem s
  right : Ready img fd mem t

section Read

variable {S : StorageHand ι} {T : StorageHand κ} {img : StorageImage} {fd : FatData}
  {mem : Int → UInt8} {s : FatState ι} {t : FatState κ}

/-- Two devices whose reads are those of an image. -/
structure OnImage (S : StorageHand ι) (T : StorageHand κ) (img : StorageImage) : Prop where
  left : Answers S img
  right : Answers T img
  whole : WholeBlocks img
  fit : BlocksFit img

theorem fatGetNextCluster_alike (hST : OnImage S T img) (hfd : DirLayout fd)
    (h : Alike img fd mem s t) {c : Int} (hc : DirStart fd c) :
    (fatGetNextCluster S fd s c).1 = (fatGetNextCluster T fd t c).1 ∧
      DirStart fd (fatGetNextCluster S fd s c).1 ∧
      Alike img fd mem (fatGetNextCluster S fd s c).2 (fatGetNextCluster T fd t c).2 := by
  obtain ⟨hval, hleft⟩ :=
    fatGetNextCluster_same hST.left hST.right hST.whole hfd h.left.cache h.right.cache hc
  obtain ⟨-, hright⟩ :=
    fatGetNextCluster_same hST.right hST.left hST.whole hfd h.right.cache h.left.cache hc
  exact ⟨hval, (fatGetNextCluster_links S hfd s).dirStart hfd,
    ⟨hleft, (fatGetNextCluster_tmp hST.left hST.fit s c).trans h.left.tmp⟩,
    ⟨hright, (fatGetNextCluster_tmp hST.right hST.fit t c).trans h.right.tmp⟩⟩

/-- The first loop. -/
theorem fatSkip_alike (hST : OnImage S T img) (hfd : DirLayout fd) {fuel : Nat} :
    ∀ {s : FatState ι} {t : FatState κ} {c off : Int}, Alike img fd mem s t → DirStart fd c →
      (fatSkip S fd fuel s c off).1 = (fatSkip T fd fuel t c off).1 ∧
      (∀ d o, (fatSkip S fd fuel s c off).1 = .ok (d, o) → DirStart fd d) ∧
      Alike img fd mem (fatSkip S fd fuel s c off).2 (fatSkip T fd fuel t c off).2 := by
  have hstart {c off d o : Int} (hc : DirStart fd c)
      (heq : (Except.ok (c, off) : Except FatRet (Int × Int)) = .ok (d, o)) : DirStart fd d := by
    obtain ⟨rfl, -⟩ := Prod.mk.inj (Except.ok.inj heq)
    exact hc
  have herror {e : FatRet} {d o : Int}
      (heq : (Except.error e : Except FatRet (Int × Int)) = .ok (d, o)) : DirStart fd d := by
    cases heq
  induction fuel with
  | zero =>
      intro s t c off h hc
      rw [fatSkip, fatSkip]
      split
      · exact ⟨rfl, fun d o => herror, h⟩
      · exact ⟨rfl, fun d o => hstart hc, h⟩
  | succ fuel ih =>
      intro s t c off h hc
      rw [fatSkip, fatSkip]
      split
      · obtain ⟨hval, hnext, halike⟩ := fatGetNextCluster_alike hST hfd h hc
        generalize fatGetNextCluster S fd s c = r at hval hnext halike
        generalize fatGetNextCluster T fd t c = r' at hval halike
        obtain ⟨e, s'⟩ := r
        obtain ⟨e', t'⟩ := r'
        obtain rfl : e = e' := hval
        dsimp only
        split
        · exact ⟨rfl, fun d o => herror, halike⟩
        · exact ih halike hnext
      · exact ⟨rfl, fun d o => hstart hc, h⟩

/-- A cluster that is read. -/
theorem read_alike (hST : OnImage S T img) (h : Alike img fd mem s t) (c : Int) :
    ∃ bytes ret dev dev', S.read s.dev c fd.clusterSize = ((bytes, ret), dev) ∧
      T.read t.dev c fd.clusterSize = ((bytes, ret), dev') ∧
      Alike img fd mem ⟨dev, s.cache, storeAt s.tmp 0 bytes⟩ ⟨dev', t.cache, storeAt t.tmp 0 bytes⟩ ∧
      (ret = fd.clusterSize → storeAt s.tmp 0 bytes = storeAt t.tmp 0 bytes) := by
  cases hread : S.read s.dev c fd.clusterSize with
  | mk res dev =>
      cases hread' : T.read t.dev c fd.clusterSize with
      | mk res' dev' =>
          have hleft := hST.left s.dev c fd.clusterSize
          have hright := hST.right t.dev c fd.clusterSize
          rw [hread] at hleft
          rw [hread', ← hleft] at hright
          obtain rfl : res' = res := hright
          obtain ⟨bytes, ret⟩ := res'
          have hfit := hST.fit c fd.clusterSize
          rw [← hleft] at hfit
          refine ⟨bytes, ret, dev, dev', rfl, rfl,
            ⟨⟨h.left.cache, (AgreeOutside.store hfit).trans h.left.tmp⟩,
              ⟨h.right.cache, (AgreeOutside.store hfit).trans h.right.tmp⟩⟩, fun hret => ?_⟩
          have htmp : AgreeOutside fd.clusterSize s.tmp t.tmp := h.left.tmp.trans h.right.tmp.symm
          rw [hret] at hleft
          exact htmp.storeAt_eq (hST.whole _ _ _ hleft.symm)

/-- The second loop. -/
theorem fatCopy_alike (hST : OnImage S T img) (hfd : DirLayout fd) {sz fuel : Nat} :
    ∀ {s : FatState ι} {t : FatState κ} {buf : Int → UInt8} {c off : Int} {pos : Nat},
      Alike img fd mem s t → DirStart fd c →
      (fatCopy S fd sz fuel s buf c off pos).1 = (fatCopy T fd sz fuel t buf c off pos).1 ∧
      (fatCopy S fd sz fuel s buf c off pos).2.1 = (fatCopy T fd sz fuel t buf c off pos).2.1 ∧
      Alike img fd mem (fatCopy S fd sz fuel s buf c off pos).2.2
        (fatCopy T fd sz fuel t buf c off pos).2.2 := by
  induction fuel with
  | zero => exact fun h _ => ⟨rfl, rfl, h⟩
  | succ fuel ih =>
      intro s t buf c off pos h hc
      rw [fatCopy, fatCopy]
      split
      · obtain ⟨bytes, ret, dev, dev', hread, hread', halike, htmp⟩ := read_alike hST h c
        rw [hread, hread']
        dsimp only
        by_cases hret : ret = fd.clusterSize
        · -- a whole cluster fills all that the two buffers differ in
          rw [if_neg (not_not.mpr hret), if_neg (not_not.mpr hret)]
          have htmp := htmp hret
          rw [htmp] at halike ⊢
          split
          · exact ih halike hc
          · obtain ⟨hval, hnext, hafter⟩ := fatGetNextCluster_alike hST hfd halike hc
            generalize fatGetNextCluster S fd _ c = r at hval hnext hafter
            generalize fatGetNextCluster T fd _ c = r' at hval hafter
            obtain ⟨e, s'⟩ := r
            obtain ⟨e', t'⟩ := r'
            obtain rfl : e = e' := hval
            dsimp only
            split
            · exact ⟨rfl, rfl, hafter⟩
            · exact ih hafter hnext
        · rw [if_pos hret, if_pos hret]
          exact ⟨rfl, rfl, halike⟩
      · exact ⟨rfl, rfl, h⟩

/-- A read does the same in both states. -/
theorem fatFileRead_alike (hST : OnImage S T img) (hfd : DirLayout fd) (h : Alike img fd mem s t)
    {file : FatFile} (hfile : DirStart fd file.firstCluster) (buf : Int → UInt8) (sz : Nat)
    (off : Int) :
    (fatFileRead S fd file s buf sz off).1 = (fatFileRead T fd file t buf sz off).1 ∧
      (fatFileRead S fd file s buf sz off).2.1 = (fatFileRead T fd file t buf sz off).2.1 ∧
      Alike img fd mem (fatFileRead S fd file s buf sz off).2.2
        (fatFileRead T fd file t buf sz off).2.2 := by
  rw [fatFileRead, fatFileRead]
  split
  · exact ⟨rfl, rfl, h⟩
  · have hskip := @fatSkip_alike _ _ S T img fd mem hST hfd off.toNat s t file.firstCluster off
    obtain ⟨hval, hstart, halike⟩ := hskip h hfile
    generalize fatSkip S fd off.toNat s file.firstCluster off = r at hval hstart halike
    generalize fatSkip T fd off.toNat t file.firstCluster off = r' at hval halike
    obtain ⟨res, s'⟩ := r
    obtain ⟨res', t'⟩ := r'
    obtain rfl : res = res' := hval
    cases res with
    | error e => exact ⟨rfl, rfl, halike⟩
    | ok place => exact fatCopy_alike hST hfd halike (hstart _ _ rfl)

end Read

/-! ## Searches -/

/-- A state of a search; `dmem` is what lies around its buffer. -/
structure SearchReady (img : StorageImage) (fd : FatData) (mem dmem : Int → UInt8)
    (s : FatSearch ι) : Prop where
  lookup : Ready img fd mem s.lookup
  dirents : AgreeOutside fd.clusterSize s.dirents dmem

structure SearchAlike (img : StorageImage) (fd : FatData) (mem dmem : Int → UInt8)
    (s : FatSearch ι) (t : FatSearch κ) : Prop where
  left : SearchReady img fd mem dmem s
  right : SearchReady img fd mem dmem t

theorem SearchAlike.lookup {img : StorageImage} {fd : FatData} {mem dmem : Int → UInt8}
    {s : FatSearch ι} {t : FatSearch κ} (h : SearchAlike img fd mem dmem s t) :
    Alike img fd mem s.lookup t.lookup :=
  ⟨h.left.lookup, h.right.lookup⟩

/-- A handle with a place to start, as the driver hands them out. -/
def Starts (fd : FatData) (file : FatFile) : Prop := DirStart fd file.firstCluster

section Find

variable {S : StorageHand ι} {T : StorageHand κ} {img : StorageImage} {fd : FatData}
  {mem dmem : Int → UInt8} {s : FatSearch ι} {t : FatSearch κ}

theorem fatScanDirents_starts (hfd : DirLayout fd) {fuel : Nat} {dirents : Int → UInt8}
    {name : List UInt8} {f : FatFile} {is : List Nat}
    (h : fatScanDirents fuel fd dirents name is = .ok f) : Starts fd f := by
  induction is with
  | nil => cases h
  | cons i is ih =>
      rw [fatScanDirents] at h
      cases hcmp : fatStrcmp fuel (fun k => dirents (i * sizeofFatDirent + k : Nat)) name with
      | none =>
          rw [hcmp] at h
          cases h
      | some r =>
          rw [hcmp] at h
          dsimp only at h
          split at h
          · obtain rfl := FindRet.ok.inj h
            exact hfd.start_popFile dirents i
          · exact ih h

theorem fatSkip_zero (hcs : 0 < fd.clusterSize) (s : FatState ι) (c : Int) :
    fatSkip S fd (0 : Int).toNat s c 0 = (.ok (c, 0), s) := by
  rw [Int.toNat_zero, fatSkip, if_neg (by omega)]

/-- The first read of a search fills its buffer. -/
theorem fatFileRead_first (hST : OnImage S T img) (hfd : DirLayout fd) (h : SearchAlike img fd mem dmem s t)
    (dir : FatFile) :
    (fatFileRead S fd dir s.lookup s.dirents fd.clusterSize 0).1
        = (fatFileRead T fd dir t.lookup t.dirents fd.clusterSize 0).1 ∧
      SearchAlike img fd mem dmem ⟨(fatFileRead S fd dir s.lookup s.dirents fd.clusterSize 0).2.2,
          (fatFileRead S fd dir s.lookup s.dirents fd.clusterSize 0).2.1⟩
        ⟨(fatFileRead T fd dir t.lookup t.dirents fd.clusterSize 0).2.2,
          (fatFileRead T fd dir t.lookup t.dirents fd.clusterSize 0).2.1⟩ ∧
      ((fatFileRead S fd dir s.lookup s.dirents fd.clusterSize 0).1 = .ret fd.clusterSize →
        (fatFileRead S fd dir s.lookup s.dirents fd.clusterSize 0).2.1
          = (fatFileRead T fd dir t.lookup t.dirents fd.clusterSize 0).2.1) := by
  have hcs := hfd.cluster_pos
  rw [fatFileRead, fatFileRead]
  split
  · exact ⟨rfl, h, fun hret => by cases hret⟩
  · rw [fatSkip_zero hcs, fatSkip_zero hcs]
    dsimp only
    obtain ⟨bytes, ret, dev, dev', hread, hread', halike, htmp⟩ :=
      read_alike hST h.lookup dir.firstCluster
    rw [fatCopy_cluster hcs hfd.cluster_lt s.dirents _ hread,
      fatCopy_cluster hcs hfd.cluster_lt t.dirents _ hread']
    by_cases hret : ret = fd.clusterSize
    · rw [if_neg (not_not.mpr hret), if_neg (not_not.mpr hret), htmp hret]
      have hlen := length_loadAt (storeAt t.lookup.tmp 0 bytes) 0 fd.clusterSize
      have hdirents : AgreeOutside fd.clusterSize s.dirents t.dirents :=
        h.left.dirents.trans h.right.dirents.symm
      have hkeeps := (AgreeOutside.store (Nat.le_of_eq hlen)).trans h.right.dirents
      rw [htmp hret] at halike
      dsimp only
      rw [hdirents.storeAt_eq hlen]
      exact ⟨rfl, ⟨⟨halike.left, hkeeps⟩, ⟨halike.right, hkeeps⟩⟩, fun _ => rfl⟩
    · rw [if_pos hret, if_pos hret]
      refine ⟨rfl, ⟨⟨halike.left, h.left.dirents⟩, ⟨halike.right, h.right.dirents⟩⟩,
        fun hret' => ?_⟩
      have hneg := FatRet.ret.inj hret'
      omega

/-- A read of a cluster's size stores to the first cluster of the buffer only,
    wherever it starts. -/
theorem fatFileRead_frame (hfd : DirLayout fd) (S : StorageHand ι) (file : FatFile)
    (s : FatState ι) (buf : Int → UInt8) (off : Int) :
    AgreeOutside fd.clusterSize (fatFileRead S fd file s buf fd.clusterSize off).2.1 buf := by
  have hcs := hfd.cluster_pos
  have hlt := hfd.cluster_lt
  obtain ⟨n, hn⟩ : ∃ n, fd.clusterSize = n + 1 := ⟨fd.clusterSize - 1, by omega⟩
  have hnext : u32 (0 + fd.clusterSize) = fd.clusterSize := by rw [u32_of_lt] <;> omega
  rw [fatFileRead]
  split
  · exact Set.eqOn_refl _ _
  · generalize fatSkip S fd off.toNat s file.firstCluster off = r
    obtain ⟨res, t⟩ := r
    cases res with
    | error e => exact Set.eqOn_refl _ _
    | ok place =>
        obtain ⟨c, o⟩ := place
        dsimp only
        conv in fatCopy _ _ _ fd.clusterSize _ _ _ _ _ => rw [hn, fatCopy, ← hn]
        rw [if_pos hcs]
        cases S.read t.dev c fd.clusterSize with
        | mk res dev =>
            obtain ⟨bytes, ret⟩ := res
            dsimp only
            rw [hnext]
            split
            · exact Set.eqOn_refl _ _
            · split
              · rw [fatCopy_done (Nat.le_refl _)]
                exact .store (Nat.le_of_eq (length_loadAt _ _ _))
              · next hshort =>
                  have hlen : (loadAt (storeAt t.tmp 0 bytes) 0
                      (toU32 ((fd.clusterSize : Int) - o))).length ≤ fd.clusterSize := by
                    rw [length_loadAt]
                    omega
                  split
                  · exact .store hlen
                  · rw [fatCopy_done (Nat.le_refl _)]
                    exact .store hlen

/-- The loop of a search, from its start or with the same buffer. -/
theorem fatFsFindLoop_alike (hST : OnImage S T img) (hfd : DirLayout fd) {dir : FatFile}
    (hdir : Starts fd dir) (name : List UInt8) {fuel : Nat} :
    ∀ {s : FatSearch ι} {t : FatSearch κ} {pos : Int}, SearchAlike img fd mem dmem s t →
      (pos = 0 ∨ s.dirents = t.dirents) →
      (fatFsFindLoop S fd dir name fuel s pos).1 = (fatFsFindLoop T fd dir name fuel t pos).1 ∧
      (∀ f, (fatFsFindLoop S fd dir name fuel s pos).1 = .ok f → Starts fd f) ∧
      SearchAlike img fd mem dmem (fatFsFindLoop S fd dir name fuel s pos).2
        (fatFsFindLoop T fd dir name fuel t pos).2 := by
  induction fuel with
  | zero => exact fun h _ => ⟨rfl, fun f hf => (by cases hf), h⟩
  | succ fuel ih =>
      intro s t pos h hpos
      -- in either case the buffers are the same once a cluster has been read
      obtain ⟨hret, hafter, hsame⟩ :
          (fatFileRead S fd dir s.lookup s.dirents fd.clusterSize pos).1
              = (fatFileRead T fd dir t.lookup t.dirents fd.clusterSize pos).1 ∧
            SearchAlike img fd mem dmem ⟨(fatFileRead S fd dir s.lookup s.dirents fd.clusterSize pos).2.2,
                (fatFileRead S fd dir s.lookup s.dirents fd.clusterSize pos).2.1⟩
              ⟨(fatFileRead T fd dir t.lookup t.dirents fd.clusterSize pos).2.2,
                (fatFileRead T fd dir t.lookup t.dirents fd.clusterSize pos).2.1⟩ ∧
            ((fatFileRead S fd dir s.lookup s.dirents fd.clusterSize pos).1
                = .ret fd.clusterSize →
              (fatFileRead S fd dir s.lookup s.dirents fd.clusterSize pos).2.1
                = (fatFileRead T fd dir t.lookup t.dirents fd.clusterSize pos).2.1) := by
        rcases hpos with rfl | hdirents
        · exact fatFileRead_first hST hfd h dir
        · obtain ⟨hval, hbuf, halike⟩ := fatFileRead_alike hST hfd h.lookup hdir s.dirents
            fd.clusterSize pos
          have hkeeps := (fatFileRead_frame hfd S dir s.lookup s.dirents pos).trans h.left.dirents
          rw [← hdirents]
          exact ⟨hval, ⟨⟨halike.left, hkeeps⟩, ⟨halike.right, hbuf ▸ hkeeps⟩⟩, fun _ => hbuf⟩
      rw [fatFsFindLoop, fatFsFindLoop]
      generalize fatFileRead S fd dir s.lookup s.dirents fd.clusterSize pos = r at *
      generalize fatFileRead T fd dir t.lookup t.dirents fd.clusterSize pos = r' at *
      obtain ⟨ret, dirents, lookup⟩ := r
      obtain ⟨ret', dirents', lookup'⟩ := r'
      obtain rfl : ret = ret' := hret
      cases ret with
      | panic => exact ⟨rfl, fun f hf => (by cases hf), hafter⟩
      | stuck => exact ⟨rfl, fun f hf => (by cases hf), hafter⟩
      | ret r =>
          dsimp only
          by_cases hr : r = fd.clusterSize
          · rw [if_neg (not_not.mpr hr), if_neg (not_not.mpr hr)]
            obtain rfl : dirents = dirents' := hsame (congrArg FatRet.ret hr)
            cases hscan : fatScanDirents fuel fd dirents name
                (List.range (fd.clusterSize / sizeofFatDirent)) with
            | fail => exact ih hafter (Or.inr rfl)
            | panic => exact ⟨rfl, fun f hf => (by cases hf), hafter⟩
            | stuck => exact ⟨rfl, fun f hf => (by cases hf), hafter⟩
            | ok g =>
                refine ⟨rfl, fun f hf => ?_, hafter⟩
                obtain rfl := FindRet.ok.inj hf
                exact fatScanDirents_starts hfd hscan
          · rw [if_pos hr, if_pos hr]
            exact ⟨rfl, fun f hf => (by cases hf), hafter⟩

variable {fs : FsHand}

/-- So does a search. -/
theorem fatFsFind_alike (hST : OnImage S T img) (hfd : DirLayout fs.fdata)
    (hroot : Starts fs.fdata fs.rootdir) (fuel : Nat) (h : SearchAlike img fs.fdata mem dmem s t)
    {dir : Option FatFile} (hdir : ∀ d ∈ dir, Starts fs.fdata d) (name : List UInt8) :
    (fatFsFind S fs fuel s dir name).1 = (fatFsFind T fs fuel t dir name).1 ∧
      (∀ f, (fatFsFind S fs fuel s dir name).1 = .ok f → Starts fs.fdata f) ∧
      SearchAlike img fs.fdata mem dmem (fatFsFind S fs fuel s dir name).2
        (fatFsFind T fs fuel t dir name).2 := by
  have hstart : Starts fs.fdata (dir.getD fs.rootdir) := by
    cases dir with
    | none => exact hroot
    | some d => exact hdir d rfl
  rw [fatFsFind, fatFsFind]
  split
  · refine ⟨rfl, fun f hf => ?_, h⟩
    obtain rfl := FindRet.ok.inj hf
    exact hstart
  · exact fatFsFindLoop_alike hST hfd hstart name h (Or.inl rfl)

end Find

/-! ## Paths -/

section Findfile

variable {σ τ φ : Type*} {find : σ → Option φ → List UInt8 → FindRet φ × σ}
  {find' : τ → Option φ → List UInt8 → FindRet φ × τ} {R : σ → τ → Prop} {P : φ → Prop}

theorem fsFindfileLoop_rel
    (h : ∀ s t dir name, R s t → (∀ d ∈ dir, P d) → (find s dir name).1 = (find' t dir name).1 ∧
      (∀ f, (find s dir name).1 = .ok f → P f) ∧ R (find s dir name).2 (find' t dir name).2)
    (isDir : φ → Bool) {file : φ} (hfile : P file) {comps : List (List UInt8)} :
    ∀ {s : σ} {t : τ} {dir : Option φ}, R s t → (∀ d ∈ dir, P d) →
      (fsFindfileLoop find isDir s dir file comps).1
          = (fsFindfileLoop find' isDir t dir file comps).1 ∧
        (∀ f, (fsFindfileLoop find isDir s dir file comps).1 = .ok f → P f) ∧
        R (fsFindfileLoop find isDir s dir file comps).2
          (fsFindfileLoop find' isDir t dir file comps).2 := by
  have hself (f : φ) (hf : FindRet.ok file = .ok f) : P f := FindRet.ok.inj hf ▸ hfile
  induction comps with
  | nil => exact fun hR _ => ⟨rfl, hself, hR⟩
  | cons cpath rest ih =>
      intro s t dir hR hdir
      obtain ⟨hval, hP, hR'⟩ := h s t dir cpath hR hdir
      cases rest with
      | nil =>
          rw [fsFindfileLoop, fsFindfileLoop]
          split
          · exact ⟨rfl, hself, hR⟩
          · exact ⟨hval, hP, hR'⟩
      | cons next rest =>
          rw [fsFindfileLoop_on, fsFindfileLoop_on]
          generalize find s dir cpath = r at hval hP hR'
          generalize find' t dir cpath = r' at hval hR'
          obtain ⟨res, s'⟩ := r
          obtain ⟨res', t'⟩ := r'
          obtain rfl : res = res' := hval
          cases res with
          | ok tdir =>
              dsimp only
              split
              · refine ih hR' fun d hd => ?_
                obtain rfl := Option.mem_some.mp hd
                exact hP _ rfl
              · exact ⟨rfl, fun f hf => (by cases hf), hR'⟩
          | panic => exact ⟨rfl, hP, hR'⟩
          | stuck => exact ⟨rfl, hP, hR'⟩
          | fail => exact ⟨rfl, hP, hR'⟩

/-- Two drivers whose `find` returns the same in related states find the same
    files. -/
theorem fsFindfile_rel
    (h : ∀ s t dir name, R s t → (∀ d ∈ dir, P d) → (find s dir name).1 = (find' t dir name).1 ∧
      (∀ f, (find s dir name).1 = .ok f → P f) ∧ R (find s dir name).2 (find' t dir name).2)
    (isDir : φ → Bool) {file : φ} (hfile : P file) {s : σ} {t : τ} (hR : R s t)
    {dir : Option φ} (hdir : ∀ d ∈ dir, P d) (path : List UInt8) :
    (fsFindfile find isDir s dir file path).1 = (fsFindfile find' isDir t dir file path).1 ∧
      (∀ f, (fsFindfile find isDir s dir file path).1 = .ok f → P f) ∧
      R (fsFindfile find isDir s dir file path).2 (fsFindfile find' isDir t dir file path).2 := by
  have hstart : ∀ d ∈ (searchStart dir path).1, P d := by
    cases path with
    | nil => exact hdir
    | cons c path =>
        rw [searchStart]
        split
        · exact fun d hd => (by cases hd)
        · exact hdir
  rw [fsFindfile_eq, fsFindfile_eq]
  split
  · exact ⟨rfl, fun f hf => (by cases hf), hR⟩
  · exact fsFindfileLoop_rel h isDir hfile hR hstart

end Findfile

/-! ## Runs of calls -/

/-- A run of which every call is made in the state `t`. -/
def fsRunAlone (T : StorageHand κ) (fs : FsHand) (fuel : Nat) (t : FatSearch κ) :
    List FatFile → List FsOp → List FsOut
  | _, [] => []
  | files, .find dir file path :: ops =>
      match (fatFindfile T fs fuel t (dir.bind (files[·]?)) file path).1 with
      | .ok f => .found (.ok f) :: fsRunAlone T fs fuel t (files ++ [f]) ops
      | r => .found r :: fsRunAlone T fs fuel t files ops
  | files, .read k buf sz off :: ops =>
      match files[k]? with
      | none => .nothing :: fsRunAlone T fs fuel t files ops
      | some file =>
          match fatFileRead T fs.fdata file t.lookup buf sz off with
          | (r, buf, _) => .bytes r (loadAt buf 0 sz) :: fsRunAlone T fs fuel t files ops

/-- The handle a search is to fill in is one that the driver has handed out. -/
def FsOp.Valid (fd : FatData) : FsOp → Prop
  | .find _ file _ => Starts fd file
  | .read _ _ _ _ => True

section Run

variable {S : StorageHand ι} {T : StorageHand κ} {img : StorageImage} {b : FatBootsector}
  {mem dmem : Int → UInt8} {s : FatSearch ι} {t : FatSearch κ}

theorem Fat12Volume.starts_rootdir (hb : Fat12Volume b) (off : Int) :
    Starts (fatPopulate off b).fdata (fatPopulate off b).rootdir :=
  (hb.layout off).start_rootdir

/-- A path leads to the same file. -/
theorem fatFindfile_alike (hST : OnImage S T img) (hb : Fat12Volume b) (off : Int) (fuel : Nat)
    (h : SearchAlike img (fatPopulate off b).fdata mem dmem s t) {dir : Option FatFile}
    (hdir : ∀ d ∈ dir, Starts (fatPopulate off b).fdata d) {file : FatFile}
    (hfile : Starts (fatPopulate off b).fdata file) (path : List UInt8) :
    (fatFindfile S (fatPopulate off b) fuel s dir file path).1
        = (fatFindfile T (fatPopulate off b) fuel t dir file path).1 ∧
      (∀ f, (fatFindfile S (fatPopulate off b) fuel s dir file path).1 = .ok f →
        Starts (fatPopulate off b).fdata f) ∧
      SearchAlike img (fatPopulate off b).fdata mem dmem
        (fatFindfile S (fatPopulate off b) fuel s dir file path).2
        (fatFindfile T (fatPopulate off b) fuel t dir file path).2 := by
  have hfind (s : FatSearch ι) (t : FatSearch κ) (dir : Option FatFile) (name : List UInt8)
      (h : SearchAlike img (fatPopulate off b).fdata mem dmem s t)
      (hdir : ∀ d ∈ dir, Starts (fatPopulate off b).fdata d) :=
    fatFsFind_alike hST (hb.layout off) (hb.starts_rootdir off) fuel h hdir name
  exact fsFindfile_rel hfind FatFile.directory hfile h hdir path

end Run

/-! ### Two searches and a read -/

namespace SmallVolume

theorem onImage : OnImage storage storage image where
  left _ _ _ := rfl
  right _ _ _ := rfl
  whole := wholeBlocks
  fit _ _ := Nat.le_of_eq (length_loadAt _ _ _)

/-- Nothing is cached, and the buffers hold `x`. -/
def uncached (x : UInt8) : FatSearch Unit where
  lookup := ⟨(), ⟨fun _ => -1, fun _ => 0, fun _ => x⟩, storeAt (fun _ => 0) 0 [x]⟩
  dirents := storeAt (fun _ => 0) 0 [x]

theorem uncached_ready (x : UInt8) :
    SearchReady image (fatPopulate 0 bootsec).fdata (fun _ => 0) (fun _ => 0) (uncached x) where
  lookup :=
    { cache := fun _ hi => absurd hi.1 (by show ¬ (0 : Int) ≤ -1; decide)
      tmp := AgreeOutside.store (show 1 ≤ 512 by decide) }
  dirents := AgreeOutside.store (show 1 ≤ 512 by decide)

/-- The file `A` is found, `B` is not. -/
def twoSearches : List FsOp :=
  [.find none (fatPopulate 0 bootsec).rootdir [0x41],
    .find none (fatPopulate 0 bootsec).rootdir [0x42], .read 0 (fun _ => 0) 0 0]

end SmallVolume

end LBoot.Storage
