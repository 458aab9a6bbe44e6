/-
  LBoot.Storage.FatGeometry

  What `fs_fat_init` (src/storage/fs/fat.c) makes of a boot sector, and
  whether the driver can work with it.

  Nothing in the boot sector is checked.  The size of a cluster is cut down to
  16 bits; but memory for the cache is asked for right behind that, and
  `alloc` panics at a size of zero.  So a volume that is accepted has no size
  of zero, and every division of the driver is by one of these two sizes
  (`fatFileReadChk_eq`, `fatFsFindChk_eq`).  That a cluster is as large as the
  boot sector says holds if the product fits (`fsFatInitAlloc_usable_iff`).
-/

import LBoot.Mm.Alloc
import LBoot.Storage.FatEnds

namespace LBoot.Storage

open LBoot.Lib

variable {ι : Type*}

/-! ## Setting up a volume -/

/-- `sizeof(fat_bootsector_t)`. -/
abbrev sizeofFatBootsector : Nat := 512

/-- `sizeof(fat_data_t)`. -/
abbrev sizeofFatData : Nat := 76

/-- `fs_fat_init` with the allocator it takes its memory from. -/
def fsFatInitAlloc (S : StorageHand ι) (s : FatState ι) (m : Mm.Alloc) (off : Int) :
    FindRet FsHand × FatState ι :=
  match Mm.alloc m sizeofFatBootsector Mm.allocFlag16b with
  | .panic => (.panic, s)
  | .stuck => (.stuck, s)
  | .ret bootsec m =>
      match S.read s.dev off 512 with
      | ((bytes, ret), dev) =>
          let s := { s with dev, tmp := storeAt s.tmp 0 bytes }
          if ret ≠ 512 then ((Mm.doFree m bootsec).elim .panic fun _ => .fail, s)
          else
            match Mm.alloc m sizeofFatData 0 with
            | .panic => (.panic, s)
            | .stuck => (.stuck, s)
            | .ret _ m =>
                let fs := fatPopulate off (fatBootsector s.tmp)
                match Mm.alloc m (fs.fdata.clusterSize * fatCacheCnt) 0 with
                | .panic => (.panic, s)
                | .stuck => (.stuck, s)
                | .ret _ m => ((Mm.doFree m bootsec).elim .panic fun _ => .ok fs, s)

/-! ## The divisions of the driver -/

/-- `a / b`; `none` is the divide error. -/
def divChk (a b : Int) : Option Int := if b = 0 then none else some (a.tdiv b)

/-- `a % b`. -/
def modChk (a b : Int) : Option Int := if b = 0 then none else some (a.tmod b)

/-- `_fat_read_fat_data`, with its division checked. -/
def fatReadFatDataChk (S : StorageHand ι) (fd : FatData) (s : FatState ι) (off : Int) (sz : Nat) :
    Option (Nat × FatState ι) :=
  (modChk off fd.sectorSize).bind fun r =>
    let readAddr := off - r
    match fatFetch S fd s readAddr with
    | (false, s) => some (0xffffffff, s)
    | (true, s) => some (fatMask sz (leNat (loadAt s.tmp (off - readAddr) 4)), s)

/-- `_fat_get_fat_entry`, with its divisions checked. -/
def fatGetFatEntryChk (S : StorageHand ι) (fd : FatData) (s : FatState ι) (clustNum : Nat) :
    Option (Nat × FatState ι) :=
  let fatEntryOffset := s32 (fd.fatOffset + (u32 (clustNum * 3) / 2 : Nat))
  (modChk fatEntryOffset fd.clusterSize).bind fun r =>
    let entry :=
      if r = fd.clusterSize - 1 then
        (fatReadFatDataChk S fd s fatEntryOffset 1).bind fun (lo, s) =>
          (fatReadFatDataChk S fd s (fatEntryOffset + 1) 1).map fun (hi, s) =>
            ((lo ||| (hi <<< 8)) % 2 ^ 16, s)
      else (fatReadFatDataChk S fd s fatEntryOffset 2).map fun (w, s) => (w % 2 ^ 16, s)
    entry.map fun (fatEntry, s) =>
      let fatEntry := if clustNum &&& 1 ≠ 0 then fatEntry >>> 4 else fatEntry
      (fatEntry &&& 0xfff, s)

/-- `_fat_get_next_cluster`, with its divisions checked. -/
def fatGetNextClusterChk (S : StorageHand ι) (fd : FatData) (s : FatState ι) (currClust : Int) :
    Option (Int × FatState ι) :=
  if currClust < fd.dataOffset then
    if currClust < fd.rootdirFirst then some (0, s)
    else if s32 (currClust + fd.clusterSize) < fd.dataOffset then
      some (s32 (currClust + fd.clusterSize), s)
    else some (0, s)
  else
    (divChk (currClust - fd.dataOffset) fd.clusterSize).bind fun q =>
      let clustNum := toU32 (q + 2)
      (fatGetFatEntryChk S fd s clustNum).map fun (fatEntry, s) =>
        if fatEntry ≥ 0x002 ∧ fatEntry ≤ 0xff0 then
          (s32 (fd.dataOffset + ((fatEntry - 2) * fd.clusterSize : Nat)), s)
        else (0, s)

/-- The loop that skips to the cluster of the first byte. -/
def fatSkipChk (S : StorageHand ι) (fd : FatData) :
    Nat → FatState ι → Int → Int → Option (Except FatRet (Int × Int) × FatState ι)
  | 0, s, cluster, off =>
      if off ≥ fd.clusterSize then some (.error .stuck, s) else some (.ok (cluster, off), s)
  | fuel + 1, s, cluster, off =>
      if off ≥ fd.clusterSize then
        (fatGetNextClusterChk S fd s cluster).bind fun r =>
          if r.1 = 0 then some (.error (.ret (-1)), r.2)
          else fatSkipChk S fd fuel r.2 r.1 (off - fd.clusterSize)
      else some (.ok (cluster, off), s)

/-- The loop that copies cluster by cluster. -/
def fatCopyChk (S : StorageHand ι) (fd : FatData) (sz : Nat) :
    Nat → FatState ι → (Int → UInt8) → Int → Int → Nat → Option (FatRet × (Int → UInt8) × FatState ι)
  | 0, s, buf, _, _, pos => some (if pos < sz then .stuck else .ret sz, buf, s)
  | fuel + 1, s, buf, cluster, off, pos =>
      if pos < sz then
        match S.read s.dev cluster fd.clusterSize with
        | ((bytes, ret), dev) =>
            let s := { s with dev, tmp := storeAt s.tmp 0 bytes }
            if ret ≠ fd.clusterSize then some (.ret (-1), buf, s)
            else if sz - pos ≤ toU32 (fd.clusterSize - off) then
              let buf := storeAt buf pos (loadAt s.tmp off (sz - pos))
              fatCopyChk S fd sz fuel s buf cluster 0 (u32 (pos + fd.clusterSize))
            else
              let buf := storeAt buf pos (loadAt s.tmp 0 (toU32 (fd.clusterSize - off)))
              (fatGetNextClusterChk S fd s cluster).bind fun r =>
                if r.1 = 0 then some (.ret (-1), buf, r.2)
                else fatCopyChk S fd sz fuel r.2 buf r.1 0 (u32 (pos + fd.clusterSize))
      else some (.ret sz, buf, s)

/-- `_fat_file_read`, with all divisions checked. -/
def fatFileReadChk (S : StorageHand ι) (fd : FatData) (file : FatFile) (s : FatState ι)
    (buf : Int → UInt8) (sz : Nat) (off : Int) : Option (FatRet × (Int → UInt8) × FatState ι) :=
  if ¬ file.directory ∧ toU32 (off + sz) > file.size then some (.panic, buf, s)
  else
    (fatSkipChk S fd off.toNat s file.firstCluster off).bind fun
      | (.error r, s) => some (r, buf, s)
      | (.ok (cluster, off), s) => fatCopyChk S fd sz sz s buf cluster off 0

/-- The loop of `_fat_fs_find`. -/
def fatFsFindLoopChk (S : StorageHand ι) (fd : FatData) (dir : FatFile) (name : List UInt8) :
    Nat → FatSearch ι → Int → Option (FindRet FatFile × FatSearch ι)
  | 0, s, _ => some (.stuck, s)
  | fuel + 1, s, pos =>
      (fatFileReadChk S fd dir s.lookup s.dirents fd.clusterSize pos).bind fun
        | (.panic, dirents, lookup) => some (.panic, ⟨lookup, dirents⟩)
        | (.stuck, dirents, lookup) => some (.stuck, ⟨lookup, dirents⟩)
        | (.ret r, dirents, lookup) =>
            if r ≠ fd.clusterSize then some (.fail, ⟨lookup, dirents⟩)
            else
              match fatScanDirents fuel fd dirents name
                  (List.range (fd.clusterSize / sizeofFatDirent)) with
              | .fail =>
                  fatFsFindLoopChk S fd dir name fuel ⟨lookup, dirents⟩ (s32 (pos + fd.clusterSize))
              | found => some (found, ⟨lookup, dirents⟩)

/-- `_fat_fs_find`, with all divisions checked. -/
def fatFsFindChk (S : StorageHand ι) (fs : FsHand) (fuel : Nat) (s : FatSearch ι)
    (dir : Option FatFile) (name : List UInt8) : Option (FindRet FatFile × FatSearch ι) :=
  let dir := dir.getD fs.rootdir
  if name = [0x2e] then some (.ok dir, s) else fatFsFindLoopChk S fs.fdata dir name fuel s 0

section Checked

variable {S : StorageHand ι} {fd : FatData}

theorem modChk_eq (a : Int) {b : Int} (hb : b ≠ 0) : modChk a b = some (a.tmod b) := if_neg hb

theorem divChk_eq (a : Int) {b : Int} (hb : b ≠ 0) : divChk a b = some (a.tdiv b) := if_neg hb

theorem fatReadFatDataChk_eq (hss : fd.sectorSize ≠ 0) (s : FatState ι) (off : Int) (sz : Nat) :
    fatReadFatDataChk S fd s off sz = some (fatReadFatData S fd s off sz) := by
  rw [fatReadFatDataChk, modChk_eq off (Int.natCast_ne_zero.mpr hss), fatReadFatData,
    Option.bind_some]
  dsimp only
  generalize fatFetch S fd s (off - off.tmod fd.sectorSize) = r
  obtain ⟨ok, s⟩ := r
  cases ok <;> rfl

theorem fatGetFatEntryChk_eq (hss : fd.sectorSize ≠ 0) (hcs : fd.clusterSize ≠ 0) (s : FatState ι)
    (clustNum : Nat) :
    fatGetFatEntryChk S fd s clustNum = some (fatGetFatEntry S fd s clustNum) := by
  rw [fatGetFatEntryChk, fatGetFatEntry]
  simp only [modChk_eq _ (Int.natCast_ne_zero.mpr hcs), fatReadFatDataChk_eq hss, Option.bind_some,
    Option.map_some]
  -- whether the entry is split across a cluster boundary
  rw [← apply_ite some, Option.map_some]

theorem fatGetNextClusterChk_eq (hss : fd.sectorSize ≠ 0) (hcs : fd.clusterSize ≠ 0)
    (s : FatState ι) (currClust : Int) :
    fatGetNextClusterChk S fd s currClust = some (fatGetNextCluster S fd s currClust) := by
  rw [fatGetNextClusterChk, fatGetNextCluster]
  split
  · split
    · rfl
    · split <;> rfl
  · rw [divChk_eq _ (Int.natCast_ne_zero.mpr hcs), Option.bind_some]
    dsimp only
    rw [fatGetFatEntryChk_eq hss hcs]
    rfl

theorem fatSkipChk_eq (hss : fd.sectorSize ≠ 0) (hcs : fd.clusterSize ≠ 0) (fuel : Nat)
    (s : FatState ι) (cluster off : Int) :
    fatSkipChk S fd fuel s cluster off = some (fatSkip S fd fuel s cluster off) := by
  induction fuel generalizing s cluster off with
  | zero =>
      rw [fatSkipChk, fatSkip]
      split <;> rfl
  | succ fuel ih =>
      rw [fatSkipChk, fatSkip, fatGetNextClusterChk_eq hss hcs, Option.bind_some]
      split
      · dsimp only
        split
        · rfl
        · exact ih _ _ _
      · rfl

theorem fatCopyChk_eq (hss : fd.sectorSize ≠ 0) (hcs : fd.clusterSize ≠ 0) (sz fuel : Nat)
    (s : FatState ι) (buf : Int → UInt8) (cluster off : Int) (pos : Nat) :
    fatCopyChk S fd sz fuel s buf cluster off pos = some (fatCopy S fd sz fuel s buf cluster off pos) := by
  induction fuel generalizing s buf cluster off pos with
  | zero => rw [fatCopyChk, fatCopy]
  | succ fuel ih =>
      rw [fatCopyChk, fatCopy]
      split
      · generalize S.read s.dev cluster fd.clusterSize = r
        obtain ⟨⟨bytes, ret⟩, dev⟩ := r
        dsimp only
        split
        · rfl
        · split
          · exact ih _ _ _ _ _
          · rw [fatGetNextClusterChk_eq hss hcs, Option.bind_some]
            split
            · rfl
            · exact ih _ _ _ _ _
      · rfl

/-- No read of a file divides by zero. -/
theorem fatFileReadChk_eq (hss : fd.sectorSize ≠ 0) (hcs : fd.clusterSize ≠ 0) (file : FatFile)
    (s : FatState ι) (buf : Int → UInt8) (sz : Nat) (off : Int) :
    fatFileReadChk S fd file s buf sz off = some (fatFileRead S fd file s buf sz off) := by
  rw [fatFileReadChk, fatFileRead, fatSkipChk_eq hss hcs, Option.bind_some]
  split
  · rfl
  · generalize fatSkip S fd off.toNat s file.firstCluster off = skip
    obtain ⟨skip, s⟩ := skip
    cases skip with
    | error r => rfl
    | ok place => exact fatCopyChk_eq hss hcs _ _ _ _ _ _ _

theorem fatFsFindLoopChk_eq (hss : fd.sectorSize ≠ 0) (hcs : fd.clusterSize ≠ 0) (dir : FatFile)
    (name : List UInt8) (fuel : Nat) (s : FatSearch ι) (pos : Int) :
    fatFsFindLoopChk S fd dir name fuel s pos = some (fatFsFindLoop S fd dir name fuel s pos) := by
  induction fuel generalizing s pos with
  | zero => rfl
  | succ fuel ih =>
      rw [fatFsFindLoopChk, fatFsFindLoop, fatFileReadChk_eq hss hcs, Option.bind_some]
      generalize fatFileRead S fd dir s.lookup s.dirents fd.clusterSize pos = r
      obtain ⟨r, dirents, lookup⟩ := r
      cases r with
      | panic => rfl
      | stuck => rfl
      | ret r =>
          dsimp only
          split
          · rfl
          · cases fatScanDirents fuel fd dirents name
              (List.range (fd.clusterSize / sizeofFatDirent)) with
            | fail => exact ih _ _
            | panic => rfl
            | stuck => rfl
            | ok file => rfl

/-- No search of a directory does. -/
theorem fatFsFindChk_eq {fs : FsHand} (hss : fs.fdata.sectorSize ≠ 0)
    (hcs : fs.fdata.clusterSize ≠ 0) (fuel : Nat) (s : FatSearch ι) (dir : Option FatFile)
    (name : List UInt8) :
    fatFsFindChk S fs fuel s dir name = some (fatFsFind S fs fuel s dir name) := by
  rw [fatFsFindChk, fatFsFind]
  split
  · rfl
  · exact fatFsFindLoopChk_eq hss hcs _ _ _ _ _

end Checked

/-! ## Volumes that are accepted -/

/-- The driver can work with the geometry of a volume. -/
structure DriverWorks (S : StorageHand ι) (fs : FsHand) : Prop where
  sector_pos : 0 < fs.fdata.sectorSize
  cluster_pos : 0 < fs.fdata.clusterSize
  /-- no read of a file divides by zero -/
  read : ∀ file s buf sz off, (fatFileReadChk S fs.fdata file s buf sz off).isSome
  /-- no search of a directory divides by zero -/
  find : ∀ fuel s dir name, (fatFsFindChk S fs fuel s dir name).isSome
  /-- each round of the loop that skips clusters has less to skip -/
  step : ∀ off : Int, off ≥ fs.fdata.clusterSize →
    0 ≤ off - fs.fdata.clusterSize ∧ off - fs.fdata.clusterSize < off
  /-- so the loop ends -/
  skip : ∀ s cluster off,
    (fatSkip S fs.fdata off.toNat s cluster off).1 ≠ .error .stuck

/-- The geometry of a volume is what its boot sector says, and the driver can
    work with it. -/
structure UsableGeometry (S : StorageHand ι) (bootsec : FatBootsector) (fs : FsHand) : Prop where
  exact : fs.fdata.clusterSize = bootsec.sectorsPerCluster * bootsec.bytesPerSector
  works : DriverWorks S fs

/-- Memory of no size is not handed out. -/
theorem alloc_zero (m : Mm.Alloc) (flags : Nat) : Mm.alloc m 0 flags = .panic := by
  rw [Mm.alloc, Mm.allocWith, if_pos rfl]

/-- A volume that is accepted has clusters. -/
theorem fsFatInitAlloc_ok {S : StorageHand ι} {s : FatState ι} {m : Mm.Alloc} {off : Int} {fs : FsHand}
    (hinit : (fsFatInitAlloc S s m off).1 = .ok fs) :
    fs = fatPopulate off (fatBootsector (storeAt s.tmp 0 (S.read s.dev off 512).1.1)) ∧
      fs.fdata.clusterSize ≠ 0 := by
  rw [fsFatInitAlloc] at hinit
  cases hboot : Mm.alloc m sizeofFatBootsector Mm.allocFlag16b with
  | panic => rw [hboot] at hinit; exact absurd hinit (by simp)
  | stuck => rw [hboot] at hinit; exact absurd hinit (by simp)
  | ret bootsec m =>
      rw [hboot] at hinit
      generalize S.read s.dev off 512 = r at hinit
      obtain ⟨⟨bytes, ret⟩, dev⟩ := r
      dsimp only at hinit
      split at hinit
      · -- the boot sector was not read
        generalize Mm.doFree m bootsec = f at hinit
        cases f <;> exact absurd hinit (by simp)
      · cases hdata : Mm.alloc m sizeofFatData 0 with
        | panic => rw [hdata] at hinit; exact absurd hinit (by simp)
        | stuck => rw [hdata] at hinit; exact absurd hinit (by simp)
        | ret fdata m =>
            rw [hdata] at hinit
            dsimp only at hinit
            generalize hfs : fatPopulate off (fatBootsector (storeAt s.tmp 0 bytes)) = fs' at hinit
            cases hcache : Mm.alloc m (fs'.fdata.clusterSize * fatCacheCnt) 0 with
            | panic => rw [hcache] at hinit; exact absurd hinit (by simp)
            | stuck => rw [hcache] at hinit; exact absurd hinit (by simp)
            | ret buf m =>
                rw [hcache] at hinit
                dsimp only at hinit
                generalize Mm.doFree m bootsec = f at hinit
                cases f with
                | none => exact absurd hinit (by simp)
                | some m =>
                    obtain rfl : fs' = fs := FindRet.ok.inj hinit
                    refine ⟨rfl, fun hzero => ?_⟩
                    -- clusters of no size ask for a cache of no size
                    rw [hzero, Nat.zero_mul, alloc_zero] at hcache
                    exact absurd hcache (by simp)

/-- With sectors and clusters of some size, the driver works. -/
theorem driverWorks_of_pos (S : StorageHand ι) {fs : FsHand} (hss : 0 < fs.fdata.sectorSize)
    (hcs : 0 < fs.fdata.clusterSize) : DriverWorks S fs where
  sector_pos := hss
  cluster_pos := hcs
  read file s buf sz off := by
    rw [fatFileReadChk_eq hss.ne' hcs.ne']
    rfl
  find fuel s dir name := by
    rw [fatFsFindChk_eq hss.ne' hcs.ne']
    rfl
  step off hoff := by omega
  skip s cluster off hstuck := by
    rcases fatSkip_returns (S := S) (s := s) (c := cluster) hcs (Nat.le_refl off.toNat) with
      ⟨t, hret⟩ | ⟨d, rest, t, hret⟩
    · rw [hret] at hstuck
      exact absurd hstuck (by simp)
    · rw [hret] at hstuck
      exact absurd hstuck (by simp)

/-- For every storage device, state of the allocator and boot sector that is
    accepted: the driver can work with the geometry; and the geometry is what
    the boot sector says exactly if the size of a cluster fits in 16 bits. -/
theorem fsFatInitAlloc_usable_iff (S : StorageHand ι) (s : FatState ι) (m : Mm.Alloc) (off : Int)
    (fs : FsHand) (hinit : (fsFatInitAlloc S s m off).1 = .ok fs) :
    DriverWorks S fs ∧
      (UsableGeometry S (fatBootsector (storeAt s.tmp 0 (S.read s.dev off 512).1.1)) fs ↔
        (fatBootsector (storeAt s.tmp 0 (S.read s.dev off 512).1.1)).sectorsPerCluster *
          (fatBootsector (storeAt s.tmp 0 (S.read s.dev off 512).1.1)).bytesPerSector < 2 ^ 16) := by
  obtain ⟨hfs, hcs⟩ := fsFatInitAlloc_ok hinit
  generalize fatBootsector (storeAt s.tmp 0 (S.read s.dev off 512).1.1) = bootsec at hfs
  have hcluster : fs.fdata.clusterSize
      = bootsec.sectorsPerCluster * bootsec.bytesPerSector % 2 ^ 16 := by
    rw [hfs]
    rfl
  have hsector : fs.fdata.sectorSize = bootsec.bytesPerSector := by
    rw [hfs]
    rfl
  -- a sector of no size would make a cluster of no size
  have hss : fs.fdata.sectorSize ≠ 0 := by
    intro hzero
    rw [hsector] at hzero
    rw [hcluster, hzero, Nat.mul_zero] at hcs
    exact hcs rfl
  have hworks : DriverWorks S fs := driverWorks_of_pos S (Nat.pos_of_ne_zero hss) (Nat.pos_of_ne_zero hcs)
  refine ⟨hworks, fun h => ?_, fun hlt => ⟨?_, hworks⟩⟩
  · rw [← h.exact, hcluster]
    exact Nat.mod_lt _ (by decide)
  · rw [hcluster, Nat.mod_eq_of_lt hlt]

namespace WideVolume

/-- A boot sector with sectors of 512 bytes, and so many of them in a
    cluster. -/
def vol (spc : UInt8) (x : Int) : UInt8 := if x = 12 then 2 else if x = 13 then spc else 0

def storage (spc : UInt8) : StorageHand Unit := ⟨fun d off n => ((loadAt (vol spc) off n, n), d)⟩

def start : FatState Unit := ⟨(), ⟨fun _ => 1, fun _ => 0, fun _ => 0⟩, fun _ => 0⟩

/-- The allocator with one free area, and the rest of its table unused. -/
def heap : Mm.Alloc :=
  ⟨[⟨0x7e00, (Vector.replicate Mm.allocBlockSz ⟨false, false, 0, 0⟩).set 0
    ⟨true, false, 0x8404, 0x70000⟩⟩]⟩

def fs (clusterSize : Nat) : FsHand where
  fsOffset := 0
  fsSize := 0
  fdata := { sectorSize := 512, clusterSize, fatOffset := 0, dataOffset := 0, rootdirFirst := 0 }
  fatSize := 0
  rootdir := { directory := true, size := 0, firstCluster := 0 }

theorem storage_bootsec : fatBootsector (storeAt start.tmp 0 ((storage 1).read start.dev 0 512).1.1)
    = ⟨512, 1, 0, 0, 0, 0, 0⟩ := by
  show fatBootsector (storeAt start.tmp 0 (loadAt (vol 1) 0 512)) = _
  rw [fatBootsector_read]
  decide

/-- Clusters of one sector are as large as the boot sector says. -/
theorem fsFatInitAlloc_usable_iff_one :
    (fsFatInitAlloc (storage 1) start heap 0).1 = .ok (fs 512) ∧
      UsableGeometry (storage 1) ⟨512, 1, 0, 0, 0, 0, 0⟩ (fs 512) := by
  have hinit : (fsFatInitAlloc (storage 1) start heap 0).1 = .ok (fs 512) := by decide +kernel
  have husable := (fsFatInitAlloc_usable_iff (storage 1) start heap 0 (fs 512) hinit).2
  rw [storage_bootsec] at husable
  exact ⟨hinit, husable.mpr (by decide)⟩

/-- The unconditional statement fails: 129 sectors are taken for a cluster of
    512 bytes. -/
theorem fsFatInitAlloc_truncates :
    (fsFatInitAlloc (storage 129) start heap 0).1 = .ok (fs 512) ∧
      ¬ UsableGeometry (storage 129) ⟨512, 129, 0, 0, 0, 0, 0⟩ (fs 512) := by
  refine ⟨by decide +kernel, fun h => ?_⟩
  have hexact : 512 = 129 * 512 := h.exact
  omega

end WideVolume

end LBoot.Storage
