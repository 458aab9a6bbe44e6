/-
  LBoot.Storage.FatOffset

  Where the driver reads, and the offset it was initialised with.

  Only the boot sector is read at `fs_offset`.  Every other read, of the FAT,
  of a directory or of a file, is at an address counted from the start of the
  storage.  So what the driver does depends on what the storage answers at
  these addresses (`session_bare`): if the image lies at its start the results
  are those of offset 0, and for every other offset there are images whose
  files are not found (`fs_offset_iff`).
-/

import LBoot.Storage.FatCoherence
import LBoot.Storage.FatDevice
import LBoot.Storage.FatFind
import LBoot.Storage.FatRead

namespace LBoot.Storage

open LBoot.Lib

variable {ι : Type*}

/-- The storage that is nothing but its image. -/
def bare (img : StorageImage) : StorageHand Unit := ⟨fun d off n => (img off n, d)⟩

/-- A state without the state of its device. -/
def FatState.forget (s : FatState ι) : FatState Unit := ⟨(), s.cache, s.tmp⟩

def FatSearch.forget (s : FatSearch ι) : FatSearch Unit := ⟨s.lookup.forget, s.dirents⟩

@[simp] theorem FatState.forget_dev (s : FatState ι) : s.forget.dev = () := rfl

section Bare

variable {S : StorageHand ι} {img : StorageImage} {fd : FatData}

/-- The driver cannot tell the storage from its image. -/
theorem reflects_bare (hS : Answers S img) : Reflects S (bare img) fun _ => () := by
  intro d a n
  rw [hS d a n]
  rfl

theorem fatFileRead_bare (hS : Answers S img) (file : FatFile) (s : FatState ι)
    (buf : Int → UInt8) (sz : Nat) (off : Int) :
    fatFileRead (bare img) fd file s.forget buf sz off
      = ((fatFileRead S fd file s buf sz off).1, (fatFileRead S fd file s buf sz off).2.1,
          (fatFileRead S fd file s buf sz off).2.2.forget) :=
  fatFileRead_map (reflects_bare hS) file s buf sz off

theorem fatFsFind_bare (hS : Answers S img) {fs fs' : FsHand} (hfd : fs'.fdata = fs.fdata)
    (hroot : fs'.rootdir = fs.rootdir) (fuel : Nat) (s : FatSearch ι) (dir : Option FatFile)
    (name : List UInt8) :
    fatFsFind (bare img) fs' fuel s.forget dir name
      = ((fatFsFind S fs fuel s dir name).1, (fatFsFind S fs fuel s dir name).2.forget) :=
  fatFsFind_map (reflects_bare hS) hfd hroot fuel s dir name

end Bare

/-! ## Sessions -/

/-- What a client does with a volume.  The files found are numbered in the
    order they are found in. -/
inductive FsOp where
  /-- `fs_findfile` from the root or from a directory found before, into a
      handle that holds `file` -/
  | find (dir : Option Nat) (file : FatFile) (path : List UInt8)
  /-- `read` of a file found before, into a buffer -/
  | read (file : Nat) (buf : Int → UInt8) (sz : Nat) (off : Int)

/-- What it gets. -/
inductive FsOut where
  | found (r : FindRet FatFile)
  | bytes (r : FatRet) (data : List UInt8)
  /-- there is no such file -/
  | nothing
  deriving DecidableEq, Repr

def fsRun (S : StorageHand ι) (fs : FsHand) (fuel : Nat) :
    List FatFile → FatSearch ι → List FsOp → List FsOut
  | _, _, [] => []
  | files, s, .find dir file path :: ops =>
      match fatFindfile S fs fuel s (dir.bind (files[·]?)) file path with
      | (.ok f, s) => .found (.ok f) :: fsRun S fs fuel (files ++ [f]) s ops
      | (r, s) => .found r :: fsRun S fs fuel files s ops
  | files, s, .read k buf sz off :: ops =>
      match files[k]? with
      | none => .nothing :: fsRun S fs fuel files s ops
      | some file =>
          match fatFileRead S fs.fdata file s.lookup buf sz off with
          | (r, buf, lookup) =>
              .bytes r (loadAt buf 0 sz) :: fsRun S fs fuel files { s with lookup } ops

/-- `fs_fat_init`, and what follows if it succeeds. -/
def fsSession (S : StorageHand ι) (s : FatSearch ι) (off : Int) (fuel : Nat) (ops : List FsOp) :
    Option (List FsOut) :=
  match fsFatInit S s.lookup off with
  | (none, _) => none
  | (some fs, lookup) => some (fsRun S fs fuel [] { s with lookup } ops)

section Session

variable {S : StorageHand ι} {img : StorageImage}

theorem fsRun_bare (hS : Answers S img) {fs fs' : FsHand} (hfd : fs'.fdata = fs.fdata)
    (hroot : fs'.rootdir = fs.rootdir) (fuel : Nat) (ops : List FsOp) (files : List FatFile)
    (s : FatSearch ι) :
    fsRun (bare img) fs' fuel files s.forget ops = fsRun S fs fuel files s ops := by
  -- a search hands on the files opened so far, a read the cache it leaves
  induction ops generalizing files s with
  | nil => rfl
  | cons op ops ih =>
      cases op with
      | find dir file path =>
          rw [fsRun, fsRun, fatFindfile, fatFindfile,
            fsFindfile_sim (fun s dir name => fatFsFind_bare hS hfd hroot fuel s dir name)]
          generalize fsFindfile (fatFsFind S fs fuel) FatFile.directory s (dir.bind (files[·]?)) file
            path = r
          obtain ⟨r, t⟩ := r
          cases r with
          | ok f => exact congrArg _ (ih _ t)
          | panic => exact congrArg _ (ih _ t)
          | stuck => exact congrArg _ (ih _ t)
          | fail => exact congrArg _ (ih _ t)
      | read k buf sz off =>
          rw [fsRun, fsRun, hfd]
          cases files[k]? with
          | none => exact congrArg _ (ih _ s)
          | some file =>
              have hlookup : s.forget.lookup = s.lookup.forget := rfl
              rw [hlookup]
              simp only [fatFileRead_bare hS]
              exact congrArg _ (ih _ ⟨_, s.dirents⟩)

/-- At any offset at which it finds the boot sector, the driver does what the
    storage's answers at untranslated addresses make it do. -/
theorem fsSession_bare (hS : Answers S img) (s : FatSearch ι) {off : Int}
    (hboot : img off 512 = img 0 512) (fuel : Nat) (ops : List FsOp) :
    fsSession S s off fuel ops = fsSession (bare img) s.forget 0 fuel ops := by
  have hlookup : s.forget.lookup = s.lookup.forget := rfl
  rw [fsSession, fsSession, fsFatInit, fsFatInit, hlookup]
  cases hread : S.read s.lookup.dev off 512 with
  | mk res dev =>
      have hans := hS s.lookup.dev off 512
      rw [hread, hboot] at hans
      have hbare : (bare img).read () 0 512 = (res, ()) := congrArg (fun r => (r, ())) hans.symm
      obtain ⟨bytes, ret⟩ := res
      rcases eq_or_ne ret 512 with hret | hret
      · -- the two handles differ in `fs_offset` only
        have hfd (b : FatBootsector) : (fatPopulate 0 b).fdata = (fatPopulate off b).fdata := rfl
        have hroot (b : FatBootsector) : (fatPopulate 0 b).rootdir = (fatPopulate off b).rootdir :=
          rfl
        have hrun : fsRun (bare img) (fatPopulate 0 (fatBootsector (storeAt s.lookup.tmp 0 bytes)))
              fuel [] (FatSearch.forget ⟨⟨dev, s.lookup.cache, storeAt s.lookup.tmp 0 bytes⟩,
                s.dirents⟩) ops
            = fsRun S (fatPopulate off (fatBootsector (storeAt s.lookup.tmp 0 bytes))) fuel []
              ⟨⟨dev, s.lookup.cache, storeAt s.lookup.tmp 0 bytes⟩, s.dirents⟩ ops :=
          fsRun_bare hS (hfd _) (hroot _) fuel ops [] _
        simp only [hbare, hret, FatState.forget_dev, ne_eq, not_true, if_false]
        exact congrArg some hrun.symm
      · simp only [hbare, hret, FatState.forget_dev, ne_eq, not_false_eq_true, if_true]

end Session

/-! ## The offset -/

/-- The storage answers from byte `off` on as the image does; in front of its
    start there is nothing, on this storage as on any other. -/
def HoldsAt (S : StorageHand ι) (off : Int) (img : StorageImage) : Prop :=
  (∀ d a n, 0 ≤ a → (S.read d (off + a) n).1 = img a n) ∧
    ∀ d a n, a < 0 → (S.read d a n).1 = img a n

/-- An image that starts with a boot sector for FAT12. -/
structure Fat12Boot (img : StorageImage) (bootsec : FatBootsector) : Prop where
  whole : WholeBlocks img
  read : ∃ bytes, img 0 512 = (bytes, 512) ∧
    ∀ tmp, fatBootsector (storeAt tmp 0 bytes) = bootsec
  bytesPerSector_pos : 0 < bootsec.bytesPerSector
  sectorsPerCluster_pos : 0 < bootsec.sectorsPerCluster
  reservedSectors_pos : 0 < bootsec.reservedSectors
  fatCopies_pos : 0 < bootsec.fatCopies
  rootDirEntries_pos : 0 < bootsec.rootDirEntries

/-- Initialised at `off` on a storage that holds the image there, the driver
    does the same as at 0 on a storage that holds it at its start. -/
def OffsetTransparent (off : Int) : Prop :=
  ∀ (ι κ : Type) (S : StorageHand ι) (S₀ : StorageHand κ) (img : StorageImage)
    (bootsec : FatBootsector), Fat12Boot img bootsec → HoldsAt S off img → HoldsAt S₀ 0 img →
    ∀ (s : FatSearch ι) (s₀ : FatSearch κ), s.forget = s₀.forget →
    ∀ (fuel : Nat) (ops : List FsOp), fsSession S s off fuel ops = fsSession S₀ s₀ 0 fuel ops

theorem HoldsAt.answers {S : StorageHand ι} {img : StorageImage} (h : HoldsAt S 0 img) :
    Answers S img := by
  intro d a n
  by_cases hneg : a < 0
  · exact h.2 d a n hneg
  · have hans := h.1 d a n (by omega)
    rwa [Int.zero_add] at hans

theorem offsetTransparent_zero : OffsetTransparent 0 := by
  intro ι κ S S₀ img bootsec _ hS hS₀ s s₀ hs fuel ops
  rw [fsSession_bare hS.answers s rfl, fsSession_bare hS₀.answers s₀ rfl, hs]

/-! ### A file that is not found -/

/-- A disk that ends nowhere. -/
def disk (vol : Int → UInt8) : StorageImage := fun a n =>
  if a < 0 then ([], -1) else (loadAt vol a n, n)

/-- The small volume at byte `off` of a disk that is empty up to there. -/
def shifted (off : Nat) (x : Int) : UInt8 := if x < off then 0 else SmallVolume.vol (x - off)

theorem loadAt_shifted (off : Nat) {a : Int} (ha : 0 ≤ a) (n : Nat) :
    loadAt (shifted off) (off + a) n = loadAt SmallVolume.vol a n := by
  rw [loadAt_eq_iff (length_loadAt _ _ _)]
  intro i hi
  have hidx : (off : Int) + a + i - off = a + i := by omega
  rw [getElem?_loadAt hi, shifted, if_neg (by omega), hidx]

theorem holdsAt_shifted (off : Nat) : HoldsAt (bare (disk (shifted off))) off (disk SmallVolume.vol) := by
  constructor
  · intro _ a n ha
    show disk (shifted off) (off + a) n = disk SmallVolume.vol a n
    rw [disk, disk, if_neg (by omega), if_neg (by omega), loadAt_shifted off ha]
  · intro _ a n ha
    show disk (shifted off) a n = disk SmallVolume.vol a n
    rw [disk, disk, if_pos ha, if_pos ha]

theorem holdsAt_disk (vol : Int → UInt8) : HoldsAt (bare (disk vol)) 0 (disk vol) := by
  refine ⟨fun _ a n _ => ?_, fun _ _ _ _ => rfl⟩
  rw [Int.zero_add]
  rfl

theorem disk_wholeBlocks (vol : Int → UInt8) : WholeBlocks (disk vol) := by
  intro off n bytes h
  rw [disk] at h
  split at h
  · exact absurd (Prod.mk.inj h).2 (by omega)
  · rw [← (Prod.mk.inj h).1, length_loadAt]

/-- A search compares no name of a cluster whose entries all start
    otherwise. -/
theorem fatScanDirents_other {fd : FatData} {dirents : Int → UInt8} {c : UInt8} {name : List UInt8}
    (hc : c ≠ 0x2e) (fuel : Nat) {is : List Nat}
    (h : ∀ i ∈ is, dirents (i * sizeofFatDirent : Nat) ≠ c) :
    fatScanDirents fuel fd dirents (c :: name) is = .fail := by
  induction is with
  | nil => rfl
  | cons i is ih =>
      have hi := h i List.mem_cons_self
      have hcmp : fatStrcmp fuel (fun k => dirents (i * sizeofFatDirent + k : Nat)) (c :: name)
          = some (-1) := by
        rw [fatStrcmp, fatStrcmpFrom, if_neg hc]
        exact if_pos hi
      rw [fatScanDirents, hcmp]
      exact ih fun j hj => h j (List.mem_cons_of_mem _ hj)

namespace SmallVolume

/-- The geometry of the small volume. -/
def fd : FatData := ⟨512, 512, 512, 1536, 1024⟩

def rootdir : FatFile := ⟨true, 0, 1024⟩

theorem populate_eq (off : Int) : (fatPopulate off bootsec).fdata = fd ∧
    (fatPopulate off bootsec).rootdir = rootdir := by
  have hzero : (fatPopulate 0 bootsec).fdata = fd ∧ (fatPopulate 0 bootsec).rootdir = rootdir := by
    decide
  exact hzero

variable {S : StorageHand ι}

/-- The root directory is one cluster. -/
theorem read_rootdir (s : FatState ι) (buf : Int → UInt8) {bytes : List UInt8} {dev : ι}
    (hread : S.read s.dev 1024 512 = ((bytes, 512), dev)) (hlen : bytes.length = 512) :
    fatFileRead S fd rootdir s buf 512 0
      = (.ret 512, storeAt buf 0 bytes, { s with dev, tmp := storeAt s.tmp 0 bytes }) := by
  have hload := loadAt_storeAt s.tmp 0 bytes
  rw [hlen] at hload
  rw [fatFileRead, if_neg (by decide)]
  have hskip : fatSkip S fd (0 : Int).toNat s rootdir.firstCluster 0 = (.ok (1024, 0), s) := rfl
  rw [hskip]
  show fatCopy S fd 512 (511 + 1) s buf 1024 0 0 = _
  rw [fatCopy, if_pos (by decide)]
  have hcs : fd.clusterSize = 512 := rfl
  simp only [hcs, hread, Nat.sub_zero, Nat.cast_ofNat, ne_eq, not_true, if_false, hload,
    Nat.cast_zero]
  rw [fatCopy_done (by decide)]
  rfl

theorem read_rootdir_end (s : FatState ι) (buf : Int → UInt8) :
    fatFileRead S fd rootdir s buf 512 512 = (.ret (-1), buf, s) := by
  have hnext : fatGetNextCluster S fd s 1024 = (0, s) := by
    rw [fatGetNextCluster, if_pos (by decide), if_neg (by decide), if_neg (by decide)]
  have hskip : fatSkip S fd (511 + 1) s 1024 512 = (.error (.ret (-1)), s) := by
    rw [fatSkip, if_pos (by decide), hnext]
    rfl
  have hfirst : rootdir.firstCluster = 1024 := rfl
  have hfuel : (512 : Int).toNat = 511 + 1 := rfl
  rw [fatFileRead, if_neg (by decide), hfirst, hfuel, hskip]

/-- The first bytes of the entries, where the volume lies further on. -/
theorem shifted_first {m : Nat} (hm : 0 < m) (i : Nat) (hi : i < 16) :
    shifted (512 * m) (1024 + (i * sizeofFatDirent : Nat)) ≠ 0x41 := by
  rw [shifted]
  split
  · decide
  · next hge =>
      -- such an entry lies in the boot sector or in the FAT
      rw [vol, sizeofFatDirent]
      split_ifs <;> first | decide | omega

/-- The search for `A` on the volume that lies further on. -/
theorem find_shifted {m : Nat} (hm : 0 < m) (s : FatSearch Unit) :
    (fatFsFindLoop (bare (disk (shifted (512 * m)))) fd rootdir [0x41] 2 s 0).1 = .fail := by
  have hlen : (loadAt (shifted (512 * m)) 1024 512).length = 512 := length_loadAt _ _ _
  have hread : (bare (disk (shifted (512 * m)))).read s.lookup.dev 1024 512
      = ((loadAt (shifted (512 * m)) 1024 512, 512), ()) := rfl
  have hfirst := read_rootdir s.lookup s.dirents hread hlen
  -- the cluster at the unshifted place holds none of the volume's entries
  have hscan : fatScanDirents 1 fd (storeAt s.dirents 0 (loadAt (shifted (512 * m)) 1024 512)) [0x41]
      (List.range (fd.clusterSize / sizeofFatDirent)) = .fail := by
    apply fatScanDirents_other (by decide)
    intro i hi
    have hlt : i < 16 := List.mem_range.mp hi
    have hcell : i * sizeofFatDirent < 512 := by
      rw [sizeofFatDirent]
      omega
    have hstored : storeAt s.dirents 0 (loadAt (shifted (512 * m)) 1024 512)
        (0 + (i * sizeofFatDirent : Nat)) = shifted (512 * m) (1024 + (i * sizeofFatDirent : Nat)) :=
      storeAt_loadAt _ _ hcell
    rw [Int.zero_add] at hstored
    rw [hstored]
    exact shifted_first hm i hlt
  have hpos : s32 (0 + (fd.clusterSize : Nat)) = 512 := by decide
  have hcs : fd.clusterSize = 512 := rfl
  rw [fatFsFindLoop, hcs, hfirst]
  dsimp only
  rw [if_neg (by decide)]
  rw [hcs] at hscan hpos
  rw [hscan]
  dsimp only
  -- the next read is behind the root directory and fails
  rw [hpos, fatFsFindLoop, hcs, read_rootdir_end]
  dsimp only
  rw [if_pos (by decide)]

theorem fat12Boot : Fat12Boot (disk vol) bootsec where
  whole := disk_wholeBlocks vol
  read := ⟨loadAt vol 0 512, rfl, fun tmp => by
    rw [fatBootsector_read, bootsec_eq]⟩
  bytesPerSector_pos := by decide
  sectorsPerCluster_pos := by decide
  reservedSectors_pos := by decide
  fatCopies_pos := by decide
  rootDirEntries_pos := by decide

def start : FatSearch Unit := ⟨⟨(), ⟨fun _ => 1, fun _ => 0, fun _ => 0⟩, fun _ => 0⟩, fun _ => 0⟩

/-- The client that looks for `A`. -/
def lookForA : List FsOp := [.find none ⟨false, 0, 0⟩ [0x41]]

/-- At its place the file is found. -/
theorem session_unshifted : fsSession (bare (disk vol)) start 0 2 lookForA
    = some [.found (.ok ⟨false, 0, 512⟩)] := by
  decide +kernel

theorem session_shifted {m : Nat} (hm : 0 < m) :
    fsSession (bare (disk (shifted (512 * m)))) start (512 * m : Nat) 2 lookForA
      = some [.found .fail] := by
  -- the boot sector is read through the offset and is the right one
  have hread : (bare (disk (shifted (512 * m)))).read () (512 * m : Nat) 512
      = ((loadAt vol 0 512, 512), ()) := by
    have hholds := (holdsAt_shifted (512 * m)).1 () 0 512 (Int.le_refl 0)
    rw [Int.add_zero] at hholds
    exact Prod.ext hholds rfl
  obtain ⟨hfd, hroot⟩ := populate_eq (512 * m : Nat)
  have hone (find : FatSearch Unit → Option FatFile → List UInt8 → FindRet FatFile × FatSearch Unit)
      (s : FatSearch Unit) :
      fsFindfile find FatFile.directory s none ⟨false, 0, 0⟩ [0x41] = find s none [0x41] := rfl
  rw [fsSession, fsFatInit, hread]
  simp only [fatBootsector_read, bootsec_eq, ne_eq, not_true, if_false]
  generalize (⟨⟨(), start.lookup.cache, storeAt start.lookup.tmp 0 (loadAt vol 0 512)⟩,
    start.dirents⟩ : FatSearch Unit) = s
  rw [lookForA, fsRun, fatFindfile]
  simp only [Option.bind_none, hone, fatFsFind, hfd, hroot, Option.getD_none]
  rw [if_neg (by decide)]
  have hfind := find_shifted hm s
  generalize fatFsFindLoop (bare (disk (shifted (512 * m)))) fd rootdir [0x41] 2 s 0 = r at hfind ⊢
  obtain ⟨r, t⟩ := r
  dsimp only at hfind
  subst hfind
  rfl

end SmallVolume

theorem not_offsetTransparent {m : Nat} (hm : 0 < m) : ¬ OffsetTransparent (512 * m : Nat) := by
  intro h
  have hsame := h Unit Unit _ _ (disk SmallVolume.vol) SmallVolume.bootsec SmallVolume.fat12Boot
    (holdsAt_shifted (512 * m)) (holdsAt_disk SmallVolume.vol) SmallVolume.start
    SmallVolume.start rfl 2 SmallVolume.lookForA
  rw [SmallVolume.session_unshifted, SmallVolume.session_shifted hm] at hsame
  exact absurd hsame (by decide)

/-- Among the offsets of sectors the driver is transparent to 0 alone.  At
    any of them it does what it does at 0 if the storage also answers from its
    start as the image does, because it reads the boot sector at the offset
    and everything else there. -/
theorem fs_offset_iff (m : Nat) :
    (OffsetTransparent (512 * m : Nat) ↔ m = 0) ∧
      ∀ (ι κ : Type) (S : StorageHand ι) (S₀ : StorageHand κ) (img : StorageImage),
        Answers S img → img (512 * m : Nat) 512 = img 0 512 → HoldsAt S₀ 0 img →
        ∀ (s : FatSearch ι) (s₀ : FatSearch κ), s.forget = s₀.forget →
        ∀ (fuel : Nat) (ops : List FsOp),
          fsSession S s (512 * m : Nat) fuel ops = fsSession S₀ s₀ 0 fuel ops := by
  refine ⟨⟨fun h => ?_, ?_⟩, ?_⟩
  · by_contra hm
    exact not_offsetTransparent (Nat.pos_of_ne_zero hm) h
  · rintro rfl
    exact offsetTransparent_zero
  · intro ι κ S S₀ img hS hboot hS₀ s s₀ hs fuel ops
    rw [fsSession_bare hS s hboot, fsSession_bare hS₀.answers s₀ rfl, hs]

/-- At the second sector already the file is lost. -/
theorem fs_offset_lost : ¬ OffsetTransparent 512 := not_offsetTransparent Nat.one_pos

end LBoot.Storage
