/-
  LBoot.Storage.FatFind

  Searching a directory of a FAT12 volume (src/storage/fs/fat.c).

  A directory is read cluster by cluster through `_fat_file_read`; that there
  is no more of it shows in a read that fails.  `dirents` is the buffer of
  the search, a memory of its own: a comparison may well run past the name it
  is about, into the fields behind it.

  The scratch buffer of a read is the block the read before has freed; so is
  the buffer of a search.
-/

import LBoot.Storage.FatInit
import LBoot.Storage.Fs

namespace LBoot.Storage

open LBoot.Lib

/-- `FAT_DIRENT_ATTR_VOLUMELABEL`. -/
def fatDirentAttrVolumelabel : Nat := 1 <<< 3

/-- `FAT_DIRENT_ATTR_DIRECTORY`. -/
def fatDirentAttrDirectory : Nat := 1 <<< 4

/-- `FAT_DIRENT_ATTR_DEVICE`. -/
def fatDirentAttrDevice : Nat := 1 <<< 6

/-- `FAT_DIRENT_ATTR_RESERVED`. -/
def fatDirentAttrReserved : Nat := 1 <<< 7

/-- `fat_dirent_t`, the fields behind the name. -/
structure FatDirent where
  attr : Nat
  startCluster : Nat
  filesize : Nat
  deriving DecidableEq, Repr

/-- Entry `i` of the buffer. -/
def fatDirent (dirents : Int → UInt8) (i : Nat) : FatDirent where
  attr := memField dirents (i * sizeofFatDirent + 11) 1
  startCluster := memField dirents (i * sizeofFatDirent + 26) 2
  filesize := memField dirents (i * sizeofFatDirent + 28) 4

/-! ## Names -/

/-- The loop over blanks of `_fat_strcmp`; `none` if it has not ended by
    then. -/
def fatSkipBlanks (fatName : Nat → UInt8) : Nat → Nat → Option Nat
  | 0, _ => none
  | fuel + 1, fidx => if fatName fidx = 0x20 then fatSkipBlanks fatName fuel (fidx + 1) else some fidx

/-- `_fat_strcmp` from `fidx` on. -/
def fatStrcmpFrom (fuel : Nat) (fatName : Nat → UInt8) : List UInt8 → Nat → Option Int
  | [], fidx =>
      -- a trailing character
      if (List.range' fidx (11 - fidx)).any fun k => fatName k ≠ 0x20 then some (-1) else some 0
  | c :: filename, fidx =>
      if c = 0x2e then (fatSkipBlanks fatName fuel fidx).bind (fatStrcmpFrom fuel fatName filename)
      else if fatName fidx ≠ c then some (-1)
      else fatStrcmpFrom fuel fatName filename (fidx + 1)

/-- `_fat_strcmp`. -/
def fatStrcmp (fuel : Nat) (fatName : Nat → UInt8) (filename : List UInt8) : Option Int :=
  fatStrcmpFrom fuel fatName filename 0

/-! ## Directories -/

/-- `_fat_pop_file`. -/
def fatPopFile (fd : FatData) (dent : FatDirent) : FatFile where
  directory := dent.attr &&& fatDirentAttrDirectory ≠ 0
  size := dent.filesize
  firstCluster := s32 (fd.dataOffset + (dent.startCluster - 2) * fd.clusterSize)

/-- The entries of one cluster, in order, up to the one looked for. -/
def fatScanDirents (fuel : Nat) (fd : FatData) (dirents : Int → UInt8) (name : List UInt8) :
    List Nat → FindRet FatFile
  | [] => .fail
  | i :: is =>
      match fatStrcmp fuel (fun k => dirents (i * sizeofFatDirent + k : Nat)) name with
      | none => .stuck
      | some r =>
          let dent := fatDirent dirents i
          if r = 0 ∧ dent.attr &&&
              (fatDirentAttrVolumelabel ||| fatDirentAttrDevice ||| fatDirentAttrReserved) = 0 then
            .ok (fatPopFile fd dent)
          else fatScanDirents fuel fd dirents name is

/-- The state of a search: that of the lookups, and its buffer. -/
structure FatSearch (ι : Type*) where
  lookup : FatState ι
  dirents : Int → UInt8

variable {ι : Type*}

/-- The loop of `_fat_fs_find`, from the place `pos` of the directory on. -/
def fatFsFindLoop (S : StorageHand ι) (fd : FatData) (dir : FatFile) (name : List UInt8) :
    Nat → FatSearch ι → Int → FindRet FatFile × FatSearch ι
  | 0, s, _ => (.stuck, s)
  | fuel + 1, s, pos =>
      match fatFileRead S fd dir s.lookup s.dirents fd.clusterSize pos with
      | (.panic, dirents, lookup) => (.panic, ⟨lookup, dirents⟩)
      | (.stuck, dirents, lookup) => (.stuck, ⟨lookup, dirents⟩)
      | (.ret r, dirents, lookup) =>
          -- any failure is taken for the end of the directory
          if r ≠ fd.clusterSize then (.fail, ⟨lookup, dirents⟩)
          else
            match fatScanDirents fuel fd dirents name
                (List.range (fd.clusterSize / sizeofFatDirent)) with
            | .fail => fatFsFindLoop S fd dir name fuel ⟨lookup, dirents⟩ (s32 (pos + fd.clusterSize))
            | found => (found, ⟨lookup, dirents⟩)

/-- `_fat_fs_find`. -/
def fatFsFind (S : StorageHand ι) (fs : FsHand) (fuel : Nat) (s : FatSearch ι)
    (dir : Option FatFile) (name : List UInt8) : FindRet FatFile × FatSearch ι :=
  let dir := dir.getD fs.rootdir
  if name = [0x2e] then (.ok dir, s) else fatFsFindLoop S fs.fdata dir name fuel s 0

/-- `fs_findfile` on a FAT volume. -/
def fatFindfile (S : StorageHand ι) (fs : FsHand) (fuel : Nat) (s : FatSearch ι)
    (dir : Option FatFile) (file : FatFile) (path : List UInt8) : FindRet FatFile × FatSearch ι :=
  fsFindfile (fatFsFind S fs fuel) FatFile.directory s dir file path

end LBoot.Storage
