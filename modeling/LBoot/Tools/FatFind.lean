/-
  LBoot.Tools.FatFind

  `fat_find_file` of the tools (tools/sector_mapper/src/fat.c).

  The comparison of names is the loader's, word for word.  The search around
  it is not: it goes along the cluster chain itself, keeps the offset of the
  cluster it is at, and leaves out entries that start with a zero byte.  As in
  the loader, the buffer of a search is the block the search before has freed.
-/

import LBoot.Storage.FatFind
import LBoot.Tools.Fat

namespace LBoot.Tools

open LBoot.Lib LBoot.Storage

/-- `_fat_strcmp`. -/
def fatStrcmp : Nat → (Nat → UInt8) → List UInt8 → Option Int := Storage.fatStrcmp

/-- `_populate_file_handle`. -/
def populateFileHandle (hand : FatHandle) (dirent : FatDirent) : FatFileHandle where
  size := dirent.filesize
  firstCluster := hand.dataOffset + ((dirent.startCluster : Int) - 2) * hand.clusterSize
  attr := dirent.attr

/-- The entries of one cluster, in order, up to the one looked for. -/
def scanDents (fuel : Nat) (hand : FatHandle) (dents : Int → UInt8) (filename : List UInt8) :
    List Nat → FindRet FatFileHandle
  | [] => .fail
  | i :: is =>
      if dents (i * sizeofFatDirent : Nat) = 0 ∨
          (fatDirent dents i).attr &&& fatDirentAttrVolumelabel ≠ 0 then
        scanDents fuel hand dents filename is
      else
        match fatStrcmp fuel (fun k => dents (i * sizeofFatDirent + k : Nat)) filename with
        | none => .stuck
        | some r =>
            if r = 0 then .ok (populateFileHandle hand (fatDirent dents i))
            else scanDents fuel hand dents filename is

/-- The loop of `fat_find_file`, from the cluster at `dentOff` on. -/
def findDent (pread : Pread) (hand : FatHandle) (filename : List UInt8) :
    Nat → (Int → UInt8) → Int → FindRet FatFileHandle × (Int → UInt8)
  | 0, dents, _ => (.stuck, dents)
  | fuel + 1, dents, dentOff =>
      if dentOff = 0 then (.fail, dents)
      else
        let bytes := pread hand.clusterSize dentOff
        let dents := storeAt dents 0 bytes
        if bytes.length ≠ hand.clusterSize then (.fail, dents)
        else
          match scanDents fuel hand dents filename
              (List.range (hand.clusterSize / sizeofFatDirent)) with
          | .fail => findDent pread hand filename fuel dents (getNextCluster pread hand dentOff)
          | found => (found, dents)

/-- `fat_find_file` of a name without separators. -/
def findName (pread : Pread) (hand : FatHandle) (fuel : Nat) (dents : Int → UInt8)
    (dir : FatFileHandle) (filename : List UInt8) : FindRet FatFileHandle × (Int → UInt8) :=
  if filename.length > 11 then (.fail, dents)
  else findDent pread hand filename fuel dents dir.firstCluster

/-- The directories on the way, and the file in the last of them. -/
def findPath (pread : Pread) (hand : FatHandle) (fuel : Nat) :
    (Int → UInt8) → FatFileHandle → List (List UInt8) → FindRet FatFileHandle × (Int → UInt8)
  | dents, _, [] => (.fail, dents)
  | dents, dir, [filename] => findName pread hand fuel dents dir filename
  | dents, dir, dirname :: rest =>
      match findName pread hand fuel dents dir dirname with
      | (.ok tmp, dents) =>
          if tmp.attr &&& fatDirentAttrDirectory ≠ 0 then findPath pread hand fuel dents tmp rest
          else (.fail, dents)
      | (r, dents) => (r, dents)

/-- A directory on the way is searched for the next one. -/
theorem findPath_on {pread : Pread} {hand : FatHandle} (fuel : Nat) (dents : Int → UInt8)
    (dir : FatFileHandle) (dirname next : List UInt8) (rest : List (List UInt8)) :
    findPath pread hand fuel dents dir (dirname :: next :: rest) =
      match findName pread hand fuel dents dir dirname with
      | (.ok tmp, dents) =>
          if tmp.attr &&& fatDirentAttrDirectory ≠ 0 then
            findPath pread hand fuel dents tmp (next :: rest)
          else (.fail, dents)
      | (r, dents) => (r, dents) := rfl

/-- `fat_find_file`. -/
def fatFindFile (pread : Pread) (hand : FatHandle) (fuel : Nat) (dents : Int → UInt8)
    (dir : FatFileHandle) (filename : List UInt8) : FindRet FatFileHandle × (Int → UInt8) :=
  let (dir, filename) := match filename with
    | c :: rest => if c = fsPathsep then (hand.rootDir, rest) else (dir, filename)
    | [] => (dir, filename)
  findPath pread hand fuel dents dir (filename.splitOn fsPathsep)

end LBoot.Tools
