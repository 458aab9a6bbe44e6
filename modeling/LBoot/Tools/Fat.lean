/-
  LBoot.Tools.Fat

  The FAT12 reader of the tools (tools/sector_mapper/src/fat.c).

  It is a program of its own: it works on the image file, with `pread` and
  64-bit offsets, and keeps no cache.  Its boot sector has the layout of the
  loader's.
-/

import LBoot.Storage.FatInit

namespace LBoot.Tools

open LBoot.Lib LBoot.Storage

/-- `pread` of so many bytes at an offset: the bytes it delivers.  It returns
    their number. -/
abbrev Pread := Nat → Int → List UInt8

/-- `fat_file_handle_t`. -/
structure FatFileHandle where
  size : Nat
  firstCluster : Int
  attr : Nat
  deriving DecidableEq, Repr

/-- `fat_handle_t`; the boot sector is not used behind `fat_open`. -/
structure FatHandle where
  clusterSize : Nat
  fatOffset : Int
  fatSize : Nat
  dataOffset : Int
  rootDir : FatFileHandle
  deriving DecidableEq, Repr

/-- The handle `fat_open` fills in from the boot sector. -/
def fatHandle (bootsector : FatBootsector) : FatHandle :=
  let fatOffset : Int := (bootsector.reservedSectors * bootsector.bytesPerSector : Nat)
  let fatSize := bootsector.sectorsPerFat * bootsector.bytesPerSector
  let firstCluster := fatOffset + (fatSize * bootsector.fatCopies : Nat)
  let size := bootsector.rootDirEntries * sizeofFatDirent
  { clusterSize := bootsector.sectorsPerCluster * bootsector.bytesPerSector
    fatOffset
    fatSize
    dataOffset := firstCluster + size
    rootDir := { size, firstCluster, attr := 0 } }

/-- `fat_open` of a file that can be opened; `none` is its return value of
    -1. -/
def fatOpen (pread : Pread) : Option FatHandle :=
  let bootsector := pread 512 0
  if bootsector.length ≠ 512 then none
  else some (fatHandle (fatBootsector (storeAt (fun _ => 0) 0 bootsector)))

/-- `_get_fat_entry`. -/
def getFatEntry (pread : Pread) (hand : FatHandle) (clusterNum : Nat) : Nat :=
  let fatEntry := pread 2 (hand.fatOffset + (u32 (clusterNum * 3) / 2 : Nat))
  if fatEntry.length ≠ 2 then 0xFFFFFFFF
  else
    let fatEntry := leNat fatEntry
    let fatEntry := if clusterNum &&& 1 ≠ 0 then fatEntry >>> 4 else fatEntry
    fatEntry &&& 0xfff

/-- `_get_next_cluster`: zero at the end of the chain. -/
def getNextCluster (pread : Pread) (hand : FatHandle) (cluster : Int) : Int :=
  if cluster < hand.dataOffset then
    if cluster < hand.rootDir.firstCluster then 0
    else if cluster + hand.clusterSize < hand.dataOffset then cluster + hand.clusterSize
    else 0
  else
    let clusterNum := toU32 ((cluster - hand.dataOffset).tdiv hand.clusterSize + 2)
    let fatEntry := getFatEntry pread hand clusterNum
    if fatEntry ≥ 0x002 ∧ fatEntry < 0xff0 then
      hand.dataOffset + ((fatEntry - 2) * hand.clusterSize : Nat)
    else 0

end LBoot.Tools
