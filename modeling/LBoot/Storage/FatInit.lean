/-
  LBoot.Storage.FatInit

  `fs_fat_init` (src/storage/fs/fat.c): the geometry of a FAT12 volume from
  its boot sector.

  `bootsec`, the `fat_data_t` and the cache buffer come from `alloc`, which
  does not clear memory.  The driver's state holds them from the start:
  `s.tmp` is the buffer for the boot sector, and `s.cache` is what lies in the
  memory of the cache, which `fs_fat_init` leaves as it is.
-/

import LBoot.Storage.Fat
import LBoot.Lib.Records

namespace LBoot.Storage

open LBoot.Lib

/-- `fat_bootsector_t`, the fields the driver reads. -/
structure FatBootsector where
  bytesPerSector : Nat
  sectorsPerCluster : Nat
  reservedSectors : Nat
  fatCopies : Nat
  rootDirEntries : Nat
  totalSectors : Nat
  sectorsPerFat : Nat
  deriving DecidableEq, Repr

/-- The fields at their places in the buffer. -/
def fatBootsector (bootsec : Int → UInt8) : FatBootsector where
  bytesPerSector := memField bootsec 11 2
  sectorsPerCluster := memField bootsec 13 1
  reservedSectors := memField bootsec 14 2
  fatCopies := memField bootsec 16 1
  rootDirEntries := memField bootsec 17 2
  totalSectors := memField bootsec 19 2
  sectorsPerFat := memField bootsec 22 2

/-- `sizeof(fat_dirent_t)`. -/
abbrev sizeofFatDirent : Nat := 32

/-- `fs_hand_t` with its `fat_data_t`, apart from the cache. -/
structure FsHand where
  fsOffset : Int
  fsSize : Nat
  fdata : FatData
  fatSize : Nat
  rootdir : FatFile
  deriving DecidableEq, Repr

/-- The handle `fs_fat_init` fills in from the boot sector. -/
def fatPopulate (off : Int) (bootsec : FatBootsector) : FsHand :=
  let sectorSize := bootsec.bytesPerSector
  -- both sizes are `uint16_t`
  let clusterSize := bootsec.sectorsPerCluster * sectorSize % 2 ^ 16
  let fatOffset := s32 (bootsec.reservedSectors * sectorSize : Nat)
  let fatSize := u32 (bootsec.sectorsPerFat * sectorSize)
  let rootdirFirst := s32 (fatOffset + u32 (fatSize * bootsec.fatCopies))
  let dataOffset := s32 (rootdirFirst + u32 (bootsec.rootDirEntries * sizeofFatDirent))
  { fsOffset := off
    fsSize := u32 (bootsec.totalSectors * sectorSize)
    fdata := { sectorSize, clusterSize, fatOffset, dataOffset, rootdirFirst }
    fatSize
    rootdir := { directory := true, size := 0, firstCluster := rootdirFirst } }

variable {ι : Type*}

/-- `fs_fat_init`; `none` is its return value of -1. -/
def fsFatInit (S : StorageHand ι) (s : FatState ι) (off : Int) : Option FsHand × FatState ι :=
  match S.read s.dev off 512 with
  | ((bytes, ret), dev) =>
      let tmp := storeAt s.tmp 0 bytes
      if ret ≠ 512 then (none, { s with dev, tmp })
      else (some (fatPopulate off (fatBootsector tmp)), { s with dev, tmp })

/-- Behind `fs_fat_init` the cache holds what `alloc` returned. -/
theorem fsFatInit_cache (S : StorageHand ι) (s : FatState ι) (off : Int) :
    (fsFatInit S s off).2.cache = s.cache := by
  rw [fsFatInit]
  dsimp only
  split <;> rfl

/-- The boot sector read is the one that lies there. -/
theorem fatBootsector_read (vol tmp : Int → UInt8) :
    fatBootsector (storeAt tmp 0 (loadAt vol 0 512)) = fatBootsector vol := by
  have hfield (a w : Nat) (h : a + w ≤ 512) :
      memField (storeAt tmp 0 (loadAt vol 0 512)) a w = memField vol a w := by
    have hload := loadAt_storeAt tmp 0 (loadAt vol 0 512)
    rw [length_loadAt] at hload
    have hin := loadAt_inside hload h
    rw [drop_loadAt _ _ (by omega), take_loadAt _ _ (by omega), Int.zero_add] at hin
    rw [memField, memField, hin]
  simp only [fatBootsector, hfield 11 2 (by omega), hfield 13 1 (by omega), hfield 14 2 (by omega),
    hfield 16 1 (by omega), hfield 17 2 (by omega), hfield 19 2 (by omega), hfield 22 2 (by omega)]

/-! ## A small volume -/

namespace SmallVolume

/-- A boot sector, one sector of FAT, and one of root directory, with the
    file `A`. -/
def vol (x : Int) : UInt8 :=
  if x = 12 then 2 else if x = 13 ∨ x = 14 ∨ x = 16 ∨ x = 22 then 1 else if x = 17 then 16
  else if x = 512 then 0xf0 else if x = 513 ∨ x = 514 then 0xff
  else if x = 1024 then 0x41 else if 1024 < x ∧ x < 1035 then 0x20 else 0

def storage : StorageHand Unit := ⟨fun d off n => ((loadAt vol off n, n), d)⟩

def bootsec : FatBootsector := ⟨512, 1, 1, 1, 16, 0, 1⟩

theorem bootsec_eq : fatBootsector vol = bootsec := by decide +kernel

theorem storage_init (c : FatCache) :
    (fsFatInit storage ⟨(), c, fun _ => 0⟩ 0).1 = some (fatPopulate 0 bootsec) := by
  rw [← bootsec_eq, ← fatBootsector_read vol fun _ => 0]
  rfl

end SmallVolume

end LBoot.Storage
