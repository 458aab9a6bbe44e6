/-
  LBoot.Storage.Fat

  The FAT12 driver (src/storage/fs/fat.c): reading a file and everything it
  rests on, from the cache of FAT sectors up.

  The storage device is a parameter; it answers a read with some bytes and a
  return value.  Buffers are memories of their own, seen from their start:
  the scratch buffer `tmp` of one call, the cache buffer, and the caller's
  buffer.  What an allocation returns holds arbitrary bytes.

  The driver's state is passed from call to call.  A lookup changes the cache
  and the scratch buffer; the geometry and the file handle do not change.
-/

import LBoot.Lib.LittleEndian
import LBoot.Lib.Memory
import LBoot.Lib.Word32

namespace LBoot.Storage

open LBoot.Lib

/-- `storage_hand_t`. -/
structure StorageHand (ι : Type*) where
  /-- `read` at an offset, of so many bytes: the bytes put into the buffer,
      and the value returned -/
  read : ι → Int → Nat → (List UInt8 × Int) × ι

/-- `FAT_CACHE_CNT`. -/
abbrev fatCacheCnt : Nat := 4

/-- `fat_data_t.cache`. -/
structure FatCache where
  clust : Fin fatCacheCnt → Int
  rank : Fin fatCacheCnt → Nat
  buf : Int → UInt8

/-- `fat_data_t`, the geometry. -/
structure FatData where
  sectorSize : Nat
  clusterSize : Nat
  fatOffset : Int
  dataOffset : Int
  /-- `_rootdir_data.first_cluster` -/
  rootdirFirst : Int
  deriving DecidableEq, Repr

/-- `file_hand_t` with `fat_file_data_t`. -/
structure FatFile where
  /-- `attr & FS_FILEATTR_DIRECTORY` -/
  directory : Bool
  size : Nat
  firstCluster : Int
  deriving DecidableEq, Repr

/-- The state a lookup changes. -/
structure FatState (ι : Type*) where
  dev : ι
  cache : FatCache
  tmp : Int → UInt8

/-! ## The cache -/

/-- `_fat_cache_touch`. -/
def fatCacheTouch (c : FatCache) (idx : Fin fatCacheCnt) : FatCache :=
  { c with rank := fun i =>
      if i = idx then 0 else if c.rank i < c.rank idx then c.rank i + 1 else c.rank i }

/-- The slot `_fat_try_cache` finds. -/
def fatCacheFind (c : FatCache) (clust : Int) : Option (Fin fatCacheCnt) :=
  (List.finRange fatCacheCnt).find? fun i => c.clust i = clust

variable {ι : Type*}

/-- `_fat_try_cache`: whether the sector was cached; if so it is in `tmp`. -/
def fatTryCache (fd : FatData) (s : FatState ι) (clust : Int) : Bool × FatState ι :=
  match fatCacheFind s.cache clust with
  | none => (false, s)
  | some i =>
      let cache := if s.cache.rank i ≠ 0 then fatCacheTouch s.cache i else s.cache
      (true, { s with
        cache
        tmp := storeAt s.tmp 0 (loadAt cache.buf (i * fd.clusterSize) fd.clusterSize) })

/-- The slot of the highest rank, the first one of several. -/
def fatCacheOldest (c : FatCache) : Fin fatCacheCnt :=
  [1, 2, 3].foldl (fun entry i => if c.rank i > c.rank entry then i else entry) 0

/-- `_fat_add_cache`. -/
def fatAddCache (fd : FatData) (c : FatCache) (buf : List UInt8) (clust : Int) : FatCache :=
  let entry := fatCacheOldest c
  fatCacheTouch
    { c with
      clust := fun i => if i = entry then clust else c.clust i
      buf := storeAt c.buf (entry * fd.clusterSize) buf } entry

/-! ## Lookups -/

/-- The `switch` of `_fat_read_fat_data`. -/
def fatMask (sz : Nat) (data : Nat) : Nat :=
  match sz with
  | 1 => data &&& 0x000000FF
  | 2 => data &&& 0x0000FFFF
  | 3 => data &&& 0x00FFFFFF
  | 4 => data &&& 0xFFFFFFFF
  | _ => 0xFFFFFFFF

/-- `_fat_read_fat_data` up to the end of its outer `if`: whether the sector
    at `readAddr` and what follows it is in `tmp`. -/
def fatFetch (S : StorageHand ι) (fd : FatData) (s : FatState ι) (readAddr : Int) :
    Bool × FatState ι :=
  match fatTryCache fd s readAddr with
  | (true, s) => (true, s)
  | (false, s) =>
      match S.read s.dev readAddr fd.clusterSize with
      | ((bytes, ret), dev) =>
          let tmp := storeAt s.tmp 0 bytes
          if ret ≠ fd.clusterSize then (false, { s with dev, tmp })
          else
            let cache := fatAddCache fd s.cache (loadAt tmp 0 fd.clusterSize) readAddr
            (true, { dev, tmp, cache })

/-- `_fat_read_fat_data`. -/
def fatReadFatData (S : StorageHand ι) (fd : FatData) (s : FatState ι) (off : Int) (sz : Nat) :
    Nat × FatState ι :=
  let readAddr := off - off.tmod fd.sectorSize
  match fatFetch S fd s readAddr with
  | (false, s) => (0xffffffff, s)
  | (true, s) => (fatMask sz (leNat (loadAt s.tmp (off - readAddr) 4)), s)

/-- `_fat_get_fat_entry`.  Of the two lookups of an entry split across a
    cluster boundary, the lower byte is taken first. -/
def fatGetFatEntry (S : StorageHand ι) (fd : FatData) (s : FatState ι) (clustNum : Nat) :
    Nat × FatState ι :=
  let fatEntryOffset := s32 (fd.fatOffset + (u32 (clustNum * 3) / 2 : Nat))
  let (fatEntry, s) :=
    if fatEntryOffset.tmod fd.clusterSize = fd.clusterSize - 1 then
      let (lo, s) := fatReadFatData S fd s fatEntryOffset 1
      let (hi, s) := fatReadFatData S fd s (fatEntryOffset + 1) 1
      ((lo ||| (hi <<< 8)) % 2 ^ 16, s)
    else
      let (w, s) := fatReadFatData S fd s fatEntryOffset 2
      (w % 2 ^ 16, s)
  let fatEntry := if clustNum &&& 1 ≠ 0 then fatEntry >>> 4 else fatEntry
  (fatEntry &&& 0xfff, s)

/-- `_fat_get_next_cluster`: zero at the end of the chain. -/
def fatGetNextCluster (S : StorageHand ι) (fd : FatData) (s : FatState ι) (currClust : Int) :
    Int × FatState ι :=
  if currClust < fd.dataOffset then
    if currClust < fd.rootdirFirst then (0, s)
    else if s32 (currClust + fd.clusterSize) < fd.dataOffset then
      (s32 (currClust + fd.clusterSize), s)
    else (0, s)
  else
    let clustNum := toU32 ((currClust - fd.dataOffset).tdiv fd.clusterSize + 2)
    let (fatEntry, s) := fatGetFatEntry S fd s clustNum
    if fatEntry ≥ 0x002 ∧ fatEntry ≤ 0xff0 then
      (s32 (fd.dataOffset + ((fatEntry - 2) * fd.clusterSize : Nat)), s)
    else (0, s)

/-! ## Reading a file -/

/-- How `_fat_file_read` ends. -/
inductive FatRet where
  | panic
  /-- not within the iterations allowed -/
  | stuck
  | ret (r : Int)
  deriving DecidableEq, Repr

/-- The loop that skips to the cluster of the first byte: its address, and the
    offset that is left. -/
def fatSkip (S : StorageHand ι) (fd : FatData) :
    Nat → FatState ι → Int → Int → Except FatRet (Int × Int) × FatState ι
  | 0, s, cluster, off =>
      if off ≥ fd.clusterSize then (.error .stuck, s) else (.ok (cluster, off), s)
  | fuel + 1, s, cluster, off =>
      if off ≥ fd.clusterSize then
        match fatGetNextCluster S fd s cluster with
        | (cluster, s) =>
            if cluster = 0 then (.error (.ret (-1)), s)
            else fatSkip S fd fuel s cluster (off - fd.clusterSize)
      else (.ok (cluster, off), s)

/-- The loop that copies cluster by cluster. -/
def fatCopy (S : StorageHand ι) (fd : FatData) (sz : Nat) :
    Nat → FatState ι → (Int → UInt8) → Int → Int → Nat → FatRet × (Int → UInt8) × FatState ι
  | 0, s, buf, _, _, pos => (if pos < sz then .stuck else .ret sz, buf, s)
  | fuel + 1, s, buf, cluster, off, pos =>
      if pos < sz then
        match S.read s.dev cluster fd.clusterSize with
        | ((bytes, ret), dev) =>
            let s := { s with dev, tmp := storeAt s.tmp 0 bytes }
            if ret ≠ fd.clusterSize then (.ret (-1), buf, s)
            else if sz - pos ≤ toU32 (fd.clusterSize - off) then
              let buf := storeAt buf pos (loadAt s.tmp off (sz - pos))
              fatCopy S fd sz fuel s buf cluster 0 (u32 (pos + fd.clusterSize))
            else
              let buf := storeAt buf pos (loadAt s.tmp 0 (toU32 (fd.clusterSize - off)))
              match fatGetNextCluster S fd s cluster with
              | (cluster, s) =>
                  if cluster = 0 then (.ret (-1), buf, s)
                  else fatCopy S fd sz fuel s buf cluster 0 (u32 (pos + fd.clusterSize))
      else (.ret sz, buf, s)

/-- `_fat_file_read`; `s.tmp` is the scratch buffer as it comes from `alloc`.
    Each loop is given more iterations than it can need if clusters are not
    empty. -/
def fatFileRead (S : StorageHand ι) (fd : FatData) (file : FatFile) (s : FatState ι)
    (buf : Int → UInt8) (sz : Nat) (off : Int) : FatRet × (Int → UInt8) × FatState ι :=
  if ¬ file.directory ∧ toU32 (off + sz) > file.size then (.panic, buf, s)
  else
    match fatSkip S fd off.toNat s file.firstCluster off with
    | (.error r, s) => (r, buf, s)
    | (.ok (cluster, off), s) => fatCopy S fd sz sz s buf cluster off 0

end LBoot.Storage
