/-
  LBoot.Boot.SectorMap

  The sector map that tells the boot sector where the second stage lies: the
  tool that writes it (tools/sector_mapper) and the routine that follows it
  (stage1/inc/read_sector_map.inc).

  The disk image is a memory of bytes.  The routine is taken label by label;
  its registers are 16 bits wide.  A data sector read is recorded with its
  destination; that data is taken to land outside the chunk buffer and the
  boot sector, so it leaves the memory the routine looks at alone.
-/

import LBoot.Lib.LittleEndian
import LBoot.Lib.Memory
import Mathlib.Computability.StateTransition

namespace LBoot.Boot

open LBoot.Lib

/-! ## The tool -/

/-- `sector_map_entry_t`. -/
structure SectorMapEntry where
  sector : Nat
  count : Nat
  deriving DecidableEq, Repr

/-- `SECTOR_MAP_ENTRIES`. -/
abbrev sectorMapEntries : Nat := (512 - 4) / 4

/-- `sector_map_chunk_t`. -/
structure SectorMapChunk where
  entries : Vector SectorMapEntry sectorMapEntries
  nextChunk : Nat
  reserved : Nat
  deriving DecidableEq

/-- A chunk from `calloc`. -/
def zeroChunk : SectorMapChunk := ⟨Vector.replicate sectorMapEntries ⟨0, 0⟩, 0, 0⟩

def SectorMapEntry.bytes (e : SectorMapEntry) : List UInt8 := toLe 2 e.sector ++ toLe 2 e.count

/-- A chunk as it is written. -/
def SectorMapChunk.bytes (c : SectorMapChunk) : List UInt8 :=
  (c.entries.toList.map SectorMapEntry.bytes).flatten ++ (toLe 2 c.nextChunk ++ toLe 2 c.reserved)

/-- `fat_handle_t`, what the map depends on. -/
structure FatHandle where
  clusterSize : Nat
  sectorsPerCluster : Nat
  deriving DecidableEq, Repr

/-- The sector a cluster address stands for, as stored. -/
def FatHandle.sector (fat : FatHandle) (cluster : Nat) : Nat :=
  cluster / fat.clusterSize * fat.sectorsPerCluster % 2 ^ 16

/-- The loop that counts the map entries, behind the cluster `prev`. -/
def countBreaks (fat : FatHandle) : Nat → List Nat → Nat
  | _, [] => 0
  | prev, c :: cs =>
      (if c ≠ prev + fat.clusterSize then 1 else 0) + countBreaks fat c cs

/-- The state of the loop that fills the chunks. -/
structure MapFill where
  chunks : List SectorMapChunk
  cChunk : Nat
  cMap : Nat
  deriving DecidableEq

/-- Write an entry of a chunk. -/
def MapFill.put (f : MapFill) (e : SectorMapEntry) : MapFill :=
  { f with chunks := f.chunks.modify f.cChunk fun c =>
      { c with entries := c.entries.setIfInBounds f.cMap e } }

/-- Increment the count of an entry. -/
def MapFill.bump (f : MapFill) : MapFill :=
  { f with chunks := f.chunks.modify f.cChunk fun c =>
      let e := c.entries[f.cMap]?.getD ⟨0, 0⟩
      { c with entries := c.entries.setIfInBounds f.cMap ⟨e.sector, (e.count + 1) % 2 ^ 16⟩ } }

/-- The body of that loop, for the cluster `c` behind `prev`. -/
def mapFillStep (fat : FatHandle) (f : MapFill) (prev c : Nat) : MapFill :=
  if c ≠ prev + fat.clusterSize then
    let f := { f with cMap := f.cMap + 1 }
    let f := if f.cMap ≥ sectorMapEntries then { f with cMap := 0, cChunk := f.cChunk + 1 } else f
    f.put ⟨fat.sector c, 1⟩
  else f.bump

def mapFillLoop (fat : FatHandle) : MapFill → Nat → List Nat → MapFill
  | f, _, [] => f
  | f, prev, c :: cs => mapFillLoop fat (mapFillStep fat f prev c) c cs

/-- `_round1`: the chunks it writes to the map file, from the clusters of the
    second stage; `none` where it refuses, or reads a cluster that does not
    exist. -/
def round1 (fat : FatHandle) : List Nat → Option (List SectorMapChunk)
  | [] => none
  | c :: cs =>
      if fat.clusterSize ≠ 512 then none
      else
        let nMapEntries := 1 + countBreaks fat c cs
        let nChunks := nMapEntries / sectorMapEntries +
          if nMapEntries % sectorMapEntries ≠ 0 then 1 else 0
        let f : MapFill := ⟨List.replicate nChunks zeroChunk, 0, 0⟩
        some (mapFillLoop fat (f.put ⟨fat.sector c, 1⟩) c cs).chunks

/-- `offsetof(fat_bootsector_t, stage2_map_sector)`. -/
abbrev stage2MapSector : Nat := 506

/-- `offsetof(sector_map_chunk_t, next_chunk)`. -/
abbrev nextChunkOffset : Nat := 508

/-- The loop of `_round2`: the sector of each cluster goes where the one
    before has its link. -/
def round2Loop (fat : FatHandle) : Nat → (Int → UInt8) → List Nat → Int → UInt8
  | _, img, [] => img
  | preAddr, img, c :: cs =>
      round2Loop fat (c + nextChunkOffset) (storeAt img preAddr (toLe 2 (fat.sector c))) cs

/-- `_round2`, on the image and the clusters of the map file. -/
def round2 (fat : FatHandle) (img : Int → UInt8) (clusters : List Nat) : Option (Int → UInt8) :=
  if fat.clusterSize ≠ 512 then none else some (round2Loop fat stage2MapSector img clusters)

/-! ## The routine -/

/-- The general registers the routine uses. -/
structure Regs where
  ax : BitVec 16
  bx : BitVec 16
  cx : BitVec 16
  dx : BitVec 16
  si : BitVec 16
  deriving DecidableEq, Repr

/-- The labels of `read_sector_map`; `returned` is behind the `ret`. -/
inductive MapLabel where
  | readSectorMap
  | handleMapEntry
  | doMapRead
  | mapEnd
  | mapChainEnd
  | returned
  deriving DecidableEq, Repr

structure MapLoader where
  pc : MapLabel
  regs : Regs
  /-- what `pusha` saved -/
  saved : Regs
  /-- `bootldr.stage2_map_sector` -/
  mapSector : BitVec 16
  /-- `bootldr.stage2_addr` -/
  stage2Addr : BitVec 16
  mem : BitVec 16 → UInt8
  /-- the data sectors read, each with its destination -/
  reads : List (BitVec 16 × BitVec 16)

/-- `map_temp_addr`. -/
abbrev mapTempAddr : BitVec 16 := 0x1000

/-- `map_next_addr`. -/
abbrev mapNextAddr : BitVec 16 := mapTempAddr + 0x1fc

/-- The word at an address. -/
def memWord (mem : BitVec 16 → UInt8) (a : BitVec 16) : BitVec 16 :=
  BitVec.ofNat 16 (leNat [mem a, mem (a + 1)])

/-- `read_sector` of a map chunk. -/
def readChunk (img : Int → UInt8) (sector : BitVec 16) (mem : BitVec 16 → UInt8) :
    BitVec 16 → UInt8 := fun a =>
  if mapTempAddr.toNat ≤ a.toNat ∧ a.toNat < mapTempAddr.toNat + 512 then
    img (512 * sector.toNat + (a.toNat - mapTempAddr.toNat : Nat))
  else mem a

/-- From one label to the next. -/
def mapLoaderStep (img : Int → UInt8) (s : MapLoader) : Option MapLoader :=
  match s.pc with
  | .readSectorMap =>
      let regs : Regs := { s.regs with ax := s.mapSector, bx := mapTempAddr }
      some { s with
        pc := .handleMapEntry
        mem := readChunk img regs.ax s.mem
        saved := regs
        regs := { regs with bx := s.stage2Addr, si := mapTempAddr } }
  | .handleMapEntry =>
      let ax := memWord s.mem s.regs.si
      if ax = 0 then some { s with pc := .mapChainEnd, regs := { s.regs with ax } }
      else some { s with
        pc := .doMapRead
        regs := { s.regs with ax, cx := memWord s.mem (s.regs.si + 2) } }
  | .doMapRead =>
      let reads := s.reads ++ [(s.regs.ax, s.regs.bx)]
      let regs : Regs := { s.regs with
        bx := s.regs.bx + 512, ax := s.regs.ax + 1, cx := s.regs.cx - 1 }
      if regs.cx ≠ 0 then some { s with reads, regs }
      else
        let regs : Regs := { regs with si := regs.si + 4 }
        -- the comparison is a signed one
        if regs.dx.slt mapNextAddr then some { s with pc := .handleMapEntry, reads, regs }
        else some { s with pc := .mapEnd, reads, regs }
  | .mapEnd =>
      let si := memWord s.mem s.regs.si
      if si = 0 then some { s with pc := .mapChainEnd, regs := { s.regs with si } }
      else some { s with
        pc := .readSectorMap
        mapSector := si
        stage2Addr := s.regs.bx
        regs := s.saved }
  | .mapChainEnd => some { s with pc := .returned, regs := s.saved }
  | .returned => none

end LBoot.Boot
