/-
  LBoot.Tools.FatReads

  What the tools read of an image (tools/sector_mapper/src/fat.c) behind
  `fat_open`: the `pread`s of a search and of a cluster list, in their order.

  These are all that the results depend on (`fatFindFile_congr`,
  `fatGetFileClusters_congr`).
-/

import LBoot.Tools.FatClusters
import LBoot.Tools.FatFind

namespace LBoot.Tools

open LBoot.Lib LBoot.Storage

/-- Another way of reading delivers the same there. -/
def SameReads (pread pread' : Pread) (reads : List (Nat × Int)) : Prop :=
  ∀ r ∈ reads, pread' r.1 r.2 = pread r.1 r.2

/-- The reads of `_get_next_cluster`. -/
def getNextClusterReads (hand : FatHandle) (cluster : Int) : List (Nat × Int) :=
  if cluster < hand.dataOffset then []
  else
    let clusterNum := toU32 ((cluster - hand.dataOffset).tdiv hand.clusterSize + 2)
    [(2, hand.fatOffset + (u32 (clusterNum * 3) / 2 : Nat))]

/-- The reads of the loop of `fat_find_file`. -/
def findDentReads (pread : Pread) (hand : FatHandle) (filename : List UInt8) :
    Nat → (Int → UInt8) → Int → List (Nat × Int)
  | 0, _, _ => []
  | fuel + 1, dents, dentOff =>
      if dentOff = 0 then []
      else
        let bytes := pread hand.clusterSize dentOff
        let dents := storeAt dents 0 bytes
        (hand.clusterSize, dentOff) ::
          if bytes.length ≠ hand.clusterSize then []
          else
            match scanDents fuel hand dents filename
                (List.range (hand.clusterSize / sizeofFatDirent)) with
            | .fail => getNextClusterReads hand dentOff ++
                findDentReads pread hand filename fuel dents (getNextCluster pread hand dentOff)
            | _ => []

/-- The reads of a search for a name without separators. -/
def findNameReads (pread : Pread) (hand : FatHandle) (fuel : Nat) (dents : Int → UInt8)
    (dir : FatFileHandle) (filename : List UInt8) : List (Nat × Int) :=
  if filename.length > 11 then []
  else findDentReads pread hand filename fuel dents dir.firstCluster

/-- The reads of the search for the directories on the way, and the file. -/
def findPathReads (pread : Pread) (hand : FatHandle) (fuel : Nat) :
    (Int → UInt8) → FatFileHandle → List (List UInt8) → List (Nat × Int)
  | _, _, [] => []
  | dents, dir, [filename] => findNameReads pread hand fuel dents dir filename
  | dents, dir, dirname :: rest =>
      findNameReads pread hand fuel dents dir dirname ++
        match findName pread hand fuel dents dir dirname with
        | (.ok tmp, dents) =>
            if tmp.attr &&& fatDirentAttrDirectory ≠ 0 then
              findPathReads pread hand fuel dents tmp rest
            else []
        | _ => []

/-- The reads of `fat_find_file`. -/
def fatFindFileReads (pread : Pread) (hand : FatHandle) (fuel : Nat) (dents : Int → UInt8)
    (dir : FatFileHandle) (filename : List UInt8) : List (Nat × Int) :=
  let (dir, filename) := match filename with
    | c :: rest => if c = fsPathsep then (hand.rootDir, rest) else (dir, filename)
    | [] => (dir, filename)
  findPathReads pread hand fuel dents dir (filename.splitOn fsPathsep)

/-- The reads of the loop of `fat_get_file_clusters`. -/
def fileClustersReads (pread : Pread) (hand : FatHandle) (size : Nat) :
    Nat → Int → Nat → List (Nat × Int)
  | 0, _, _ => []
  | fuel + 1, clust, pos =>
      if pos < size then
        if clust = 0 then []
        else getNextClusterReads hand clust ++
          fileClustersReads pread hand size fuel (getNextCluster pread hand clust)
            (pos + hand.clusterSize)
      else []

/-- The reads of `fat_get_file_clusters`. -/
def fatGetFileClustersReads (pread : Pread) (hand : FatHandle) (file : FatFileHandle) :
    List (Nat × Int) := fileClustersReads pread hand file.size file.size file.firstCluster 0

section Congr

variable {pread pread' : Pread} {hand : FatHandle}

theorem sameReads_cons {r : Nat × Int} {reads : List (Nat × Int)} :
    SameReads pread pread' (r :: reads) ↔
      pread' r.1 r.2 = pread r.1 r.2 ∧ SameReads pread pread' reads := List.forall_mem_cons

theorem sameReads_append {reads reads' : List (Nat × Int)} :
    SameReads pread pread' (reads ++ reads') ↔
      SameReads pread pread' reads ∧ SameReads pread pread' reads' := List.forall_mem_append

theorem getNextCluster_congr {c : Int} (h : SameReads pread pread' (getNextClusterReads hand c)) :
    getNextCluster pread' hand c = getNextCluster pread hand c := by
  rw [getNextClusterReads] at h
  rw [getNextCluster, getNextCluster]
  split
  · rfl
  · next hge =>
      rw [if_neg hge] at h
      have hread := (sameReads_cons.mp h).1
      dsimp only at hread ⊢
      rw [getFatEntry, getFatEntry, hread]

theorem findDent_congr (filename : List UInt8) (fuel : Nat) (dents : Int → UInt8) (dentOff : Int)
    (h : SameReads pread pread' (findDentReads pread hand filename fuel dents dentOff)) :
    findDent pread' hand filename fuel dents dentOff
      = findDent pread hand filename fuel dents dentOff := by
  induction fuel generalizing dents dentOff with
  | zero => rfl
  | succ fuel ih =>
      rw [findDentReads] at h
      rw [findDent, findDent]
      split
      · rfl
      · next hoff =>
          rw [if_neg hoff] at h
          dsimp only at h ⊢
          -- the cluster is read alike, so the scan is of the same entries
          obtain ⟨hread, h⟩ := sameReads_cons.mp h
          dsimp only at hread
          rw [hread]
          split
          · rfl
          · next hlen =>
              rw [if_neg hlen] at h
              cases hscan : scanDents fuel hand (storeAt dents 0 (pread hand.clusterSize dentOff))
                  filename (List.range (hand.clusterSize / sizeofFatDirent)) with
              | fail =>
                  rw [hscan] at h
                  obtain ⟨hnext, hrest⟩ := sameReads_append.mp h
                  dsimp only
                  rw [getNextCluster_congr hnext]
                  exact ih _ _ hrest
              | panic => rfl
              | stuck => rfl
              | ok file => rfl

theorem findName_congr (fuel : Nat) (dents : Int → UInt8) (dir : FatFileHandle)
    (filename : List UInt8)
    (h : SameReads pread pread' (findNameReads pread hand fuel dents dir filename)) :
    findName pread' hand fuel dents dir filename = findName pread hand fuel dents dir filename := by
  rw [findNameReads] at h
  rw [findName, findName]
  split
  · rfl
  · next hlen =>
      rw [if_neg hlen] at h
      exact findDent_congr filename fuel dents _ h

theorem findPath_congr (fuel : Nat) (dents : Int → UInt8) (dir : FatFileHandle)
    (comps : List (List UInt8))
    (h : SameReads pread pread' (findPathReads pread hand fuel dents dir comps)) :
    findPath pread' hand fuel dents dir comps = findPath pread hand fuel dents dir comps := by
  induction comps generalizing dents dir with
  | nil => rfl
  | cons name rest ih =>
      cases rest with
      | nil => exact findName_congr fuel dents dir name h
      | cons next rest =>
          obtain ⟨hname, hrest⟩ := sameReads_append.mp h
          rw [findPath_on, findPath_on, findName_congr fuel dents dir name hname]
          generalize findName pread hand fuel dents dir name = r at hrest
          obtain ⟨r, dents⟩ := r
          cases r with
          | ok tmp =>
              dsimp only at hrest ⊢
              split
              · next hdir =>
                  rw [if_pos hdir] at hrest
                  exact ih _ _ hrest
              · rfl
          | panic => rfl
          | stuck => rfl
          | fail => rfl

/-- What `fat_find_file` returns depends on its reads. -/
theorem fatFindFile_congr (fuel : Nat) (dents : Int → UInt8) (dir : FatFileHandle)
    (filename : List UInt8)
    (h : SameReads pread pread' (fatFindFileReads pread hand fuel dents dir filename)) :
    fatFindFile pread' hand fuel dents dir filename
      = fatFindFile pread hand fuel dents dir filename :=
  findPath_congr fuel dents _ _ h

theorem fileClustersFrom_congr {size fuel pos : Nat} {clust : Int}
    (h : SameReads pread pread' (fileClustersReads pread hand size fuel clust pos)) :
    fileClustersFrom pread' hand size fuel clust pos
      = fileClustersFrom pread hand size fuel clust pos := by
  induction fuel generalizing clust pos with
  | zero => rfl
  | succ fuel ih =>
      rw [fileClustersReads] at h
      rw [fileClustersFrom, fileClustersFrom]
      split
      · next hpos =>
          rw [if_pos hpos] at h
          split
          · rfl
          · next hclust =>
              rw [if_neg hclust] at h
              obtain ⟨hnext, hrest⟩ := sameReads_append.mp h
              rw [getNextCluster_congr hnext, ih hrest]
      · rfl

/-- So does the list of clusters. -/
theorem fatGetFileClusters_congr {file : FatFileHandle}
    (h : SameReads pread pread' (fatGetFileClustersReads pread hand file)) :
    fatGetFileClusters pread' hand file = fatGetFileClusters pread hand file :=
  fileClustersFrom_congr h

end Congr

end LBoot.Tools
