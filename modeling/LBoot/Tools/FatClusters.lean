/-
  LBoot.Tools.FatClusters

  `fat_get_file_clusters` of the tools (tools/sector_mapper/src/fat.c).

  It goes along the chain for as long as the size of the file asks for.  The
  array it fills has as many elements as the caller makes of that size
  (`length_fatGetFileClusters`), and none of them is zero.
-/

import LBoot.Tools.Fat

namespace LBoot.Tools

open LBoot.Lib LBoot.Storage

/-- The loop of `fat_get_file_clusters`; `none` is its return value of -1, or
    more iterations than allowed. -/
def fileClustersFrom (pread : Pread) (hand : FatHandle) (size : Nat) :
    Nat → Int → Nat → Option (List Int)
  | 0, _, pos => if pos < size then none else some []
  | fuel + 1, clust, pos =>
      if pos < size then
        if clust = 0 then none
        else
          (fileClustersFrom pread hand size fuel (getNextCluster pread hand clust)
            (pos + hand.clusterSize)).map (clust :: ·)
      else some []

/-- `fat_get_file_clusters`: the clusters, before they are cut down to 32
    bits. -/
def fatGetFileClusters (pread : Pread) (hand : FatHandle) (file : FatFileHandle) :
    Option (List Int) := fileClustersFrom pread hand file.size file.size file.firstCluster 0

/-- The number of clusters the callers compute from the size. -/
def fileClusterCount (hand : FatHandle) (file : FatFileHandle) : Nat :=
  file.size / hand.clusterSize + if file.size % hand.clusterSize ≠ 0 then 1 else 0

section

variable {pread : Pread} {hand : FatHandle}

theorem mem_fileClustersFrom {size fuel pos : Nat} {clust : Int} {cs : List Int}
    (h : fileClustersFrom pread hand size fuel clust pos = some cs) : ∀ c ∈ cs, c ≠ 0 := by
  induction fuel generalizing clust pos cs with
  | zero =>
      rw [fileClustersFrom] at h
      split at h
      · exact absurd h (by simp)
      · obtain rfl := Option.some.inj h
        simp
  | succ fuel ih =>
      rw [fileClustersFrom] at h
      split at h
      · split at h
        · exact absurd h (by simp)
        · next hclust =>
            obtain ⟨rest, hrest, rfl⟩ := Option.map_eq_some_iff.mp h
            intro c hc
            rcases List.mem_cons.mp hc with rfl | hc
            · exact hclust
            · exact ih hrest c hc
      · obtain rfl := Option.some.inj h
        simp

/-- The clusters behind a place of the file. -/
theorem length_fileClustersFrom {size fuel pos : Nat} {clust : Int} {cs : List Int}
    (hcs : 0 < hand.clusterSize) (h : fileClustersFrom pread hand size fuel clust pos = some cs) :
    cs.length = (size - pos) / hand.clusterSize +
      if (size - pos) % hand.clusterSize ≠ 0 then 1 else 0 := by
  have hdone : ∀ {pos}, ¬ pos < size → (0 : Nat) = (size - pos) / hand.clusterSize +
      if (size - pos) % hand.clusterSize ≠ 0 then 1 else 0 := by
    intro pos hpos
    rw [Nat.sub_eq_zero_of_le (Nat.le_of_not_lt hpos), Nat.zero_div, Nat.zero_mod]
    rfl
  induction fuel generalizing clust pos cs with
  | zero =>
      rw [fileClustersFrom] at h
      split at h
      · exact absurd h (by simp)
      · next hpos =>
          obtain rfl := Option.some.inj h
          exact hdone hpos
  | succ fuel ih =>
      rw [fileClustersFrom] at h
      split at h
      · next hpos =>
          split at h
          · exact absurd h (by simp)
          · obtain ⟨rest, hrest, rfl⟩ := Option.map_eq_some_iff.mp h
            rw [List.length_cons, ih hrest]
            rcases Nat.lt_or_ge (size - pos) hand.clusterSize with hlt | hge
            · -- the last cluster is not full
              have hrest : size - (pos + hand.clusterSize) = 0 := by omega
              rw [hrest, Nat.zero_div, Nat.zero_mod, Nat.div_eq_of_lt hlt, Nat.mod_eq_of_lt hlt,
                if_neg (by simp), if_pos (by omega)]
            · -- one full cluster, and what is left behind it
              have hmore : size - pos = size - (pos + hand.clusterSize) + hand.clusterSize := by omega
              rw [hmore, Nat.add_div_right _ hcs, Nat.add_mod_right]
              omega
      · next hpos =>
          obtain rfl := Option.some.inj h
          exact hdone hpos

/-- The array of the caller is filled, no less and no more. -/
theorem length_fatGetFileClusters {file : FatFileHandle} {cs : List Int}
    (hcs : 0 < hand.clusterSize) (h : fatGetFileClusters pread hand file = some cs) :
    cs.length = fileClusterCount hand file := length_fileClustersFrom hcs h

end

end LBoot.Tools
