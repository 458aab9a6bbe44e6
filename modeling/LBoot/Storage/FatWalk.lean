/-
  LBoot.Storage.FatWalk

  Going along a directory.

  `_fat_fs_find` reads a directory at one offset after the other, and each of
  these reads goes along the cluster chain anew.  Where the next cluster is a
  function of the cluster (`Follows`), a read at the offset of the `k`-th
  cluster is a read of element `k` of the chain (`fatFileRead_follows`).

  This is so on every image, with a cache that is coherent with it
  (`follows_image`); on a volume that can be read, the links are the entries
  of the FAT (`follows_volume`).
-/

import LBoot.Lib.Chain
import LBoot.Storage.FatOffset
import Mathlib.Order.Interval.Finset.Nat

namespace LBoot.Storage

open LBoot.Lib

variable {ι κ : Type*}

/-- The geometry of a volume whose clusters hold whole directory entries, and
    whose offsets are within `off_t`. -/
structure DirLayout (fd : FatData) : Prop extends Fat12Layout fd where
  entries_dvd : sizeofFatDirent ∣ fd.clusterSize
  rootdir_nonneg : 0 ≤ fd.rootdirFirst
  rootdir_le_data : fd.rootdirFirst ≤ fd.dataOffset
  fits : fd.dataOffset + (4096 * fd.clusterSize : Nat) ≤ 2 ^ 31

/-- A place for a directory to start: in front of the data region, or at a
    cluster whose number is one of a directory entry. -/
def DirStart (fd : FatData) (c : Int) : Prop := c < fd.dataOffset ∨ clusterNumAt fd c < 2 ^ 16

/-- The links of a FAT12 volume: the root directory is contiguous, and a data
    cluster is followed by a data cluster. -/
structure FatLinks (fd : FatData) (next : Int → Int) : Prop where
  root : ∀ c, c < fd.dataOffset → next c ≠ 0 →
    fd.rootdirFirst ≤ c ∧ next c = c + fd.clusterSize ∧ next c < fd.dataOffset
  data : ∀ c, ¬ c < fd.dataOffset → next c ≠ 0 → ∃ e, 2 ≤ e ∧ e ≤ 0xff0 ∧ next c = clusterAddr fd e

/-- The driver follows these links as long as the cache is as it should be. -/
structure Follows (S : StorageHand ι) (fd : FatData) (I : FatCache → Prop) (next : Int → Int) :
    Prop where
  links : FatLinks fd next
  step : ∀ (s : FatState ι) (c : Int), I s.cache → DirStart fd c →
    (fatGetNextCluster S fd s c).1 = next c ∧ I (fatGetNextCluster S fd s c).2.cache

theorem SmallVolume.dirLayout : DirLayout (fatPopulate 0 SmallVolume.bootsec).fdata where
  sector_pos := by decide
  cluster_pos := by decide
  cluster_lt := by decide
  sector_dvd := by decide
  fat_nonneg := by decide
  fat_le_data := by decide
  data_pos := by decide
  entries_dvd := by decide
  rootdir_nonneg := by decide
  rootdir_le_data := by decide
  fits := by decide

section Walk

variable {S : StorageHand ι} {fd : FatData} {I : FatCache → Prop} {next : Int → Int}

/-! ## Geometry -/

theorem DirLayout.cluster_ge (h : DirLayout fd) : 32 ≤ fd.clusterSize :=
  Nat.le_of_dvd h.cluster_pos h.entries_dvd

/-- All data clusters lie within `off_t`. -/
theorem DirLayout.clusterAddr_lt (h : DirLayout fd) {e : Nat} (he : e ≤ 0xff0) :
    fd.dataOffset ≤ clusterAddr fd e ∧ clusterAddr fd e + fd.clusterSize ≤ 2 ^ 31 := by
  have hmul : (e - 2) * fd.clusterSize ≤ 4095 * fd.clusterSize :=
    Nat.mul_le_mul_right _ (by omega)
  have hfits := h.fits
  rw [clusterAddr]
  omega

/-- The entry of such a cluster is in front of the end of the data region. -/
theorem DirLayout.entry_lt (h : DirLayout fd) {n : Nat} (hn : n < 2 ^ 16) :
    fd.fatOffset + (n * 3 / 2 : Nat) + 1 < 2 ^ 31 := by
  have hcs := h.cluster_ge
  have hfits := h.fits
  have hfat := h.fat_le_data
  omega

theorem FatLinks.dirStart (h : FatLinks fd next) (hfd : DirLayout fd) {c : Int} :
    DirStart fd (next c) := by
  have hpos := hfd.data_pos
  -- zero is in front of the data region, as is the next cluster of the root directory
  by_cases hend : next c = 0
  · rw [hend]
    exact Or.inl hpos
  · by_cases hc : c < fd.dataOffset
    · exact Or.inl (h.root c hc hend).2.2
    · obtain ⟨e, he, hle, heq⟩ := h.data c hc hend
      right
      rw [heq, clusterNumAt_clusterAddr hfd.cluster_pos he (by omega)]
      omega

/-- The root directory is a place to start. -/
theorem DirLayout.start_rootdir (h : DirLayout fd) : DirStart fd fd.rootdirFirst := by
  rcases lt_or_eq_of_le h.rootdir_le_data with hlt | heq
  · exact Or.inl hlt
  · have hfirst : clusterAddr fd 2 = fd.dataOffset := by
      rw [clusterAddr, Nat.sub_self, Nat.zero_mul, Nat.cast_zero, Int.add_zero]
    right
    rw [heq, ← hfirst, clusterNumAt_clusterAddr h.cluster_pos (Nat.le_refl 2) (by decide)]
    decide

/-- So is every place a directory entry names. -/
theorem DirLayout.start_popFile (h : DirLayout fd) (dirents : Int → UInt8) (i : Nat) :
    DirStart fd (fatPopFile fd (fatDirent dirents i)).firstCluster := by
  have hpos := h.data_pos
  have hcs := h.cluster_pos
  have hlt16 := h.cluster_lt
  have hfits := h.fits
  have hstart : (fatDirent dirents i).startCluster < 256 ^ 2 := memField_lt _ _ _
  rw [fatPopFile]
  dsimp only
  generalize (fatDirent dirents i).startCluster = n at hstart
  rcases Nat.lt_or_ge n 2 with hlow | hge
  · -- in front of the data region
    have hmul : ((n : Int) - 2) * fd.clusterSize = -((2 - n) * fd.clusterSize : Nat) := by
      rw [Nat.cast_mul]
      rw [Nat.cast_sub (by omega), ← Int.neg_mul, Nat.cast_ofNat, Int.neg_sub]
    have hone : 1 * fd.clusterSize ≤ (2 - n) * fd.clusterSize := Nat.mul_le_mul_right _ (by omega)
    have htwo : (2 - n) * fd.clusterSize ≤ 2 * fd.clusterSize := Nat.mul_le_mul_right _ (by omega)
    left
    rw [hmul, s32_of_range (by omega) (by omega)]
    omega
  · -- a data cluster, if its offset is one of `off_t`
    have hmul : ((n : Int) - 2) * fd.clusterSize = ((n - 2) * fd.clusterSize : Nat) := by
      rw [Nat.cast_mul, Nat.cast_sub hge, Nat.cast_ofNat]
    have hle : (n - 2) * fd.clusterSize ≤ 2 ^ 16 * (2 ^ 16 - 1) :=
      Nat.mul_le_mul (by omega) (Nat.le_pred_of_lt hlt16)
    have haddr : clusterAddr fd n = fd.dataOffset + ((n - 2) * fd.clusterSize : Nat) := rfl
    rw [hmul]
    by_cases hwrap : fd.dataOffset + ((n - 2) * fd.clusterSize : Nat) < 2 ^ 31
    · right
      rw [s32_of_range (by omega) hwrap, ← haddr, clusterNumAt_clusterAddr hcs hge (by omega)]
      exact hstart
    · -- the offset has come around
      have hround : s32 (fd.dataOffset + ((n - 2) * fd.clusterSize : Nat))
          = s32 (fd.dataOffset + ((n - 2) * fd.clusterSize : Nat) - 2 ^ 32) := by
        rw [s32, s32]
        exact (Int.sub_bmod_right _ _).symm
      left
      rw [hround, s32_of_range (by omega) (by omega)]
      omega

/-- Whatever the device answers, the driver stays on such links. -/
theorem fatGetNextCluster_links (S : StorageHand ι) (hfd : DirLayout fd) (s : FatState ι) :
    FatLinks fd fun c => (fatGetNextCluster S fd s c).1 := by
  have hfits := hfd.fits
  have hroot := hfd.rootdir_nonneg
  constructor
  · intro c hc
    rw [fatGetNextCluster, if_pos hc]
    split
    · exact fun h => absurd rfl h
    · rw [s32_of_range (by omega) (by omega)]
      split
      · next hlt => exact fun _ => ⟨by omega, rfl, hlt⟩
      · exact fun h => absurd rfl h
  · intro c hc
    obtain ⟨hval, -⟩ := fatGetNextCluster_data S fd s hc
    rw [hval]
    generalize (fatGetFatEntry S fd s (clusterNumAt fd c)).1 = e
    split
    · next he =>
        intro _
        obtain ⟨hge, hle⟩ := hfd.clusterAddr_lt he.2
        have hpos := hfd.data_pos
        have hcs := hfd.cluster_pos
        rw [clusterAddr] at hge hle
        exact ⟨e, he.1, he.2, s32_of_range (by omega) (by omega)⟩
    · exact fun h => absurd rfl h

/-- A chain that starts in front of the data region ends there: the root
    directory is contiguous. -/
theorem FatLinks.root_chain (h : FatLinks fd next) {c d : Int} (hc : c < fd.dataOffset) {k : Nat}
    (hk : chainAt next k c = some d) :
    d < fd.dataOffset ∧ (k = 0 ∨ fd.rootdirFirst ≤ c) ∧ d = c + (k * fd.clusterSize : Nat) := by
  induction k generalizing d with
  | zero =>
      obtain rfl := Option.some.inj hk
      exact ⟨hc, Or.inl rfl, by omega⟩
  | succ k ih =>
      cases hprev : chainAt next k c with
      | none =>
          rw [chainAt_succ, hprev] at hk
          exact absurd hk nofun
      | some d' =>
          obtain ⟨hlt, hge, hd'⟩ := ih hprev
          rw [chainAt_succ_of_some hprev] at hk
          split at hk
          · exact absurd hk nofun
          · next hne =>
              obtain ⟨hge', heq, hlt'⟩ := h.root d' hlt hne
              rw [Option.some.inj hk] at heq hlt'
              refine ⟨hlt', Or.inr ?_, by rw [Nat.succ_mul]; omega⟩
              rcases hge with rfl | hge
              · rwa [hd', Nat.zero_mul, Nat.cast_zero, Int.add_zero] at hge'
              · exact hge

/-- A chain that starts in the data region stays on its clusters. -/
theorem FatLinks.data_chain (h : FatLinks fd next) (hfd : DirLayout fd) {c d : Int}
    (hc : ¬ c < fd.dataOffset) {k : Nat} (hk : chainAt next k c = some d) :
    ¬ d < fd.dataOffset ∧ d ∈ insert c ((Finset.Icc 2 0xff0).image (clusterAddr fd)) := by
  induction k generalizing d with
  | zero =>
      obtain rfl := Option.some.inj hk
      exact ⟨hc, Finset.mem_insert_self _ _⟩
  | succ k ih =>
      cases hprev : chainAt next k c with
      | none =>
          rw [chainAt_succ, hprev] at hk
          exact absurd hk nofun
      | some d' =>
          rw [chainAt_succ_of_some hprev] at hk
          split at hk
          · exact absurd hk nofun
          · next hne =>
              obtain ⟨e, he, hle, heq⟩ := h.data d' (ih hprev).1 hne
              have haddr := (hfd.clusterAddr_lt hle).1
              rw [← Option.some.inj hk, heq]
              refine ⟨by omega, Finset.mem_insert_of_mem (Finset.mem_image_of_mem _ ?_)⟩
              exact Finset.mem_Icc.mpr ⟨he, hle⟩

/-- The offset of element `k` is within `off_t`, and so is the one behind. -/
theorem FatLinks.offset_lt (h : FatLinks fd next) (hfd : DirLayout fd) {c d : Int}
    (hacyclic : Acyclic next c) {k : Nat} (hk : chainAt next k c = some d) :
    (k + 1) * fd.clusterSize < 2 ^ 31 := by
  have hfits := hfd.fits
  have hcs := hfd.cluster_ge
  have hpos := hfd.data_pos
  by_cases hc : c < fd.dataOffset
  · obtain ⟨hlt, hge, hd⟩ := h.root_chain hc hk
    have hnonneg := hfd.rootdir_nonneg
    rw [Nat.succ_mul]
    rcases hge with rfl | hge
    · omega
    · omega
  · -- without a cycle, it is no longer than there are data clusters
    have hcard : (insert c ((Finset.Icc 2 0xff0).image (clusterAddr fd))).card ≤ 0xff0 := by
      have himage : ((Finset.Icc 2 0xff0).image (clusterAddr fd)).card ≤ 0xff0 + 1 - 2 := by
        rw [← Nat.card_Icc]
        exact Finset.card_image_le
      exact (Finset.card_insert_le _ _).trans (Nat.succ_le_succ himage)
    have hlt := hacyclic.lt_card (fun k d hd => (h.data_chain hfd hc hd).2) hk
    have hmul : (k + 1) * fd.clusterSize ≤ 0xff0 * fd.clusterSize :=
      Nat.mul_le_mul_right _ (by omega)
    omega

/-- So a search gets from one to the next. -/
theorem FatLinks.offset_next (h : FatLinks fd next) (hfd : DirLayout fd) {c d : Int}
    (hacyclic : Acyclic next c) {k : Nat} (hk : chainAt next k c = some d) :
    s32 ((k * fd.clusterSize : Nat) + fd.clusterSize) = ((k + 1) * fd.clusterSize : Nat) := by
  have hlt := h.offset_lt hfd hacyclic hk
  rw [Nat.succ_mul] at hlt ⊢
  rw [s32_of_range (by omega) (by omega)]
  omega

/-! ## Reads -/

/-- The first loop goes along the chain. -/
theorem fatSkip_follows (h : Follows S fd I next) (hfd : DirLayout fd) {k fuel : Nat}
    (hfuel : k * fd.clusterSize ≤ fuel) {s : FatState ι} (hs : I s.cache) {c : Int}
    (hc : DirStart fd c) :
    ∃ t : FatState ι, I t.cache ∧ fatSkip S fd fuel s c (k * fd.clusterSize : Nat)
      = (match chainAt next k c with
          | some d => .ok (d, 0)
          | none => .error (.ret (-1)), t) := by
  have hcs := hfd.cluster_pos
  -- the loop takes the chain from the front, as `chainAt` does
  induction k generalizing fuel s c with
  | zero =>
      refine ⟨s, hs, ?_⟩
      rw [Nat.zero_mul, chainAt]
      cases fuel with
      | zero => rw [fatSkip, if_neg (by omega)]; rfl
      | succ fuel => rw [fatSkip, if_neg (by omega)]; rfl
  | succ k ih =>
      rw [Nat.succ_mul] at hfuel ⊢
      obtain ⟨fuel, rfl⟩ : ∃ n, fuel = n + 1 := ⟨fuel - 1, by omega⟩
      obtain ⟨hval, hcache⟩ := h.step s c hs hc
      rw [fatSkip, if_pos (by omega), chainAt]
      generalize fatGetNextCluster S fd s c = r at hval hcache
      obtain ⟨e, t⟩ := r
      obtain rfl : e = next c := hval
      dsimp only
      by_cases hend : next c = 0
      · rw [if_pos hend, if_pos hend]
        exact ⟨t, hcache, rfl⟩
      · have hback : ((k * fd.clusterSize + fd.clusterSize : Nat) : Int) - fd.clusterSize
            = (k * fd.clusterSize : Nat) := by
          omega
        rw [if_neg hend, if_neg hend, hback]
        exact ih (by omega) hcache (h.links.dirStart hfd)

/-- The second loop reads one cluster, if that is what it is to read. -/
theorem fatCopy_cluster (hcs : 0 < fd.clusterSize) (hlt : fd.clusterSize < 2 ^ 16)
    {s : FatState ι} (buf : Int → UInt8) (c : Int) {bytes : List UInt8} {ret : Int} {dev : ι}
    (hread : S.read s.dev c fd.clusterSize = ((bytes, ret), dev)) :
    fatCopy S fd fd.clusterSize fd.clusterSize s buf c 0 0 =
      (if ret ≠ fd.clusterSize then (.ret (-1), buf, ⟨dev, s.cache, storeAt s.tmp 0 bytes⟩)
        else (.ret fd.clusterSize,
          storeAt buf 0 (loadAt (storeAt s.tmp 0 bytes) 0 fd.clusterSize),
          ⟨dev, s.cache, storeAt s.tmp 0 bytes⟩)) := by
  obtain ⟨fuel, hfuel⟩ : ∃ n, fd.clusterSize = n + 1 := ⟨fd.clusterSize - 1, by omega⟩
  have hroom : toU32 ((fd.clusterSize : Int) - 0) = fd.clusterSize := by
    rw [toU32_of_nonneg (by omega) (by omega)]
    omega
  have hnext : u32 (0 + fd.clusterSize) = fd.clusterSize := by rw [u32_of_lt] <;> omega
  conv_lhs => rw [hfuel, fatCopy, ← hfuel]
  rw [if_pos hcs, hread]
  dsimp only
  split
  · rfl
  · rw [Nat.sub_zero, hroom, if_pos (Nat.le_refl _), hnext, fatCopy_done (Nat.le_refl _)]
    rfl

/-- Reading a directory at the offset of element `k`. -/
theorem fatFileRead_follows (h : Follows S fd I next) (hfd : DirLayout fd) {dir : FatFile}
    (hdir : dir.directory = true) (hstart : DirStart fd dir.firstCluster) {s : FatState ι}
    (hs : I s.cache) (buf : Int → UInt8) (k : Nat) :
    ∃ t : FatState ι, I t.cache ∧
      fatFileRead S fd dir s buf fd.clusterSize (k * fd.clusterSize : Nat) =
        match chainAt next k dir.firstCluster with
        | none => (.ret (-1), buf, t)
        | some d => fatCopy S fd fd.clusterSize fd.clusterSize t buf d 0 0 := by
  obtain ⟨t, ht, hskip⟩ := fatSkip_follows h hfd (Nat.le_refl (k * fd.clusterSize)) hs hstart
  refine ⟨t, ht, ?_⟩
  rw [fatFileRead, if_neg fun hpanic => hpanic.1 hdir, Int.toNat_natCast, hskip]
  cases chainAt next k dir.firstCluster with
  | none => rfl
  | some d => rfl

end Walk

/-! ## Images -/

section Image

variable {S : StorageHand ι} {T : StorageHand κ} {img : StorageImage} {fd : FatData}

/-- Uncached reads on the same image are the same. -/
theorem fatReadUncached_same (hS : Answers S img) (hT : Answers T img) (hwhole : WholeBlocks img)
    {off : Int} {sz j : Nat} (hoff : off.tmod fd.sectorSize = j) (hlo : 1 ≤ sz) (hhi : sz ≤ 4)
    (hin : j + sz ≤ fd.clusterSize) (dev : ι) (dev' : κ) (tmp tmp' : Int → UInt8) :
    fatReadUncached S fd dev tmp off sz = fatReadUncached T fd dev' tmp' off sz := by
  cases hread : img (off - off.tmod fd.sectorSize) fd.clusterSize with
  | mk bytes ret =>
      by_cases hret : ret = fd.clusterSize
      · subst hret
        have hlen := hwhole _ _ _ hread
        rw [fatReadUncached_ok hS dev tmp hread, fatReadUncached_ok hT dev' tmp' hread, hoff,
          fatMask_block hlo hhi hin (Nat.le_of_eq hlen.symm),
          fatMask_block hlo hhi hin (Nat.le_of_eq hlen.symm)]
      · rw [fatReadUncached_failed hS dev tmp hread hret,
          fatReadUncached_failed hT dev' tmp' hread hret]

/-- So are lookups, with caches that are coherent. -/
theorem fatReadFatData_same (hS : Answers S img) (hT : Answers T img) (hwhole : WholeBlocks img)
    (hss : 0 < fd.sectorSize) {s : FatState ι} (hs : Coherent img fd s.cache) {t : FatState κ}
    (ht : Coherent img fd t.cache) {off sz : Nat} (hlo : 1 ≤ sz) (hhi : sz ≤ 4)
    (hin : off % fd.sectorSize + sz ≤ fd.clusterSize) :
    (fatReadFatData S fd s off sz).1 = (fatReadFatData T fd t off sz).1 ∧
      Coherent img fd (fatReadFatData S fd s off sz).2.cache ∧
      Coherent img fd (fatReadFatData T fd t off sz).2.cache := by
  have hmod : (off : Int).tmod fd.sectorSize = (off % fd.sectorSize : Nat) := rfl
  have hcluster (dev : ι) (tmp : Int → UInt8) :
      (⟨off, sz, dev, tmp⟩ : FatLookup ι).InCluster fd := by
    refine ⟨Int.natCast_nonneg _, fun _ _ => ?_⟩
    dsimp only
    omega
  have hcluster' (dev : κ) (tmp : Int → UInt8) :
      (⟨off, sz, dev, tmp⟩ : FatLookup κ).InCluster fd := by
    refine ⟨Int.natCast_nonneg _, fun _ _ => ?_⟩
    dsimp only
    omega
  obtain ⟨hval, hcache⟩ := fatReadFatData_coherent hS hwhole hss hs (hcluster s.dev s.tmp)
  obtain ⟨hval', hcache'⟩ := fatReadFatData_coherent hT hwhole hss ht (hcluster' t.dev t.tmp)
  refine ⟨?_, hcache, hcache'⟩
  have hsame := fatReadUncached_same hS hT hwhole hmod hlo hhi hin s.dev t.dev s.tmp t.tmp
  exact hval.trans (hsame.trans hval'.symm)

/-- And so are the entries of the FAT. -/
theorem fatGetFatEntry_same (hS : Answers S img) (hT : Answers T img) (hwhole : WholeBlocks img)
    (hfd : FatGeometry fd) {s : FatState ι} (hs : Coherent img fd s.cache) {t : FatState κ}
    (ht : Coherent img fd t.cache) {n : Nat}
    (hoff : 0 ≤ s32 (fd.fatOffset + (u32 (n * 3) / 2 : Nat))) :
    (fatGetFatEntry S fd s n).1 = (fatGetFatEntry T fd t n).1 ∧
      Coherent img fd (fatGetFatEntry S fd s n).2.cache := by
  obtain ⟨off, hoff⟩ := Int.eq_ofNat_of_zero_le hoff
  have hss := hfd.sector_pos
  have hle := Nat.le_of_dvd hfd.cluster_pos hfd.sector_dvd
  rw [fatGetFatEntry, fatGetFatEntry, hoff]
  -- two lookups of a byte each, or one of two bytes
  by_cases hsplit : (off : Int).tmod fd.clusterSize = fd.clusterSize - 1
  · have hlo := Nat.mod_lt off hss
    have hhi := Nat.mod_lt (off + 1) hss
    obtain ⟨hval, hs', ht'⟩ := fatReadFatData_same hS hT hwhole hss hs ht
      (Nat.le_refl 1) (by omega) (by omega : off % fd.sectorSize + 1 ≤ fd.clusterSize)
    obtain ⟨hval', hs'', -⟩ := fatReadFatData_same hS hT hwhole hss hs' ht'
      (Nat.le_refl 1) (by omega) (by omega : (off + 1) % fd.sectorSize + 1 ≤ fd.clusterSize)
    rw [Nat.cast_succ] at hval' hs''
    simp only [if_pos hsplit, hval, hval']
    exact ⟨trivial, hs''⟩
  · have hin : off % fd.clusterSize + 1 ≠ fd.clusterSize := by
      intro heq
      apply hsplit
      show ((off % fd.clusterSize : Nat) : Int) = fd.clusterSize - 1
      omega
    obtain ⟨hval, hs', -⟩ := fatReadFatData_same hS hT hwhole hss hs ht
      (Nat.le_succ 1) (by omega) (hfd.pair_in_cluster hin)
    simp only [if_neg hsplit, hval]
    exact ⟨trivial, hs'⟩

theorem fatGetNextCluster_same (hS : Answers S img) (hT : Answers T img) (hwhole : WholeBlocks img)
    (hfd : DirLayout fd) {s : FatState ι} (hs : Coherent img fd s.cache) {t : FatState κ}
    (ht : Coherent img fd t.cache) {c : Int} (hc : DirStart fd c) :
    (fatGetNextCluster S fd s c).1 = (fatGetNextCluster T fd t c).1 ∧
      Coherent img fd (fatGetNextCluster S fd s c).2.cache := by
  by_cases hlow : c < fd.dataOffset
  · rw [fatGetNextCluster, fatGetNextCluster, if_pos hlow, if_pos hlow]
    split
    · exact ⟨rfl, hs⟩
    · split
      · exact ⟨rfl, hs⟩
      · exact ⟨rfl, hs⟩
  · have hnum : clusterNumAt fd c < 2 ^ 16 := hc.resolve_left hlow
    have hlt := hfd.entry_lt hnum
    have hnonneg := hfd.fat_nonneg
    have hoff : 0 ≤ s32 (fd.fatOffset + (u32 (clusterNumAt fd c * 3) / 2 : Nat)) := by
      rw [u32_of_lt (by omega), s32_of_range (by omega) (by omega)]
      omega
    obtain ⟨hval, hcache⟩ := fatGetFatEntry_same hS hT hwhole hfd.geometry hs ht hoff
    obtain ⟨hfst, hsnd⟩ := fatGetNextCluster_data S fd s hlow
    obtain ⟨hfst', -⟩ := fatGetNextCluster_data T fd t hlow
    rw [hfst, hfst', hsnd, hval]
    exact ⟨rfl, hcache⟩

/-- A cache that holds no sector. -/
def coldCache : FatCache := ⟨fun _ => -1, fun _ => 0, fun _ => 0⟩

theorem coldCache_coherent (img : StorageImage) (fd : FatData) : Coherent img fd coldCache :=
  fun _ hi => absurd hi.1 (by show ¬ (0 : Int) ≤ -1; decide)

/-- The next cluster on an image, as the driver finds it with nothing cached. -/
def fatNextOn (img : StorageImage) (fd : FatData) (c : Int) : Int :=
  (fatGetNextCluster (bare img) fd ⟨(), coldCache, fun _ => 0⟩ c).1

/-- On an image the driver follows its links. -/
theorem follows_image (hS : Answers S img) (hwhole : WholeBlocks img) (hfd : DirLayout fd) :
    Follows S fd (Coherent img fd) (fatNextOn img fd) where
  links := fatGetNextCluster_links (bare img) hfd _
  step _ _ hs hc := fatGetNextCluster_same hS (fun _ _ _ => rfl) hwhole hfd hs
    (coldCache_coherent img fd) hc

end Image

/-! ## Volumes -/

/-- The next cluster, as the FAT of the volume has it. -/
def fatNextAt (fd : FatData) (vol : Int → UInt8) (c : Int) : Int :=
  if c < fd.dataOffset then
    if c < fd.rootdirFirst then 0
    else if c + fd.clusterSize < fd.dataOffset then c + fd.clusterSize
    else 0
  else
    let fatEntry := fatEntryAt fd vol (clusterNumAt fd c)
    if 0x002 ≤ fatEntry ∧ fatEntry ≤ 0xff0 then clusterAddr fd fatEntry else 0

section Volume

variable {S : StorageHand ι} {vol : Int → UInt8} {fd : FatData}

theorem fatNextAt_links (fd : FatData) (vol : Int → UInt8) : FatLinks fd (fatNextAt fd vol) where
  root c hc := by
    rw [fatNextAt, if_pos hc]
    split
    · exact fun h => absurd rfl h
    · split
      · next hge hlt => exact fun _ => ⟨by omega, rfl, hlt⟩
      · exact fun h => absurd rfl h
  data c hc := by
    rw [fatNextAt, if_neg hc]
    dsimp only
    split
    · next he => exact fun _ => ⟨_, he.1, he.2, rfl⟩
    · exact fun h => absurd rfl h

/-- On a volume the driver follows the links of its FAT. -/
theorem follows_volume (hS : Delivers S vol) (hfd : DirLayout fd) :
    Follows S fd (CacheMatches fd vol) (fatNextAt fd vol) where
  links := fatNextAt_links fd vol
  step s c hs hc := by
    have hfits := hfd.fits
    have hroot := hfd.rootdir_nonneg
    by_cases hlow : c < fd.dataOffset
    · rw [fatGetNextCluster, fatNextAt, if_pos hlow, if_pos hlow]
      by_cases hbelow : c < fd.rootdirFirst
      · rw [if_pos hbelow, if_pos hbelow]
        exact ⟨rfl, hs⟩
      · rw [if_neg hbelow, if_neg hbelow, s32_of_range (by omega) (by omega)]
        split <;> exact ⟨rfl, hs⟩
    · have hnum : clusterNumAt fd c < 2 ^ 16 := hc.resolve_left hlow
      obtain ⟨hcache, hentry⟩ := fatGetFatEntry_spec hfd.geometry (c := clusterNumAt fd c)
        (fun a _ _ d => hS d a fd.clusterSize) hs (by omega) (hfd.entry_lt hnum)
      obtain ⟨hfst, hsnd⟩ := fatGetNextCluster_data S fd s hlow
      rw [hfst, hsnd, hentry, fatNextAt, if_neg hlow]
      refine ⟨?_, hcache⟩
      dsimp only
      split
      · next he =>
          obtain ⟨hge, hle⟩ := hfd.clusterAddr_lt he.2
          have hpos := hfd.data_pos
          have hcs := hfd.cluster_pos
          rw [clusterAddr] at hge hle ⊢
          exact s32_of_range (by omega) (by omega)
      · rfl

/-- Reading a directory of the volume at the offset of element `k`. -/
theorem fatFileRead_volume (hS : Delivers S vol) (hfd : DirLayout fd) {dir : FatFile}
    (hdir : dir.directory = true) (hstart : DirStart fd dir.firstCluster) {s : FatState ι}
    (hs : CacheMatches fd vol s.cache) (buf : Int → UInt8) (k : Nat) :
    ∃ t : FatState ι, CacheMatches fd vol t.cache ∧
      fatFileRead S fd dir s buf fd.clusterSize (k * fd.clusterSize : Nat) =
        match chainAt (fatNextAt fd vol) k dir.firstCluster with
        | none => (.ret (-1), buf, t)
        | some c => (.ret fd.clusterSize, storeAt buf 0 (loadAt vol c fd.clusterSize), t) := by
  obtain ⟨t, ht, hread⟩ :=
    fatFileRead_follows (follows_volume hS hfd) hfd hdir hstart hs buf k
  rw [hread]
  cases chainAt (fatNextAt fd vol) k dir.firstCluster with
  | none => exact ⟨t, ht, rfl⟩
  | some c =>
      cases hres : S.read t.dev c fd.clusterSize with
      | mk res dev =>
          have hdel := hS t.dev c fd.clusterSize
          rw [hres] at hdel
          obtain rfl : res = (loadAt vol c fd.clusterSize, (fd.clusterSize : Int)) := hdel
          have hload := loadAt_storeAt t.tmp 0 (loadAt vol c fd.clusterSize)
          rw [length_loadAt] at hload
          refine ⟨⟨dev, t.cache, storeAt t.tmp 0 (loadAt vol c fd.clusterSize)⟩, ht, ?_⟩
          dsimp only
          rw [fatCopy_cluster hfd.cluster_pos hfd.cluster_lt buf c hres,
            if_neg (not_not.mpr rfl), hload]

end Volume

end LBoot.Storage
