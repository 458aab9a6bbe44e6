/-
  LBoot.Tools.FatAgree

  The loader and sector_mapper on one image: the cluster each of them goes to
  from a given one.

  Both take the same twelve bits for the entry (`getFatEntry_eq` and the
  lookup through the cache), and both treat the root directory alike.  They
  part at one value: an entry of 0xff0 is a cluster to the loader and the end
  of the chain to sector_mapper (`nextCluster_step`).  So they see the same
  chain from a cluster exactly if no data cluster on it has that entry.
-/

import LBoot.Lib.Chain
import LBoot.Storage.FatLookup
import LBoot.Tools.Fat

namespace LBoot.Tools

open LBoot.Lib LBoot.Storage

variable {ι : Type*}

/-- Every `pread` delivers bytes of the image. -/
def PreadDelivers (pread : Pread) (vol : Int → UInt8) : Prop :=
  ∀ n off, pread n off = loadAt vol off n

/-- Sectors and clusters of 512 bytes, the boot sector in the reserved area,
    and every cluster a FAT12 entry can name within the loader's `off_t`. -/
structure Fat12Image (bootsector : FatBootsector) : Prop where
  bytesPerSector_eq : bootsector.bytesPerSector = 512
  sectorsPerCluster_eq : bootsector.sectorsPerCluster = 1
  reserved_pos : 0 < bootsector.reservedSectors
  fits : (fatHandle bootsector).dataOffset + (4096 * 512 : Nat) ≤ 2 ^ 31

/-- A data cluster whose entry the two programs take differently. -/
def AmbiguousEnd (fd : FatData) (vol : Int → UInt8) (c : Int) : Prop :=
  fd.dataOffset ≤ c ∧ fatEntryAt fd vol (clusterNumAt fd c) = 0xff0

/-- The first clusters of a chain, as the loader follows it. -/
def loaderChain (S : StorageHand ι) (fd : FatData) : Nat → FatState ι → Int → List Int :=
  follow (fatGetNextCluster S fd)

/-- The first clusters of a chain, as sector_mapper follows it. -/
def toolChain (pread : Pread) (hand : FatHandle) (n : Nat) (c : Int) : List Int :=
  follow (fun (_ : Unit) c => (getNextCluster pread hand c, ())) n () c

/-! ## Geometry -/

theorem fsFatInit_delivers {S : StorageHand ι} {vol : Int → UInt8} (hS : Delivers S vol)
    (s : FatState ι) : (fsFatInit S s 0).1 = some (fatPopulate 0 (fatBootsector vol)) := by
  have hread := hS s.dev 0 512
  rw [fsFatInit]
  cases hr : S.read s.dev 0 512 with
  | mk res dev =>
      obtain ⟨bytes, ret⟩ := res
      rw [hr] at hread
      obtain ⟨rfl, rfl⟩ := Prod.mk.inj hread
      simp only [fatBootsector_read]
      rfl

theorem fatOpen_delivers {pread : Pread} {vol : Int → UInt8} (hP : PreadDelivers pread vol) :
    fatOpen pread = some (fatHandle (fatBootsector vol)) := by
  rw [fatOpen, hP, length_loadAt, if_neg (not_not.mpr rfl), fatBootsector_read]

/-- What both programs open. -/
theorem opened_delivers {S : StorageHand ι} {pread : Pread} {vol : Int → UInt8}
    (hS : Delivers S vol) (hP : PreadDelivers pread vol) {s : FatState ι} {fs : FsHand}
    (hinit : (fsFatInit S s 0).1 = some fs) {hand : FatHandle} (hopen : fatOpen pread = some hand) :
    fs = fatPopulate 0 (fatBootsector vol) ∧ hand = fatHandle (fatBootsector vol) := by
  rw [fsFatInit_delivers hS] at hinit
  rw [fatOpen_delivers hP] at hopen
  exact ⟨(Option.some.inj hinit).symm, (Option.some.inj hopen).symm⟩

/-- The two programs compute the same geometry. -/
theorem fatPopulate_eq {b : FatBootsector} (h : Fat12Image b) (off : Int) :
    (fatPopulate off b).fdata =
      { sectorSize := 512
        clusterSize := (fatHandle b).clusterSize
        fatOffset := (fatHandle b).fatOffset
        dataOffset := (fatHandle b).dataOffset
        rootdirFirst := (fatHandle b).rootDir.firstCluster } ∧
    (fatHandle b).clusterSize = 512 := by
  obtain ⟨hbps, hspc, -, hfits⟩ := h
  simp only [fatPopulate, fatHandle, hbps, hspc, sizeofFatDirent] at hfits ⊢
  have hmul : u32 (u32 (b.sectorsPerFat * 512) * b.fatCopies)
      = u32 (b.sectorsPerFat * 512 * b.fatCopies) := Nat.mod_mul_mod _ _ _
  have hcs : 1 * 512 % 2 ^ 16 = 1 * 512 := rfl
  rw [hmul, hcs]
  -- none of the sums leaves the range of `off_t`
  have hres : s32 (b.reservedSectors * 512 : Nat) = (b.reservedSectors * 512 : Nat) :=
    s32_of_range (by omega) (by omega)
  rw [hres, u32_of_lt (x := b.sectorsPerFat * 512 * b.fatCopies) (by omega),
    u32_of_lt (x := b.rootDirEntries * 32) (by omega),
    s32_of_range (x := (b.reservedSectors * 512 : Nat) + _) (by omega) (by omega),
    s32_of_range (by omega) (by omega)]
  exact ⟨rfl, trivial⟩

/-! ## One step -/

/-- The geometry of such an image, as the lookups need it. -/
theorem Fat12Image.layout {b : FatBootsector} (h : Fat12Image b) (off : Int) :
    Fat12Layout (fatPopulate off b).fdata := by
  obtain ⟨hfd, hcs⟩ := fatPopulate_eq h off
  have hbps := h.bytesPerSector_eq
  have hpos := h.reserved_pos
  rw [hfd, hcs]
  constructor <;> simp only [fatHandle, hbps] <;> omega

/-- Without failing reads sector_mapper takes the entry the FAT holds. -/
theorem getFatEntry_eq {pread : Pread} {vol : Int → UInt8} (hP : PreadDelivers pread vol)
    {fd : FatData} {hand : FatHandle} (hoff : hand.fatOffset = fd.fatOffset) {n : Nat}
    (hn : n * 3 < 2 ^ 32) : getFatEntry pread hand n = fatEntryAt fd vol n := by
  have hlt := leNat_lt (loadAt vol (fd.fatOffset + (n * 3 / 2 : Nat)) 2)
  rw [length_loadAt] at hlt
  rw [getFatEntry, hP, length_loadAt, if_neg (not_not.mpr rfl), u32_of_lt hn, hoff]
  exact fatEntry_bits n hlt

section Step

variable {S : StorageHand ι} {pread : Pread} {vol : Int → UInt8} {fd : FatData} {hand : FatHandle}

/-- The handles of the two programs describe the same image. -/
structure SameGeometry (fd : FatData) (hand : FatHandle) : Prop where
  layout : Fat12Layout fd
  clusterSize_eq : fd.clusterSize = 512
  clusterSize_hand : hand.clusterSize = 512
  fatOffset_eq : hand.fatOffset = fd.fatOffset
  dataOffset_eq : fd.dataOffset = hand.dataOffset
  rootdirFirst_eq : fd.rootdirFirst = hand.rootDir.firstCluster
  rootdirFirst_nonneg : 0 ≤ hand.rootDir.firstCluster
  fits : hand.dataOffset + (4096 * 512 : Nat) ≤ 2 ^ 31

theorem Fat12Image.sameGeometry {b : FatBootsector} (h : Fat12Image b) (off : Int) :
    SameGeometry (fatPopulate off b).fdata (fatHandle b) := by
  obtain ⟨hfd, hcs⟩ := fatPopulate_eq h off
  refine ⟨h.layout off, ?_, hcs, ?_, ?_, ?_, ?_, h.fits⟩
  · rw [hfd]
    exact hcs
  · rw [hfd]
  · rw [hfd]
  · rw [hfd]
  · simp only [fatHandle]
    omega

/-- The root directory is contiguous to both. -/
theorem nextCluster_root (hg : SameGeometry fd hand) (s : FatState ι) {c : Int}
    (hlow : c < hand.dataOffset) :
    (fatGetNextCluster S fd s c).1 = getNextCluster pread hand c ∧
      (fatGetNextCluster S fd s c).2 = s := by
  have hfits := hg.fits
  have hfirst := hg.rootdirFirst_nonneg
  rw [fatGetNextCluster, getNextCluster, hg.dataOffset_eq, hg.rootdirFirst_eq, hg.clusterSize_eq,
    hg.clusterSize_hand, if_pos hlow, if_pos hlow]
  by_cases hbelow : c < hand.rootDir.firstCluster
  · rw [if_pos hbelow, if_pos hbelow]
    exact ⟨rfl, rfl⟩
  · rw [if_neg hbelow, if_neg hbelow, s32_of_range (by omega) (by omega)]
    split <;> exact ⟨rfl, rfl⟩

/-- From a data cluster sector_mapper goes where the entry says. -/
theorem getNextCluster_data (hP : PreadDelivers pread vol) (hg : SameGeometry fd hand) {c : Int}
    (hge : ¬ c < hand.dataOffset) (hnum : clusterNumAt fd c * 3 < 2 ^ 32) :
    getNextCluster pread hand c =
      if fatEntryAt fd vol (clusterNumAt fd c) ≥ 0x002 ∧
          fatEntryAt fd vol (clusterNumAt fd c) < 0xff0 then
        fd.dataOffset + ((fatEntryAt fd vol (clusterNumAt fd c) - 2) * 512 : Nat)
      else 0 := by
  have htool : toU32 ((c - hand.dataOffset).tdiv hand.clusterSize + 2) = clusterNumAt fd c := by
    rw [clusterNumAt, hg.dataOffset_eq, hg.clusterSize_eq, hg.clusterSize_hand]
  rw [getNextCluster, if_neg hge]
  dsimp only
  rw [htool, getFatEntry_eq hP hg.fatOffset_eq hnum, hg.clusterSize_hand, hg.dataOffset_eq]

/-- The number of a data cluster is that of the cluster its offset lies in. -/
theorem SameGeometry.clusterNum_bounds (hg : SameGeometry fd hand) {c : Int} (hc : c < 2 ^ 31)
    (hge : ¬ c < hand.dataOffset) :
    2 ≤ clusterNumAt fd c ∧ fd.dataOffset + ((clusterNumAt fd c : Int) - 2) * 512 ≤ c := by
  have hdata := hg.dataOffset_eq
  have hpos := hg.layout.data_pos
  have hdiv : (c - fd.dataOffset).tdiv (512 : Nat) = (c - fd.dataOffset) / 512 :=
    Int.tdiv_eq_ediv_of_nonneg (by omega)
  have hnum : (clusterNumAt fd c : Int) = (c - fd.dataOffset) / 512 + 2 := by
    rw [clusterNumAt, hg.clusterSize_eq, toU32_of_nonneg (by omega) (by omega)]
    omega
  omega

/-- From one cluster: the loader's next one, and sector_mapper's. -/
theorem nextCluster_step (hS : Delivers S vol) (hP : PreadDelivers pread vol)
    (hg : SameGeometry fd hand) {s : FatState ι} (hs : CacheMatches fd vol s.cache) {c : Int}
    (hc : c < 2 ^ 31) :
    CacheMatches fd vol (fatGetNextCluster S fd s c).2.cache ∧
      getNextCluster pread hand c < 2 ^ 31 ∧
      (AmbiguousEnd fd vol c ∧ (fatGetNextCluster S fd s c).1 ≠ 0 ∧
          getNextCluster pread hand c = 0 ∨
        ¬ AmbiguousEnd fd vol c ∧
          (fatGetNextCluster S fd s c).1 = getNextCluster pread hand c) := by
  have hdata := hg.dataOffset_eq
  have hfits := hg.fits
  by_cases hlow : c < hand.dataOffset
  · obtain ⟨hnext, hstate⟩ := @nextCluster_root _ S pread _ _ hg s _ hlow
    have hnot : ¬ AmbiguousEnd fd vol c := by
      rw [AmbiguousEnd, hdata]
      omega
    refine ⟨by rw [hstate]; exact hs, ?_, Or.inr ⟨hnot, hnext⟩⟩
    rw [getNextCluster, if_pos hlow, hg.clusterSize_hand]
    split_ifs <;> omega
  · have hge : fd.dataOffset ≤ c := by omega
    obtain ⟨hnum2, hnum⟩ := hg.clusterNum_bounds hc hlow
    have hpos := hg.layout.data_pos
    have hfo := hg.layout.fat_le_data
    have hfo0 := hg.layout.fat_nonneg
    obtain ⟨hcache, hentry⟩ := fatGetFatEntry_spec hg.layout.geometry
      (c := clusterNumAt fd c) (fun a _ _ d => hS d a fd.clusterSize) hs (by omega) (by omega)
    obtain ⟨hloader, hstate⟩ := fatGetNextCluster_data S fd s (c := c) (by omega)
    rw [hentry, hg.clusterSize_eq] at hloader
    refine ⟨by rw [hstate]; exact hcache, ?_⟩
    rw [getNextCluster_data hP hg hlow (by omega), hloader, AmbiguousEnd]
    generalize fatEntryAt fd vol (clusterNumAt fd c) = e
    have hsum : e ≤ 0xff0 →
        s32 (fd.dataOffset + ((e - 2) * 512 : Nat)) = fd.dataOffset + ((e - 2) * 512 : Nat) :=
      fun _ => s32_of_range (by omega) (by omega)
    by_cases hend : e = 0xff0
    · -- the loader goes on, sector_mapper stops
      have hgo : e ≥ 0x002 ∧ e ≤ 0xff0 := by omega
      have hstop : ¬ (e ≥ 0x002 ∧ e < 0xff0) := by omega
      rw [if_pos hgo, if_neg hstop, hsum hgo.2]
      exact ⟨by omega, Or.inl ⟨⟨hge, hend⟩, by omega, rfl⟩⟩
    · by_cases hmid : e ≥ 0x002 ∧ e < 0xff0
      · have hgo : e ≥ 0x002 ∧ e ≤ 0xff0 := by omega
        rw [if_pos hgo, if_pos hmid, hsum hgo.2]
        exact ⟨by omega, Or.inr ⟨fun h => hend h.2, rfl⟩⟩
      · have hstop : ¬ (e ≥ 0x002 ∧ e ≤ 0xff0) := by omega
        rw [if_neg hstop, if_neg hmid]
        exact ⟨by omega, Or.inr ⟨fun h => hend h.2, rfl⟩⟩

end Step

/-! ## Chains -/

/-- On every image both programs accept, with every cache that matches it and
    from every cluster offset: the next cluster is the same unless the entry
    is 0xff0, and the chains are the same exactly if that is the entry of no
    data cluster on them. -/
theorem nextCluster_agree_iff (S : StorageHand ι) (pread : Pread) (vol : Int → UInt8)
    (hS : Delivers S vol) (hP : PreadDelivers pread vol) (s₀ : FatState ι) (fs : FsHand)
    (hinit : (fsFatInit S s₀ 0).1 = some fs) (hand : FatHandle) (hopen : fatOpen pread = some hand)
    (himg : Fat12Image (fatBootsector vol)) (s : FatState ι) (hs : CacheMatches fs.fdata vol s.cache)
    (c : Int) (hc : c < 2 ^ 31) :
    ((fatGetNextCluster S fs.fdata s c).1 = getNextCluster pread hand c ↔
        ¬ AmbiguousEnd fs.fdata vol c) ∧
      ((∀ n, loaderChain S fs.fdata n s c = toolChain pread hand n c) ↔
        ∀ n, ∀ d ∈ toolChain pread hand n c, ¬ AmbiguousEnd fs.fdata vol d) := by
  obtain ⟨rfl, rfl⟩ := opened_delivers hS hP hinit hopen
  have hagree : AgreeBut (fatGetNextCluster S (fatPopulate 0 (fatBootsector vol)).fdata)
      (fun (_ : Unit) c => (getNextCluster pread (fatHandle (fatBootsector vol)) c, ()))
      (fun s _ => CacheMatches (fatPopulate 0 (fatBootsector vol)).fdata vol s.cache)
      (· < 2 ^ 31) (AmbiguousEnd (fatPopulate 0 (fatBootsector vol)).fdata vol) := by
    intro s _ c hs hc
    obtain ⟨hcache, hlt, hstep⟩ := nextCluster_step hS hP (himg.sameGeometry _) hs hc
    refine ⟨hcache, hlt, ?_⟩
    rcases hstep with ⟨hend, hne, hzero⟩ | ⟨hgood, heq⟩
    · exact iff_of_false (fun h => hne (h.trans hzero)) (not_not.mpr hend)
    · exact iff_of_true heq hgood
  -- the chains follow from the step, as long as no such entry is met
  exact ⟨(hagree s () c hs hc).2.2, follow_agree_iff hagree hs hc⟩

/-! ## An image with the entry -/

namespace LastEntry

/-- The small volume, with an entry for cluster 2. -/
def vol (x : Int) : UInt8 :=
  if x = 515 then 0xf0 else if x = 516 then 0x0f else SmallVolume.vol x

def storage : StorageHand Unit := ⟨fun d off n => ((loadAt vol off n, n), d)⟩

def pread : Pread := fun n off => loadAt vol off n

theorem delivers : Delivers storage vol := fun _ _ _ => rfl

theorem preadDelivers : PreadDelivers pread vol := fun _ _ => rfl

theorem bootsec_eq : fatBootsector vol = SmallVolume.bootsec := by decide +kernel

theorem image : Fat12Image (fatBootsector vol) := by
  rw [bootsec_eq]
  constructor <;> decide

/-- No sector of the FAT is cached. -/
def start : FatState Unit := ⟨(), ⟨fun _ => 4096, fun _ => 0, fun _ => 0⟩, fun _ => 0⟩

theorem start_matches : CacheMatches (fatPopulate 0 (fatBootsector vol)).fdata vol start.cache := by
  -- behind the root directory the volume is zero
  apply cacheMatches_const (y := 0) fun _ => rfl
  intro i j
  have hclust : start.cache.clust i = 4096 := rfl
  rw [hclust, vol, SmallVolume.vol]
  repeat rw [if_neg (by omega)]

end LastEntry

/-- Cluster 3, whose entry is zero, is the end of its chain to both. -/
theorem nextCluster_agree_iff_three :
    (fatGetNextCluster LastEntry.storage (fatPopulate 0 SmallVolume.bootsec).fdata LastEntry.start
        2048).1 = getNextCluster LastEntry.pread (fatHandle SmallVolume.bootsec) 2048 := by
  have hagree := nextCluster_agree_iff LastEntry.storage LastEntry.pread LastEntry.vol
    LastEntry.delivers LastEntry.preadDelivers LastEntry.start _
    (fsFatInit_delivers LastEntry.delivers _) _ (fatOpen_delivers LastEntry.preadDelivers)
    LastEntry.image LastEntry.start LastEntry.start_matches 2048 (by decide)
  rw [LastEntry.bootsec_eq] at hagree
  have hentry : fatEntryAt (fatPopulate 0 SmallVolume.bootsec).fdata LastEntry.vol
      (clusterNumAt (fatPopulate 0 SmallVolume.bootsec).fdata 2048) ≠ 0xff0 := by
    decide +kernel
  exact hagree.1.mpr fun h => hentry h.2

/-- The unconditional statement fails: cluster 2, whose entry is 0xff0. -/
theorem nextCluster_disagree :
    ¬ ∀ (S : StorageHand Unit) (pread : Pread) (vol : Int → UInt8), Delivers S vol →
      PreadDelivers pread vol → ∀ (fs : FsHand) (hand : FatHandle) (s₀ s : FatState Unit),
      (fsFatInit S s₀ 0).1 = some fs → fatOpen pread = some hand →
      Fat12Image (fatBootsector vol) → CacheMatches fs.fdata vol s.cache → ∀ c : Int, c < 2 ^ 31 →
        (fatGetNextCluster S fs.fdata s c).1 = getNextCluster pread hand c := by
  intro hall
  have heq := hall LastEntry.storage LastEntry.pread LastEntry.vol LastEntry.delivers
    LastEntry.preadDelivers _ _ LastEntry.start LastEntry.start
    (fsFatInit_delivers LastEntry.delivers _) (fatOpen_delivers LastEntry.preadDelivers)
    LastEntry.image LastEntry.start_matches 1536 (by decide)
  rw [LastEntry.bootsec_eq] at heq
  have htool : getNextCluster LastEntry.pread (fatHandle SmallVolume.bootsec) 1536 = 0 := by
    decide +kernel
  have hloader : (fatGetNextCluster LastEntry.storage (fatPopulate 0 SmallVolume.bootsec).fdata
      LastEntry.start 1536).1 = 0x1fe200 := by
    decide +kernel
  rw [htool, hloader] at heq
  exact absurd heq (by decide)

end LBoot.Tools
