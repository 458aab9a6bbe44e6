/-
  LBoot.Storage.FatCoherence

  The FAT cache against the storage below it.

  A lookup that misses reads the storage, so it returns what an uncached read
  returns, and a sector it brings in is the storage's.  A lookup that hits
  returns what the slot holds.  Over any run of lookups the two agree as soon
  as the slots agree with the storage at the start (`Coherent`): every slot
  that is tagged with a sector must hold what lookups see of it.

  `fs_fat_init` does not establish this.  It leaves the tags as `alloc`
  returned them, and a tag that happens to be the address of a sector makes
  its slot a false hit (`fat_cache_transparent`).
-/

import LBoot.Storage.FatInit
import LBoot.Storage.FatLookup

namespace LBoot.Storage

open LBoot.Lib

variable {ι : Type*}

/-- What a storage answers to a read: the bytes, and the value returned. -/
abbrev StorageImage := Int → Nat → List UInt8 × Int

/-- Every read is answered from the image. -/
def Answers (S : StorageHand ι) (img : StorageImage) : Prop :=
  ∀ d off n, (S.read d off n).1 = img off n

/-- A read that succeeds delivers all the bytes. -/
def WholeBlocks (img : StorageImage) : Prop :=
  ∀ off n bytes, img off n = (bytes, (n : Int)) → bytes.length = n

/-- `_fat_read_fat_data` without the cache. -/
def fatReadUncached (S : StorageHand ι) (fd : FatData) (dev : ι) (tmp : Int → UInt8) (off : Int)
    (sz : Nat) : Nat :=
  let readAddr := off - off.tmod fd.sectorSize
  match S.read dev readAddr fd.clusterSize with
  | ((bytes, ret), _) =>
      if ret ≠ fd.clusterSize then 0xffffffff
      else fatMask sz (leNat (loadAt (storeAt tmp 0 bytes) (off - readAddr) 4))

/-- A lookup, with the device and the scratch buffer as what ran before has
    left them. -/
structure FatLookup (ι : Type*) where
  off : Int
  sz : Nat
  dev : ι
  tmp : Int → UInt8

/-- The lookup is of bytes of the cluster it reads; a size of which
    `_fat_read_fat_data` makes no value is of none. -/
def FatLookup.InCluster (fd : FatData) (l : FatLookup ι) : Prop :=
  0 ≤ l.off ∧ (1 ≤ l.sz → l.sz ≤ 4 → l.off.tmod fd.sectorSize + l.sz ≤ fd.clusterSize)

/-- The values of lookups, one after the other. -/
def fatLookups (S : StorageHand ι) (fd : FatData) : FatCache → List (FatLookup ι) → List Nat
  | _, [] => []
  | c, l :: ls =>
      let (value, s) := fatReadFatData S fd ⟨l.dev, c, l.tmp⟩ l.off l.sz
      value :: fatLookups S fd s.cache ls

/-- Every run of lookups returns what uncached reads return. -/
def Transparent (S : StorageHand ι) (fd : FatData) (c : FatCache) : Prop :=
  ∀ ls : List (FatLookup ι), (∀ l ∈ ls, l.InCluster fd) →
    fatLookups S fd c ls = ls.map fun l => fatReadUncached S fd l.dev l.tmp l.off l.sz

/-! ## Coherence -/

/-- An address at which a lookup reads. -/
def IsSector (fd : FatData) (a : Int) : Prop := 0 ≤ a ∧ (fd.sectorSize : Int) ∣ a

/-- How much of a cluster lookups see: those of four bytes go three bytes
    beyond the sector. -/
def fatReach (fd : FatData) : Nat := min fd.clusterSize (fd.sectorSize + 3)

/-- The storage can be read at the tag of the slot, and lookups see the bytes
    it delivers. -/
def SlotCoherent (img : StorageImage) (fd : FatData) (c : FatCache) (i : Fin fatCacheCnt) : Prop :=
  ∃ bytes, img (c.clust i) fd.clusterSize = (bytes, (fd.clusterSize : Int)) ∧
    (fatSlot fd c i).take (fatReach fd) = bytes.take (fatReach fd)

/-- The slots that are tagged with a sector are coherent. -/
def Coherent (img : StorageImage) (fd : FatData) (c : FatCache) : Prop :=
  ∀ i, IsSector fd (c.clust i) → SlotCoherent img fd c i

variable {S : StorageHand ι} {fd : FatData} {img : StorageImage} {c : FatCache}

theorem Coherent.touch (h : Coherent img fd c) (i : Fin fatCacheCnt) :
    Coherent img fd (fatCacheTouch c i) := h

/-- A sector that was just read is coherent. -/
theorem Coherent.add (h : Coherent img fd c) (hwhole : WholeBlocks img) {bytes : List UInt8}
    {a : Int} (hread : img a fd.clusterSize = (bytes, (fd.clusterSize : Int))) :
    Coherent img fd (fatAddCache fd c bytes a) := by
  have hlen := hwhole _ _ _ hread
  intro i hi
  have hclust : (fatAddCache fd c bytes a).clust i
      = if i = fatCacheOldest c then a else c.clust i := rfl
  rw [hclust] at hi
  rw [SlotCoherent, hclust, fatSlot_add c a hlen]
  split at hi
  · next heq => simp only [if_pos heq]; exact ⟨bytes, hread, rfl⟩
  · next hne => simp only [if_neg hne]; exact h i hi

/-! ## Values -/

theorem fatMask_eq {sz : Nat} (hlo : 1 ≤ sz) (hhi : sz ≤ 4) (data : Nat) :
    fatMask sz data = data % 256 ^ sz := by
  obtain rfl | rfl | rfl | rfl : sz = 1 ∨ sz = 2 ∨ sz = 3 ∨ sz = 4 := by omega
  · exact Nat.and_two_pow_sub_one_eq_mod data 8
  · exact Nat.and_two_pow_sub_one_eq_mod data 16
  · exact Nat.and_two_pow_sub_one_eq_mod data 24
  · exact Nat.and_two_pow_sub_one_eq_mod data 32

/-- The value of a lookup is made of `sz` bytes. -/
theorem fatMask_word {sz : Nat} (hlo : 1 ≤ sz) (hhi : sz ≤ 4) (m : Int → UInt8) (k : Int) :
    fatMask sz (leNat (loadAt m k 4)) = leNat (loadAt m k sz) := by
  obtain ⟨w, hw⟩ := Nat.exists_eq_add_of_le hhi
  have hlt := leNat_lt (loadAt m k sz)
  rw [length_loadAt] at hlt
  rw [fatMask_eq hlo hhi, hw, loadAt_append, leNat_append, length_loadAt,
    Nat.add_mul_mod_self_left, Nat.mod_eq_of_lt hlt]

theorem fatMask_other {sz : Nat} (h : ¬ (1 ≤ sz ∧ sz ≤ 4)) (data : Nat) :
    fatMask sz data = 0xffffffff := by
  rw [fatMask] <;> omega

/-- Two numbers of as many bytes are equal only if the bytes are. -/
theorem leNat_inj {bs cs : List UInt8} (hlen : bs.length = cs.length) (h : leNat bs = leNat cs) :
    bs = cs := by
  rw [← toLe_leNat bs, ← toLe_leNat cs, hlen, h]

/-- The value of a lookup in a block of bytes that covers it. -/
theorem fatMask_block {sz k : Nat} (hlo : 1 ≤ sz) (hhi : sz ≤ 4) {bs : List UInt8} {n : Nat}
    (hn : k + sz ≤ n) (hlen : n ≤ bs.length) (tmp : Int → UInt8) :
    fatMask sz (leNat (loadAt (storeAt tmp 0 bs) k 4)) = leNat (((bs.take n).drop k).take sz) := by
  have hfit : k + sz ≤ bs.length := by omega
  have hinside := loadAt_inside (loadAt_storeAt tmp 0 bs) hfit
  rw [Int.zero_add] at hinside
  rw [fatMask_word hlo hhi, hinside, List.drop_take, List.take_take, min_eq_left (by omega)]

/-! ## Hits and misses -/

theorem fatCacheFind_clust {a : Int} {i : Fin fatCacheCnt} (h : fatCacheFind c a = some i) :
    c.clust i = a := by
  rw [fatCacheFind] at h
  simpa using List.find?_some h

theorem back_to_offset (off : Int) : off - (off - off.tmod fd.sectorSize) = off.tmod fd.sectorSize := by
  omega

/-- A hit returns what the slot holds. -/
theorem fatReadFatData_hit (S : StorageHand ι) (dev : ι) (tmp : Int → UInt8) {off : Int} (sz : Nat)
    {i : Fin fatCacheCnt} (hfind : fatCacheFind c (off - off.tmod fd.sectorSize) = some i) :
    (fatReadFatData S fd ⟨dev, c, tmp⟩ off sz).1 =
        fatMask sz (leNat (loadAt (storeAt tmp 0 (fatSlot fd c i)) (off.tmod fd.sectorSize) 4)) ∧
      ((fatReadFatData S fd ⟨dev, c, tmp⟩ off sz).2.cache = c ∨
        (fatReadFatData S fd ⟨dev, c, tmp⟩ off sz).2.cache = fatCacheTouch c i) := by
  rw [fatReadFatData, fatFetch, fatTryCache, hfind, back_to_offset]
  dsimp only
  split
  · exact ⟨rfl, Or.inr rfl⟩
  · exact ⟨rfl, Or.inl rfl⟩

/-- A miss returns what an uncached read returns, and caches what it read. -/
theorem fatReadFatData_miss (S : StorageHand ι) (dev : ι) (tmp : Int → UInt8) {off : Int} (sz : Nat)
    (hfind : fatCacheFind c (off - off.tmod fd.sectorSize) = none) :
    (fatReadFatData S fd ⟨dev, c, tmp⟩ off sz).1 = fatReadUncached S fd dev tmp off sz ∧
      ((fatReadFatData S fd ⟨dev, c, tmp⟩ off sz).2.cache = c ∨
        ∃ bytes, (S.read dev (off - off.tmod fd.sectorSize) fd.clusterSize).1
            = (bytes, (fd.clusterSize : Int)) ∧
          (fatReadFatData S fd ⟨dev, c, tmp⟩ off sz).2.cache
            = fatAddCache fd c (loadAt (storeAt tmp 0 bytes) 0 fd.clusterSize)
                (off - off.tmod fd.sectorSize)) := by
  rw [fatReadFatData, fatReadUncached, fatFetch, fatTryCache, hfind]
  cases hread : S.read dev (off - off.tmod fd.sectorSize) fd.clusterSize with
  | mk res dev' =>
      obtain ⟨bytes, ret⟩ := res
      by_cases hret : ret = fd.clusterSize
      · simp only [hread, hret, ne_eq, not_true, if_false]
        exact ⟨trivial, Or.inr ⟨bytes, rfl, rfl⟩⟩
      · simp only [hread, hret, ne_eq, not_false_eq_true, if_true]
        exact ⟨trivial, Or.inl trivial⟩

theorem fatReadUncached_ok (hS : Answers S img) (dev : ι) (tmp : Int → UInt8) {off : Int}
    {sz : Nat} {bytes : List UInt8}
    (hread : img (off - off.tmod fd.sectorSize) fd.clusterSize = (bytes, (fd.clusterSize : Int))) :
    fatReadUncached S fd dev tmp off sz
      = fatMask sz (leNat (loadAt (storeAt tmp 0 bytes) (off.tmod fd.sectorSize) 4)) := by
  have hans := hS dev (off - off.tmod fd.sectorSize) fd.clusterSize
  rw [hread] at hans
  rw [fatReadUncached, back_to_offset]
  simp only [hans, ne_eq, not_true, if_false]

theorem fatReadUncached_failed (hS : Answers S img) (dev : ι) (tmp : Int → UInt8) {off : Int}
    {sz : Nat} {bytes : List UInt8} {ret : Int}
    (hread : img (off - off.tmod fd.sectorSize) fd.clusterSize = (bytes, ret))
    (hret : ret ≠ fd.clusterSize) : fatReadUncached S fd dev tmp off sz = 0xffffffff := by
  have hans := hS dev (off - off.tmod fd.sectorSize) fd.clusterSize
  rw [hread] at hans
  rw [fatReadUncached]
  simp only [hans, hret, ne_eq, not_false_eq_true, if_true]

/-- One lookup with a coherent cache. -/
theorem fatReadFatData_coherent (hS : Answers S img) (hwhole : WholeBlocks img)
    (hss : 0 < fd.sectorSize) (h : Coherent img fd c) {l : FatLookup ι} (hl : l.InCluster fd) :
    (fatReadFatData S fd ⟨l.dev, c, l.tmp⟩ l.off l.sz).1
        = fatReadUncached S fd l.dev l.tmp l.off l.sz ∧
      Coherent img fd (fatReadFatData S fd ⟨l.dev, c, l.tmp⟩ l.off l.sz).2.cache := by
  obtain ⟨off, sz, dev, tmp⟩ := l
  obtain ⟨hoff, hin⟩ := hl
  obtain ⟨o, rfl⟩ := Int.eq_ofNat_of_zero_le hoff
  have hmod : ((o : Nat) : Int).tmod fd.sectorSize = (o % fd.sectorSize : Nat) := rfl
  have hlt := Nat.mod_lt o hss
  dsimp only at hin ⊢
  cases hfind : fatCacheFind c (o - (o : Int).tmod fd.sectorSize) with
  | none =>
      -- a miss reads the device, as an uncached read does
      obtain ⟨hval, hcache⟩ := fatReadFatData_miss S dev tmp sz hfind
      refine ⟨hval, ?_⟩
      rcases hcache with hsame | ⟨bytes, hread, hadd⟩
      · rw [hsame]
        exact h
      · rw [hS] at hread
        have hload := loadAt_storeAt tmp 0 bytes
        rw [hwhole _ _ _ hread] at hload
        rw [hadd, hload]
        exact h.add hwhole hread
  | some i =>
      obtain ⟨hval, hcache⟩ := fatReadFatData_hit S dev tmp sz hfind
      refine ⟨?_, ?_⟩
      · have hclust := fatCacheFind_clust hfind
        -- the slot found is that of a sector, so it holds what the device has
        have hsector : IsSector fd (c.clust i) := by
          rw [hclust, hmod]
          have hdiv : (fd.sectorSize : Int) ∣ (o : Int) - (o % fd.sectorSize : Nat) := by
            rw [Int.natCast_emod]
            exact Int.dvd_self_sub_emod
          have hle := Nat.mod_le o fd.sectorSize
          exact ⟨by omega, hdiv⟩
        obtain ⟨bytes, hread, htake⟩ := h i hsector
        rw [hclust] at hread
        rw [hval, fatReadUncached_ok hS dev tmp hread]
        by_cases hsz : 1 ≤ sz ∧ sz ≤ 4
        · -- what the lookup sees lies in front of `fatReach`
          have hfit := hin hsz.1 hsz.2
          rw [hmod] at hfit ⊢
          have hreach : o % fd.sectorSize + sz ≤ fatReach fd := by
            rw [fatReach]
            omega
          have hle : fatReach fd ≤ fd.clusterSize := min_le_left _ _
          rw [fatMask_block hsz.1 hsz.2 hreach (by rw [fatSlot, length_loadAt]; exact hle),
            fatMask_block hsz.1 hsz.2 hreach (by rw [hwhole _ _ _ hread]; exact hle), htake]
        · rw [fatMask_other hsz, fatMask_other hsz]
      · rcases hcache with hsame | htouch
        · rw [hsame]
          exact h
        · rw [htouch]
          exact h.touch i

/-! ## Runs of lookups -/

theorem transparent_of_coherent (hS : Answers S img) (hwhole : WholeBlocks img)
    (hss : 0 < fd.sectorSize) (h : Coherent img fd c) : Transparent S fd c := by
  intro ls
  induction ls generalizing c with
  | nil => exact fun _ => rfl
  | cons l ls ih =>
      intro hin
      obtain ⟨hval, hnext⟩ := fatReadFatData_coherent hS hwhole hss h (hin l List.mem_cons_self)
      rw [fatLookups, List.map_cons]
      exact List.cons_eq_cons.mpr ⟨hval, ih hnext fun l' hl' => hin l' (List.mem_cons_of_mem _ hl')⟩

theorem sector_tmod {a j : Nat} (ha : fd.sectorSize ∣ a) (hj : j < fd.sectorSize) :
    ((a + j : Nat) : Int).tmod fd.sectorSize = j ∧
      ((a + j : Nat) : Int) - ((a + j : Nat) : Int).tmod fd.sectorSize = a := by
  have hmod : ((a + j : Nat) : Int).tmod fd.sectorSize = j := by
    show (((a + j) % fd.sectorSize : Nat) : Int) = j
    rw [Nat.add_mod, Nat.mod_eq_zero_of_dvd ha, Nat.zero_add, Nat.mod_mod, Nat.mod_eq_of_lt hj]
  exact ⟨hmod, by omega⟩

/-- What one lookup of a tagged sector tells about its slot. -/
theorem Transparent.lookup (h : Transparent S fd c) (dev : ι) (tmp : Int → UInt8) (j sz : Nat)
    {a : Nat} {i : Fin fatCacheCnt} (hfind : fatCacheFind c a = some i) (ha : fd.sectorSize ∣ a)
    (hj : j < fd.sectorSize) (hfit : j + sz ≤ fd.clusterSize) :
    fatMask sz (leNat (loadAt (storeAt tmp 0 (fatSlot fd c i)) j 4))
      = fatReadUncached S fd dev tmp (a + j : Nat) sz := by
  obtain ⟨hmod, hbase⟩ := sector_tmod ha hj
  have hrun := h [⟨(a + j : Nat), sz, dev, tmp⟩] fun l hl => by
    obtain rfl := List.mem_singleton.mp hl
    refine ⟨Int.natCast_nonneg _, fun _ _ => ?_⟩
    dsimp only
    rw [hmod]
    omega
  rw [← hbase] at hfind
  obtain ⟨hval, -⟩ := fatReadFatData_hit S dev tmp sz hfind
  rw [hmod] at hval
  rw [← hval]
  exact (List.cons_eq_cons.mp hrun).1

/-- A run of one lookup finds a slot that is not coherent, if it is the first
    with its tag. -/
theorem Transparent.slot (h : Transparent S fd c) (hS : Answers S img) (hwhole : WholeBlocks img)
    (hss : 0 < fd.sectorSize) (hcs : 0 < fd.clusterSize) (dev : ι) {i : Fin fatCacheCnt}
    (hfind : fatCacheFind c (c.clust i) = some i) (hsector : IsSector fd (c.clust i)) :
    SlotCoherent img fd c i := by
  obtain ⟨hnonneg, hdvd⟩ := hsector
  obtain ⟨a, ha⟩ := Int.eq_ofNat_of_zero_le hnonneg
  rw [ha] at hfind hdvd
  have hdvd' : fd.sectorSize ∣ a := Int.natCast_dvd_natCast.mp hdvd
  have hlook (j sz : Nat) := h.lookup dev (fun _ => 0) j sz hfind hdvd'
  cases hread : img a fd.clusterSize with
  | mk bytes ret =>
      have hret : ret = fd.clusterSize := by
        -- a failed read returns more than a byte
        by_contra hne
        obtain ⟨-, hbase⟩ := sector_tmod hdvd' hss
        have hone := hlook 0 1 hss (by omega)
        have hlt := leNat_lt (loadAt (storeAt (fun _ => 0) 0 (fatSlot fd c i)) (0 : Nat) 1)
        rw [length_loadAt] at hlt
        rw [fatMask_word (Nat.le_refl 1) (by omega),
          fatReadUncached_failed hS dev _ (by rw [hbase]; exact hread) hne] at hone
        omega
      subst hret
      refine ⟨bytes, by rw [ha]; exact hread, ?_⟩
      have hlenb : bytes.length = fd.clusterSize := hwhole _ _ _ hread
      have hlens : (fatSlot fd c i).length = fd.clusterSize := length_loadAt _ _ _
      apply List.ext_getElem?
      intro k
      rcases Nat.lt_or_ge k (fatReach fd) with hk | hk
      · rw [List.getElem?_take_of_lt hk, List.getElem?_take_of_lt hk]
        rw [fatReach, lt_min_iff] at hk
        -- the lookup that ends in byte `k`
        obtain ⟨j, sz, hj, hsz, hjk⟩ : ∃ j sz, j < fd.sectorSize ∧ (1 ≤ sz ∧ sz ≤ 4) ∧
            j + sz = k + 1 :=
          ⟨min k (fd.sectorSize - 1), k + 1 - min k (fd.sectorSize - 1), by omega, by omega,
            by omega⟩
        obtain ⟨hmod, hbase⟩ := sector_tmod hdvd' hj
        have hval := hlook j sz hj (by omega)
        rw [fatReadUncached_ok hS dev _ (by rw [hbase]; exact hread), hmod,
          fatMask_block hsz.1 hsz.2 (n := fd.clusterSize) (by omega) (by omega),
          fatMask_block hsz.1 hsz.2 (n := fd.clusterSize) (by omega) (by omega),
          List.take_of_length_le (l := fatSlot fd c i) (by omega),
          List.take_of_length_le (l := bytes) (by omega)] at hval
        have hbytes := leNat_inj (by simp only [List.length_take, List.length_drop]; omega) hval
        have hcell := congrArg (·[sz - 1]?) hbytes
        simp only [List.getElem?_take_of_lt (by omega : sz - 1 < sz), List.getElem?_drop] at hcell
        have hidx : j + (sz - 1) = k := by omega
        rwa [hidx] at hcell
      · rw [List.getElem?_eq_none (by rw [List.length_take]; omega),
          List.getElem?_eq_none (by rw [List.length_take]; omega)]

/-- On every image, for every geometry and whatever memory the cache is laid
    out in: if the slots that happen to be tagged with a sector hold what
    lookups see of it, every run of lookups behind `fs_fat_init` returns what
    uncached reads return.  The first slot with its tag must. -/
theorem fat_cache_transparent (S : StorageHand ι) (img : StorageImage) (hS : Answers S img)
    (hwhole : WholeBlocks img) (s : FatState ι) (off : Int) (fd : FatData)
    (hss : 0 < fd.sectorSize) (hcs : 0 < fd.clusterSize) :
    (Coherent img fd s.cache → Transparent S fd (fsFatInit S s off).2.cache) ∧
    (Transparent S fd (fsFatInit S s off).2.cache →
      ∀ i, fatCacheFind s.cache (s.cache.clust i) = some i →
        IsSector fd (s.cache.clust i) → SlotCoherent img fd s.cache i) := by
  rw [fsFatInit_cache]
  exact ⟨transparent_of_coherent hS hwhole hss,
    fun h i hfind hsector => h.slot hS hwhole hss hcs s.dev hfind hsector⟩

/-- The small volume. -/
def SmallVolume.image : StorageImage := fun off n => (loadAt vol off n, n)

theorem SmallVolume.wholeBlocks : WholeBlocks image := by
  intro off n bytes h
  rw [← (Prod.mk.inj h).1, length_loadAt]

/-- The first slot has the sector of the FAT in it, and no other tag is the
    address of a sector. -/
def SmallVolume.tagged : FatState Unit :=
  ⟨(), ⟨fun i => if i.val = 0 then 512 else 1, fun _ => 0, fun x => vol (512 + x)⟩, fun _ => 0⟩

theorem SmallVolume.tagged_coherent :
    Coherent image (fatPopulate 0 bootsec).fdata tagged.cache := by
  intro i hsector
  by_cases hi : i.val = 0
  · obtain rfl : i = ⟨0, by decide⟩ := Fin.ext hi
    refine ⟨_, rfl, congrArg (List.take _) ?_⟩
    decide +kernel
  · have htag : tagged.cache.clust i = 1 := if_neg hi
    have hone : ¬ ((512 : Nat) : Int) ∣ 1 := by decide
    rw [htag] at hsector
    exact absurd hsector.2 hone

theorem fat_cache_transparent_tagged :
    Transparent SmallVolume.storage (fatPopulate 0 SmallVolume.bootsec).fdata
      (fsFatInit SmallVolume.storage SmallVolume.tagged 0).2.cache :=
  (fat_cache_transparent SmallVolume.storage SmallVolume.image (fun _ _ _ => rfl)
    SmallVolume.wholeBlocks SmallVolume.tagged 0 (fatPopulate 0 SmallVolume.bootsec).fdata
    (by decide +kernel) (by decide +kernel)).1 SmallVolume.tagged_coherent

/-- The unconditional statement fails: a slot of zeros that is tagged with the
    sector of the FAT. -/
theorem fat_cache_false_hit :
    ¬ ∀ (S : StorageHand Unit) (img : StorageImage) (s : FatState Unit) (off : Int) (fs : FsHand),
      Answers S img → WholeBlocks img → (fsFatInit S s off).1 = some fs →
        0 < fs.fdata.sectorSize → 0 < fs.fdata.clusterSize →
        Transparent S fs.fdata (fsFatInit S s off).2.cache := by
  intro hall
  have htrans := hall SmallVolume.storage SmallVolume.image
    ⟨(), ⟨fun _ => 512, fun _ => 0, fun _ => 0⟩, fun _ => 0⟩ 0 (fatPopulate 0 SmallVolume.bootsec)
    (fun _ _ _ => rfl) SmallVolume.wholeBlocks (SmallVolume.storage_init _) (by decide +kernel)
    (by decide +kernel)
  have hlookup := htrans.lookup () (fun _ => 0) 0 1 (a := 512) (i := 0) (by decide +kernel)
    (by decide +kernel) (by decide +kernel) (by decide +kernel)
  revert hlookup
  decide +kernel

end LBoot.Storage
