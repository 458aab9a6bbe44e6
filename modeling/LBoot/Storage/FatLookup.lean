/-
  LBoot.Storage.FatLookup

  What FAT lookups return on a device whose reads succeed.

  A volume is the bytes the device delivers, `vol`.  As long as every slot of
  the cache holds the bytes of the volume at its address (`CacheMatches`),
  hits and misses cannot be told apart: a lookup leaves in the scratch buffer
  the cluster that starts at the sector looked up, and keeps the cache
  matching.  From there the value of a FAT entry is arithmetic on two bytes
  (`fatEntryAt`), also where the entry is split across a cluster boundary.
-/

import LBoot.Storage.Fat
import Mathlib.Data.Nat.Bitwise
import Mathlib.Algebra.Order.Group.Unbundled.Int

namespace LBoot.Storage

open LBoot.Lib

variable {ι : Type*}

/-- Every read succeeds and delivers bytes of the volume. -/
def Delivers (S : StorageHand ι) (vol : Int → UInt8) : Prop :=
  ∀ d off n, (S.read d off n).1 = (loadAt vol off n, (n : Int))

/-- The geometry of a volume: clusters of whole sectors, the FAT in front of
    the data region. -/
structure Fat12Layout (fd : FatData) : Prop where
  sector_pos : 0 < fd.sectorSize
  cluster_pos : 0 < fd.clusterSize
  cluster_lt : fd.clusterSize < 2 ^ 16
  sector_dvd : fd.sectorSize ∣ fd.clusterSize
  fat_nonneg : 0 ≤ fd.fatOffset
  fat_le_data : fd.fatOffset ≤ fd.dataOffset
  data_pos : 0 < fd.dataOffset

/-- What a FAT lookup needs of it. -/
structure FatGeometry (fd : FatData) : Prop where
  sector_pos : 0 < fd.sectorSize
  cluster_pos : 0 < fd.clusterSize
  sector_dvd : fd.sectorSize ∣ fd.clusterSize
  fat_nonneg : 0 ≤ fd.fatOffset

theorem Fat12Layout.geometry {fd : FatData} (h : Fat12Layout fd) : FatGeometry fd :=
  ⟨h.sector_pos, h.cluster_pos, h.sector_dvd, h.fat_nonneg⟩

/-- The read of the cluster at `a` succeeds and delivers bytes of the volume. -/
def DeliversAt (S : StorageHand ι) (fd : FatData) (vol : Int → UInt8) (a : Int) : Prop :=
  ∀ d, (S.read d a fd.clusterSize).1 = (loadAt vol a fd.clusterSize, (fd.clusterSize : Int))

/-- The slots of the cache hold bytes of the volume. -/
def CacheMatches (fd : FatData) (vol : Int → UInt8) (c : FatCache) : Prop :=
  ∀ i : Fin fatCacheCnt,
    loadAt c.buf (i * fd.clusterSize) fd.clusterSize = loadAt vol (c.clust i) fd.clusterSize

/-- The entry of cluster `c` in the FAT, 12 bits packed little-endian. -/
def fatEntryAt (fd : FatData) (vol : Int → UInt8) (c : Nat) : Nat :=
  let w := leNat (loadAt vol (fd.fatOffset + (c * 3 / 2 : Nat)) 2)
  if c % 2 = 1 then w / 16 else w % 4096

/-- The address of a data cluster. -/
def clusterAddr (fd : FatData) (c : Nat) : Int := fd.dataOffset + ((c - 2) * fd.clusterSize : Nat)

variable {S : StorageHand ι} {fd : FatData} {vol : Int → UInt8}

/-! ## The cache -/

/-- A cache that is all one byte matches where it is tagged with places at
    which the volume is. -/
theorem cacheMatches_const {c : FatCache} {y : UInt8} (hbuf : ∀ x, c.buf x = y)
    (hvol : ∀ (i : Fin fatCacheCnt) (j : Nat), vol (c.clust i + j) = y) : CacheMatches fd vol c := by
  intro i
  rw [loadAt_eq_iff (length_loadAt _ _ _)]
  intro j hj
  rw [getElem?_loadAt hj, hvol, hbuf]

theorem CacheMatches.touch {c : FatCache} (h : CacheMatches fd vol c) (i : Fin fatCacheCnt) :
    CacheMatches fd vol (fatCacheTouch c i) := h

/-- The bytes of a slot. -/
def fatSlot (fd : FatData) (c : FatCache) (i : Fin fatCacheCnt) : List UInt8 :=
  loadAt c.buf (i * fd.clusterSize) fd.clusterSize

/-- A new entry replaces one slot and leaves the others alone. -/
theorem fatSlot_add (c : FatCache) {bs : List UInt8} (clust : Int)
    (hlen : bs.length = fd.clusterSize) (i : Fin fatCacheCnt) :
    fatSlot fd (fatAddCache fd c bs clust) i =
      if i = fatCacheOldest c then bs else fatSlot fd c i := by
  show loadAt (storeAt c.buf (fatCacheOldest c * fd.clusterSize) bs) (i * fd.clusterSize)
    fd.clusterSize = _
  by_cases hi : i = fatCacheOldest c
  · rw [if_pos hi, hi]
    have hload := loadAt_storeAt c.buf (fatCacheOldest c * fd.clusterSize) bs
    rwa [hlen] at hload
  · rw [if_neg hi]
    apply loadAt_storeAt_disjoint
    -- slots are a whole number of clusters apart
    rw [hlen]
    have hne : (i : Nat) ≠ (fatCacheOldest c : Nat) := fun heq => hi (Fin.ext heq)
    rcases Nat.lt_or_gt_of_ne hne with hlt | hgt
    · left
      have hmul : ((i : Nat) + 1) * fd.clusterSize ≤ (fatCacheOldest c : Nat) * fd.clusterSize :=
        Nat.mul_le_mul_right _ hlt
      rw [Nat.succ_mul] at hmul
      exact_mod_cast hmul
    · right
      have hmul : ((fatCacheOldest c : Nat) + 1) * fd.clusterSize ≤ (i : Nat) * fd.clusterSize :=
        Nat.mul_le_mul_right _ hgt
      rw [Nat.succ_mul] at hmul
      exact_mod_cast hmul

theorem CacheMatches.add {c : FatCache} (h : CacheMatches fd vol c) {bs : List UInt8}
    {clust : Int} (hbs : bs = loadAt vol clust fd.clusterSize) :
    CacheMatches fd vol (fatAddCache fd c bs clust) := by
  intro i
  show fatSlot fd (fatAddCache fd c bs clust) i
    = loadAt vol (if i = fatCacheOldest c then clust else c.clust i) fd.clusterSize
  rw [fatSlot_add c clust (by rw [hbs, length_loadAt]), hbs]
  split
  · rfl
  · exact h i

/-- Behind a lookup: the cache matches, and the scratch buffer starts with the
    cluster at `a`. -/
structure Looked (fd : FatData) (vol : Int → UInt8) (s : FatState ι) (a : Int) : Prop where
  cache : CacheMatches fd vol s.cache
  tmp : loadAt s.tmp 0 fd.clusterSize = loadAt vol a fd.clusterSize

/-- A hit leaves the cluster looked for; a miss leaves everything. -/
theorem fatTryCache_spec {s : FatState ι} (h : CacheMatches fd vol s.cache) (a : Int) :
    ((fatTryCache fd s a).1 = true ∧ Looked fd vol (fatTryCache fd s a).2 a) ∨
      fatTryCache fd s a = (false, s) := by
  rw [fatTryCache]
  cases hfind : fatCacheFind s.cache a with
  | none => exact Or.inr rfl
  | some i =>
      left
      rw [fatCacheFind] at hfind
      have hclust : s.cache.clust i = a := by simpa using List.find?_some hfind
      have hcache : CacheMatches fd vol
          (if s.cache.rank i ≠ 0 then fatCacheTouch s.cache i else s.cache) := by
        split
        · exact h.touch i
        · exact h
      have hbuf : (if s.cache.rank i ≠ 0 then fatCacheTouch s.cache i else s.cache).buf
          = s.cache.buf := by
        split <;> rfl
      refine ⟨rfl, hcache, ?_⟩
      dsimp only
      rw [hbuf, h i, hclust]
      have hload := loadAt_storeAt s.tmp 0 (loadAt vol a fd.clusterSize)
      rwa [length_loadAt] at hload

/-! ## Words of the FAT -/

theorem fatMask_one (data : Nat) : fatMask 1 data = data % 256 :=
  Nat.and_two_pow_sub_one_eq_mod data 8

theorem fatMask_two (data : Nat) : fatMask 2 data = data % 65536 :=
  Nat.and_two_pow_sub_one_eq_mod data 16

/-- The sector asked for is brought into the scratch buffer. -/
theorem fatFetch_spec {a : Int} (hS : DeliversAt S fd vol a) {s : FatState ι}
    (h : CacheMatches fd vol s.cache) : (fatFetch S fd s a).1 = true ∧ Looked fd vol (fatFetch S fd s a).2 a := by
  rw [fatFetch]
  rcases fatTryCache_spec h a with ⟨hhit, hlook⟩ | hmiss
  · generalize fatTryCache fd s a = r at hhit hlook
    obtain ⟨b, t⟩ := r
    obtain rfl : b = true := hhit
    exact ⟨rfl, hlook⟩
  · have hread := hS s.dev
    cases hr : S.read s.dev a fd.clusterSize with
    | mk res dev =>
        obtain ⟨bytes, ret⟩ := res
        rw [hr] at hread
        obtain ⟨rfl, rfl⟩ := Prod.mk.inj hread
        have htmp := loadAt_storeAt s.tmp 0 (loadAt vol a fd.clusterSize)
        rw [length_loadAt] at htmp
        simp only [hmiss, hr, ne_eq, not_true, if_false]
        exact ⟨trivial, h.add htmp, htmp⟩

/-- A lookup returns the word at its place in the cluster it loads, which
    starts at the sector of the offset. -/
theorem fatReadFatData_spec {off : Int} (hS : DeliversAt S fd vol (off - off.tmod fd.sectorSize))
    {s : FatState ι} (h : CacheMatches fd vol s.cache) (sz : Nat) :
    Looked fd vol (fatReadFatData S fd s off sz).2 (off - off.tmod fd.sectorSize) ∧
      (fatReadFatData S fd s off sz).1
        = fatMask sz (leNat (loadAt (fatReadFatData S fd s off sz).2.tmp
            (off.tmod fd.sectorSize) 4)) := by
  have hback : off - (off - off.tmod fd.sectorSize) = off.tmod fd.sectorSize := by omega
  obtain ⟨hok, hlook⟩ := fatFetch_spec hS h
  rw [fatReadFatData, hback]
  generalize fatFetch S fd s (off - off.tmod fd.sectorSize) = r at hok hlook
  obtain ⟨b, t⟩ := r
  obtain rfl : b = true := hok
  exact ⟨hlook, rfl⟩

/-- The cells of the scratch buffer are those of the volume. -/
theorem Looked.cell {s : FatState ι} {a : Int} (h : Looked fd vol s a) {i : Nat}
    (hi : i < fd.clusterSize) : s.tmp i = vol (a + i) := by
  have hcell := congrArg (·[i]?) h.tmp
  rw [getElem?_loadAt hi, getElem?_loadAt hi, Int.zero_add] at hcell
  exact Option.some.inj hcell

/-- One byte of the FAT. -/
theorem fatReadFatData_one (hfd : FatGeometry fd) {off : Nat}
    (hS : DeliversAt S fd vol ((off : Int) - (off : Int).tmod fd.sectorSize)) {s : FatState ι}
    (h : CacheMatches fd vol s.cache) :
    CacheMatches fd vol (fatReadFatData S fd s off 1).2.cache ∧
      (fatReadFatData S fd s off 1).1 = (vol off).toNat := by
  obtain ⟨hlook, hval⟩ := fatReadFatData_spec hS h 1
  refine ⟨hlook.cache, ?_⟩
  rw [hval, fatMask_one]
  have hmod : (off : Int).tmod fd.sectorSize = (off % fd.sectorSize : Nat) := rfl
  have hsec := Nat.mod_lt off hfd.sector_pos
  have hle := Nat.le_of_dvd hfd.cluster_pos hfd.sector_dvd
  rw [hmod] at hlook ⊢
  have hcell := hlook.cell (i := off % fd.sectorSize) (by omega)
  have hback : ((off : Int) - (off % fd.sectorSize : Nat)) + (off % fd.sectorSize : Nat) = off := by
    omega
  rw [hback] at hcell
  rw [loadAt, leNat, hcell]
  have hlt := (vol off).toNat_lt
  omega

/-- A lookup of two bytes that are not split across clusters is inside the
    cluster it reads, though that starts at a sector. -/
theorem FatGeometry.pair_in_cluster (hfd : FatGeometry fd) {off : Nat}
    (hin : off % fd.clusterSize + 1 ≠ fd.clusterSize) :
    off % fd.sectorSize + 1 < fd.clusterSize := by
  have hsec := Nat.mod_lt off hfd.sector_pos
  obtain ⟨k, hk⟩ := hfd.sector_dvd
  -- in a cluster of one sector the offset is not the last; else there is a sector behind
  rcases Nat.lt_or_ge k 2 with hlt | hge
  · have hpos := hfd.cluster_pos
    have hone : k = 1 := by
      rcases Nat.eq_zero_or_pos k with rfl | hkpos
      · omega
      · omega
    rw [hone, Nat.mul_one] at hk
    rw [hk] at hin ⊢
    omega
  · have htwice : fd.sectorSize * 2 ≤ fd.clusterSize := by
      rw [hk]
      exact Nat.mul_le_mul_left _ hge
    omega

/-- Two bytes of the FAT, where the second is in the same cluster. -/
theorem fatReadFatData_two (hfd : FatGeometry fd) {off : Nat}
    (hS : DeliversAt S fd vol ((off : Int) - (off : Int).tmod fd.sectorSize)) {s : FatState ι}
    (h : CacheMatches fd vol s.cache) (hin : off % fd.clusterSize + 1 ≠ fd.clusterSize) :
    CacheMatches fd vol (fatReadFatData S fd s off 2).2.cache ∧
      (fatReadFatData S fd s off 2).1 = leNat (loadAt vol off 2) := by
  obtain ⟨hlook, hval⟩ := fatReadFatData_spec hS h 2
  refine ⟨hlook.cache, ?_⟩
  rw [hval, fatMask_two]
  have hmod : (off : Int).tmod fd.sectorSize = (off % fd.sectorSize : Nat) := rfl
  have hsec := Nat.mod_lt off hfd.sector_pos
  have hle := Nat.le_of_dvd hfd.cluster_pos hfd.sector_dvd
  have hnext := hfd.pair_in_cluster hin
  rw [hmod] at hlook ⊢
  have hback : ((off : Int) - (off % fd.sectorSize : Nat)) + (off % fd.sectorSize : Nat) = off := by
    omega
  have hlo := hlook.cell (i := off % fd.sectorSize) (by omega)
  have hhi := hlook.cell (i := off % fd.sectorSize + 1) hnext
  rw [hback] at hlo
  rw [Nat.cast_succ, ← Int.add_assoc, hback] at hhi
  simp only [loadAt, leNat, hlo, hhi]
  have hlt := (vol off).toNat_lt
  have hlt' := (vol (off + 1)).toNat_lt
  omega

/-! ## Entries -/

/-- The 12 bits of a word that belong to cluster `c`. -/
theorem fatEntry_bits {w : Nat} (c : Nat) (hw : w < 2 ^ 16) :
    (if c &&& 1 ≠ 0 then w >>> 4 else w) &&& 0xfff
      = if c % 2 = 1 then w / 16 else w % 4096 := by
  have hmask : ∀ x, x &&& 0xfff = x % 4096 := fun x => Nat.and_two_pow_sub_one_eq_mod x 12
  rw [hmask, Nat.and_one_is_mod]
  split
  · next hodd =>
    rw [if_pos (by omega), Nat.shiftRight_eq_div_pow]
    omega
  · next heven => rw [if_neg (by omega)]

/-- The value of a FAT entry. -/
theorem fatGetFatEntry_spec (hfd : FatGeometry fd) {c : Nat}
    (hS : ∀ a, 0 ≤ a → a ≤ fd.fatOffset + (c * 3 / 2 : Nat) + 1 → DeliversAt S fd vol a)
    {s : FatState ι} (h : CacheMatches fd vol s.cache) (hc : c * 3 < 2 ^ 32)
    (hfat : fd.fatOffset + (c * 3 / 2 : Nat) + 1 < 2 ^ 31) :
    CacheMatches fd vol (fatGetFatEntry S fd s c).2.cache ∧
      (fatGetFatEntry S fd s c).1 = fatEntryAt fd vol c := by
  obtain ⟨fo, hfo⟩ := Int.eq_ofNat_of_zero_le hfd.fat_nonneg
  have hoff : s32 (fd.fatOffset + (u32 (c * 3) / 2 : Nat)) = (fo + c * 3 / 2 : Nat) := by
    rw [u32_of_lt (by omega), s32_of_range (by omega) (by omega), hfo]
    omega
  rw [fatGetFatEntry, fatEntryAt, hoff, hfo, ← Nat.cast_add]
  rw [hfo, ← Nat.cast_add] at hS
  generalize fo + c * 3 / 2 = e at hS
  -- the sectors of both bytes of the entry can be read
  have hsector : ∀ off : Nat, off ≤ e + 1 →
      DeliversAt S fd vol ((off : Int) - (off : Int).tmod fd.sectorSize) := by
    intro off hle
    have hmod : (off : Int).tmod fd.sectorSize = (off % fd.sectorSize : Nat) := rfl
    have hmle := Nat.mod_le off fd.sectorSize
    rw [hmod]
    exact hS _ (by omega) (by omega)
  have hw : leNat (loadAt vol (e : Int) 2) < 2 ^ 16 := by
    have hlt := leNat_lt (loadAt vol (e : Int) 2)
    rwa [length_loadAt] at hlt
  by_cases hsplit : (e : Int).tmod fd.clusterSize = fd.clusterSize - 1
  · -- the two bytes of the entry lie in different clusters
    rw [if_pos hsplit]
    obtain ⟨hcache, hlo⟩ := fatReadFatData_one hfd (hsector e (by omega)) h
    obtain ⟨hcache', hhi⟩ := fatReadFatData_one hfd (hsector (e + 1) (by omega)) hcache
    refine ⟨hcache', ?_⟩
    have hword : ((vol e).toNat ||| ((vol ((e + 1 : Nat) : Int)).toNat <<< 8)) % 2 ^ 16
        = leNat (loadAt vol (e : Int) 2) := by
      have hlt := (vol e).toNat_lt
      have hlt' := (vol ((e + 1 : Nat) : Int)).toNat_lt
      rw [Nat.or_comm, ← Nat.shiftLeft_add_eq_or_of_lt hlt, Nat.shiftLeft_eq]
      simp only [loadAt, leNat, Nat.cast_succ] at hlt' ⊢
      omega
    have hres := fatEntry_bits c hw
    rw [← hword, ← hlo, ← hhi] at hres
    rw [← hword, ← hlo, ← hhi]
    exact hres
  · rw [if_neg hsplit]
    have hin : e % fd.clusterSize + 1 ≠ fd.clusterSize := by
      intro heq
      apply hsplit
      show ((e % fd.clusterSize : Nat) : Int) = fd.clusterSize - 1
      omega
    obtain ⟨hcache, hval⟩ := fatReadFatData_two hfd (hsector e (by omega)) h hin
    refine ⟨hcache, ?_⟩
    have hres := fatEntry_bits c hw
    rw [← hval] at hres ⊢
    rw [← hval] at hw
    have hmod : (fatReadFatData S fd s (e : Int) 2).1 % 2 ^ 16
        = (fatReadFatData S fd s (e : Int) 2).1 := Nat.mod_eq_of_lt hw
    show (if c &&& 1 ≠ 0 then ((fatReadFatData S fd s (e : Int) 2).1 % 2 ^ 16) >>> 4
      else (fatReadFatData S fd s (e : Int) 2).1 % 2 ^ 16) &&& 0xfff = _
    rw [hmod]
    exact hres

/-- Entry `n` of a table of 12-bit entries, packed from the low end. -/
def packed12 (bs : List UInt8) (n : Nat) : Nat := (leNat bs >>> (12 * n)) % 2 ^ 12

/-- Two of the bytes hold all of it. -/
theorem packed12_eq (bs : List UInt8) (n : Nat) : packed12 bs n =
    if n % 2 = 1 then leNat ((bs.drop (n * 3 / 2)).take 2) / 16
      else leNat ((bs.drop (n * 3 / 2)).take 2) % 4096 := by
  have hsplit : 12 * n = 8 * (n * 3 / 2) + 4 * (n % 2) := by omega
  have hpow : 2 ^ (8 * (n * 3 / 2)) = 256 ^ (n * 3 / 2) := Nat.pow_mul 2 8 _
  rw [packed12, hsplit, Nat.shiftRight_add, Nat.shiftRight_eq_div_pow,
    Nat.shiftRight_eq_div_pow, hpow, leNat_div, ← leNat_mod]
  generalize leNat (bs.drop (n * 3 / 2)) = w
  split
  · next hodd =>
      rw [hodd]
      omega
  · next heven =>
      rw [show n % 2 = 0 by omega]
      omega

/-- **FAT12 entries** are decoded as they are packed, wherever they lie in
    their sector and cluster, and whatever the cache holds. -/
theorem fatGetFatEntry_packed {fatSize n : Nat} (hsector : 2 ≤ fd.sectorSize)
    (hcluster : 0 < fd.clusterSize) (hdvd : fd.sectorSize ∣ fd.clusterSize)
    (hfat : 0 ≤ fd.fatOffset ∧ fd.fatOffset + fatSize ≤ 2 ^ 31) (hn : 12 * (n + 1) ≤ 8 * fatSize)
    (hS : ∀ a, 0 ≤ a → a < fd.fatOffset + fatSize → DeliversAt S fd vol a) {s : FatState ι}
    (h : CacheMatches fd vol s.cache) :
    (fatGetFatEntry S fd s n).1 = packed12 (loadAt vol fd.fatOffset fatSize) n := by
  have hfd : FatGeometry fd := ⟨by omega, hcluster, hdvd, hfat.1⟩
  have hword : loadAt vol (fd.fatOffset + (n * 3 / 2 : Nat)) 2
      = ((loadAt vol fd.fatOffset fatSize).drop (n * 3 / 2)).take 2 :=
    loadAt_inside rfl (by omega)
  obtain ⟨-, hval⟩ := fatGetFatEntry_spec hfd (c := n)
    (fun a h0 hle => hS a h0 (by omega)) h (by omega) (by omega)
  rw [hval, fatEntryAt, packed12_eq, hword]

/-- An entry split across two clusters of one sector each. -/
theorem fatGetFatEntry_packed_split :
    let vol : Int → UInt8 := fun x => if x = 3 then 0x34 else if x = 4 then 0x12 else 0
    (fatGetFatEntry ⟨fun d a n => ((loadAt vol a n, n), d)⟩ ⟨4, 4, 0, 16, 16⟩
      ⟨(), ⟨fun _ => 8, fun _ => 0, fun _ => 0⟩, fun _ => 0xff⟩ 2).1 = 0x234 := by
  intro vol
  have hentry : packed12 (loadAt vol 0 6) 2 = 0x234 := by decide
  rw [← hentry]
  apply fatGetFatEntry_packed
  · decide
  · decide
  · decide
  · decide
  · decide
  · exact fun a _ _ d => rfl
  · intro i
    rw [loadAt_eq_iff (length_loadAt _ _ _)]
    intro j hj
    rw [getElem?_loadAt hj]
    show some (vol (8 + j)) = some 0
    rw [show vol (8 + j) = 0 by simp only [vol]; rw [if_neg (by omega), if_neg (by omega)]]

/-- The number of the cluster at an offset of the data region. -/
def clusterNumAt (fd : FatData) (c : Int) : Nat :=
  toU32 ((c - fd.dataOffset).tdiv fd.clusterSize + 2)

/-- The offset of a cluster gives its number back. -/
theorem clusterNumAt_clusterAddr (hcs : 0 < fd.clusterSize) {c : Nat} (hc : 2 ≤ c)
    (hlt : c < 2 ^ 32) : clusterNumAt fd (clusterAddr fd c) = c := by
  have hsub : clusterAddr fd c - fd.dataOffset = ((c - 2 : Nat) : Int) * fd.clusterSize := by
    rw [clusterAddr, Nat.cast_mul]
    omega
  rw [clusterNumAt, hsub, Int.mul_tdiv_cancel _ (by omega), toU32_of_nonneg (by omega) (by omega)]
  omega

/-- In the data region the next cluster is what the entry says. -/
theorem fatGetNextCluster_data (S : StorageHand ι) (fd : FatData) (s : FatState ι) {c : Int}
    (h : ¬ c < fd.dataOffset) :
    (fatGetNextCluster S fd s c).1 =
        (if (fatGetFatEntry S fd s (clusterNumAt fd c)).1 ≥ 0x002 ∧
            (fatGetFatEntry S fd s (clusterNumAt fd c)).1 ≤ 0xff0 then
          s32 (fd.dataOffset +
            (((fatGetFatEntry S fd s (clusterNumAt fd c)).1 - 2) * fd.clusterSize : Nat))
        else 0) ∧
      (fatGetNextCluster S fd s c).2 = (fatGetFatEntry S fd s (clusterNumAt fd c)).2 := by
  have hnum : toU32 ((c - fd.dataOffset).tdiv fd.clusterSize + 2) = clusterNumAt fd c := by
    rw [clusterNumAt]
  rw [fatGetNextCluster, if_neg h]
  dsimp only
  rw [hnum]
  split
  · exact ⟨rfl, rfl⟩
  · exact ⟨rfl, rfl⟩

/-- From a data cluster the driver goes to the cluster its FAT entry names. -/
theorem fatGetNextCluster_spec (hS : Delivers S vol) (hfd : Fat12Layout fd) {s : FatState ι}
    (h : CacheMatches fd vol s.cache) {c d : Nat} (hc : 2 ≤ c ∧ c ≤ 0xff0)
    (hfat : fd.fatOffset + (c * 3 / 2 : Nat) + 1 < 2 ^ 31) (hd : 2 ≤ d ∧ d ≤ 0xff0)
    (hnext : fatEntryAt fd vol c = d) (haddr : clusterAddr fd d < 2 ^ 31) :
    CacheMatches fd vol (fatGetNextCluster S fd s (clusterAddr fd c)).2.cache ∧
      (fatGetNextCluster S fd s (clusterAddr fd c)).1 = clusterAddr fd d := by
  have hpos := hfd.data_pos
  have hnum := clusterNumAt_clusterAddr hfd.cluster_pos hc.1 (by omega : c < 2 ^ 32)
  obtain ⟨hcache, hval⟩ := fatGetFatEntry_spec hfd.geometry (c := c)
    (fun a _ _ d => hS d a fd.clusterSize) h (by omega) hfat
  have hge : ¬ clusterAddr fd c < fd.dataOffset := by
    rw [clusterAddr]
    omega
  obtain ⟨hfst, hsnd⟩ := fatGetNextCluster_data S fd s hge
  rw [hnum] at hfst hsnd
  refine ⟨by rw [hsnd]; exact hcache, ?_⟩
  rw [hfst, hval, hnext, if_pos hd]
  rw [clusterAddr] at haddr
  exact s32_of_range (by omega) haddr

end LBoot.Storage
