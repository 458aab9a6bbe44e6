/-
  LBoot.Storage.ReadBounds

  What the size check of a file's `read` keeps out.

  Both implementations, `_fat_file_read` and `_protocol_file_read`
  (src/storage/protocol/protocol.c), add offset and size in 32 bits before
  they compare with the size of the file.  What gets past the check is inside
  the file exactly if that sum did not wrap around; an offset of -4 and a size
  of 4 get past it on every file (`file_read_minus_four`).

  To say where the copies of `_fat_file_read` go, the read is run with a log
  of them (`fatFileReadLog`).  Past an exact check they stay inside the
  scratch buffer and the destination, and inside the file as well unless the
  position in the destination wraps around too (`file_read_bounds_iff`).
-/

import LBoot.Storage.FatRead
import LBoot.Storage.Xmodem

namespace LBoot.Storage

open LBoot.Lib

variable {ι : Type*}

/-! ## Files that were transferred -/

/-- `_protocol_file_read`; behind the result and the buffer, the part of the
    file's buffer that is copied. -/
def protocolFileRead (fdata : FileData) (size : Nat) (buf : Int → UInt8) (sz : Nat) (off : Int) :
    Int × (Int → UInt8) × Option (Int × Nat) :=
  if toU32 (sz + off) > size then (-1, buf, none)
  else (s32 sz, storeAt buf 0 (loadAt fdata.buff off sz), some (off, sz))

/-! ## The copies of a read -/

/-- One `memcpy` out of the scratch buffer, which holds the cluster of this
    index in the file. -/
structure FatCopyOut where
  clusterIdx : Nat
  src : Int
  dst : Nat
  len : Nat
  deriving DecidableEq, Repr

/-- `fatCopy` with a log of its copies. -/
def fatCopyLog (S : StorageHand ι) (fd : FatData) (sz : Nat) :
    Nat → FatState ι → (Int → UInt8) → Int → Int → Nat → Nat →
      (FatRet × (Int → UInt8) × FatState ι) × List FatCopyOut
  | 0, s, buf, _, _, pos, _ => ((if pos < sz then .stuck else .ret sz, buf, s), [])
  | fuel + 1, s, buf, cluster, off, pos, idx =>
      if pos < sz then
        match S.read s.dev cluster fd.clusterSize with
        | ((bytes, ret), dev) =>
            let s := { s with dev, tmp := storeAt s.tmp 0 bytes }
            if ret ≠ fd.clusterSize then ((.ret (-1), buf, s), [])
            else if sz - pos ≤ toU32 (fd.clusterSize - off) then
              let buf := storeAt buf pos (loadAt s.tmp off (sz - pos))
              let (r, log) := fatCopyLog S fd sz fuel s buf cluster 0 (u32 (pos + fd.clusterSize)) idx
              (r, ⟨idx, off, pos, sz - pos⟩ :: log)
            else
              let room := toU32 (fd.clusterSize - off)
              let buf := storeAt buf pos (loadAt s.tmp 0 room)
              match fatGetNextCluster S fd s cluster with
              | (cluster, s) =>
                  if cluster = 0 then ((.ret (-1), buf, s), [⟨idx, 0, pos, room⟩])
                  else
                    let (r, log) :=
                      fatCopyLog S fd sz fuel s buf cluster 0 (u32 (pos + fd.clusterSize)) (idx + 1)
                    (r, ⟨idx, 0, pos, room⟩ :: log)
      else ((.ret sz, buf, s), [])

/-- `fatFileRead` with a log of its copies. -/
def fatFileReadLog (S : StorageHand ι) (fd : FatData) (file : FatFile) (s : FatState ι)
    (buf : Int → UInt8) (sz : Nat) (off : Int) :
    (FatRet × (Int → UInt8) × FatState ι) × List FatCopyOut :=
  if ¬ file.directory ∧ toU32 (off + sz) > file.size then ((.panic, buf, s), [])
  else
    match fatSkip S fd off.toNat s file.firstCluster off with
    | (.error r, s) => ((r, buf, s), [])
    | (.ok (cluster, left), s) =>
        fatCopyLog S fd sz sz s buf cluster left 0 ((off - left) / fd.clusterSize).toNat

section Log

variable {S : StorageHand ι} {fd : FatData}

theorem fatCopyLog_fst (sz fuel : Nat) (s : FatState ι) (buf : Int → UInt8) (cluster off : Int)
    (pos idx : Nat) : (fatCopyLog S fd sz fuel s buf cluster off pos idx).1
      = fatCopy S fd sz fuel s buf cluster off pos := by
  induction fuel generalizing s buf cluster off pos idx with
  | zero => rfl
  | succ fuel ih =>
      rw [fatCopyLog, fatCopy]
      split
      · dsimp only
        split
        · rfl
        · split
          · exact ih _ _ _ _ _ _
          · split
            · rfl
            · exact ih _ _ _ _ _ _
      · rfl

/-- The log changes nothing. -/
theorem fatFileReadLog_fst (file : FatFile) (s : FatState ι) (buf : Int → UInt8) (sz : Nat)
    (off : Int) : (fatFileReadLog S fd file s buf sz off).1
      = fatFileRead S fd file s buf sz off := by
  rw [fatFileReadLog, fatFileRead]
  split
  · rfl
  · generalize fatSkip S fd off.toNat s file.firstCluster off = r
    obtain ⟨r, t⟩ := r
    cases r with
    | error r => rfl
    | ok at_ => exact fatCopyLog_fst _ _ _ _ _ _ _ _

end Log

/-! ## Bounds -/

/-- A copy inside the scratch buffer, a destination of `sz` bytes, and a file
    of `size`. -/
structure FatCopyOut.Inside (c : FatCopyOut) (clusterSize size sz : Nat) : Prop where
  src_nonneg : 0 ≤ c.src
  src_le : c.src + c.len ≤ clusterSize
  dst_le : c.dst + c.len ≤ sz
  file_le : c.clusterIdx * clusterSize + c.src + c.len ≤ size

/-- The check both reads make. -/
def PassesCheck (size sz : Nat) (off : Int) : Prop := toU32 (off + sz) ≤ size

instance (size sz : Nat) (off : Int) : Decidable (PassesCheck size sz off) :=
  inferInstanceAs (Decidable (_ ≤ _))

/-- Whatever gets past the check of `_fat_file_read` is inside the file, and
    so are its copies; on every volume with clusters of this size. -/
def FatReadBounded (clusterSize size sz : Nat) (off : Int) : Prop :=
  ∀ (ι : Type) (S : StorageHand ι) (fd : FatData) (file : FatFile) (s : FatState ι)
    (buf : Int → UInt8), fd.clusterSize = clusterSize → file.directory = false →
    file.size = size → PassesCheck size sz off →
      (0 ≤ off ∧ off + sz ≤ size) ∧
        ∀ c ∈ (fatFileReadLog S fd file s buf sz off).2, c.Inside clusterSize size sz

/-- The same for `_protocol_file_read`. -/
def ProtocolReadBounded (size sz : Nat) (off : Int) : Prop :=
  ∀ (fdata : FileData) (buf : Int → UInt8), PassesCheck size sz off →
    (0 ≤ off ∧ off + sz ≤ size) ∧
      ∀ c ∈ (protocolFileRead fdata size buf sz off).2.2, 0 ≤ c.1 ∧ c.1 + c.2 ≤ size ∧ c.2 ≤ sz

/-- The sum of the check does not wrap around. -/
def SumExact (sz : Nat) (off : Int) : Prop := 0 ≤ off ∧ off + sz < 2 ^ 32

instance (sz : Nat) (off : Int) : Decidable (SumExact sz off) :=
  inferInstanceAs (Decidable (_ ∧ _))

/-- The position in the destination does not wrap around: the size, rounded up
    to whole clusters, has 32 bits. -/
def PosExact (clusterSize sz : Nat) : Prop :=
  (sz + (clusterSize - 1)) / clusterSize * clusterSize < 2 ^ 32

instance (clusterSize sz : Nat) : Decidable (PosExact clusterSize sz) :=
  inferInstanceAs (Decidable (_ < _))

/-- Past the check, exact means inside. -/
theorem passesCheck_iff {size sz : Nat} {off : Int} (hsize : size < 2 ^ 32) (hsz : sz < 2 ^ 32)
    (hoff : -2 ^ 31 ≤ off ∧ off < 2 ^ 31) (h : PassesCheck size sz off) :
    0 ≤ off ∧ off + sz ≤ size ↔ SumExact sz off := by
  rw [PassesCheck, toU32] at h
  rw [SumExact]
  constructor
  · rintro ⟨h0, hle⟩
    exact ⟨h0, by omega⟩
  · rintro ⟨h0, hlt⟩
    rw [Int.emod_eq_of_lt (by omega) hlt] at h
    exact ⟨h0, by omega⟩

section Inside

variable {S : StorageHand ι} {fd : FatData}

/-- What is left of the offset behind the first loop. -/
theorem fatSkip_ok {fuel : Nat} {s t : FatState ι}
    {cluster off c left : Int} (h0 : 0 ≤ off)
    (h : fatSkip S fd fuel s cluster off = (.ok (c, left), t)) :
    0 ≤ left ∧ left < fd.clusterSize ∧ ∃ k : Nat, off = left + k * fd.clusterSize := by
  induction fuel generalizing s cluster off with
  | zero =>
      rw [fatSkip] at h
      split at h
      · cases h
      · next hlt =>
          cases h
          exact ⟨h0, by omega, 0, by omega⟩
  | succ fuel ih =>
      rw [fatSkip] at h
      split at h
      · dsimp only at h
        split at h
        · cases h
        · obtain ⟨hlo, hhi, k, hk⟩ := ih (by omega) h
          refine ⟨hlo, hhi, k + 1, ?_⟩
          rw [Nat.cast_succ, Int.add_mul]
          omega
      · next hlt =>
          cases h
          exact ⟨h0, by omega, 0, by omega⟩

/-- Where the next cluster is copied to. -/
theorem pos_next {cs sz pos : Nat} (hcs : 0 < cs) (hexact : PosExact cs sz) (hdvd : cs ∣ pos)
    (hpos : pos < sz) : u32 (pos + cs) = pos + cs := by
  obtain ⟨j, rfl⟩ := hdvd
  have hj : j + 1 ≤ (sz + (cs - 1)) / cs := by
    rw [Nat.le_div_iff_mul_le hcs, Nat.succ_mul, Nat.mul_comm j cs]
    omega
  have hmul := Nat.mul_le_mul_right cs hj
  rw [Nat.succ_mul, Nat.mul_comm j cs] at hmul
  exact u32_of_lt (Nat.lt_of_le_of_lt hmul hexact)

/-- The copies of the second loop: what is still to be copied, counted from
    the cluster it is in, is inside the file. -/
theorem fatCopyLog_inside {size sz : Nat} (hcs : 0 < fd.clusterSize) (hcs16 : fd.clusterSize < 2 ^ 16)
    (hexact : PosExact fd.clusterSize sz) {fuel : Nat} :
    ∀ {s : FatState ι} {buf : Int → UInt8} {cluster off : Int} {pos idx : Nat},
      0 ≤ off → off < fd.clusterSize → fd.clusterSize ∣ pos →
      (pos < sz → idx * fd.clusterSize + off + (sz - pos : Nat) ≤ size) →
      ∀ c ∈ (fatCopyLog S fd sz fuel s buf cluster off pos idx).2,
        c.Inside fd.clusterSize size sz := by
  induction fuel with
  | zero => exact fun _ _ _ _ c hc => absurd hc List.not_mem_nil
  | succ fuel ih =>
      intro s buf cluster off pos idx h0 hlt hdvd hfit c hc
      rw [fatCopyLog] at hc
      split at hc
      · next hpos =>
        have hfile := hfit hpos
        have hroom : toU32 (fd.clusterSize - off) = (fd.clusterSize - off).toNat :=
          toU32_of_nonneg (by omega) (by omega)
        have hdvd' : fd.clusterSize ∣ pos + fd.clusterSize := Nat.dvd_add hdvd (Nat.dvd_refl _)
        dsimp only at hc
        rw [hroom, pos_next hcs hexact hdvd hpos] at hc
        split at hc
        · exact absurd hc List.not_mem_nil
        · split at hc
          · next hlast =>
            -- the last copy; the loop ends behind it
            rcases List.mem_cons.mp hc with rfl | hrest
            · exact ⟨h0, by dsimp only; omega, by dsimp only; omega, by dsimp only; omega⟩
            · exact ih (Int.le_refl 0) (by omega) hdvd' (fun hmore => by omega) c hrest
          · next hmore =>
            have hthis : (⟨idx, 0, pos, (fd.clusterSize - off).toNat⟩ : FatCopyOut).Inside
                fd.clusterSize size sz :=
              ⟨Int.le_refl 0, by dsimp only; omega, by dsimp only; omega, by dsimp only; omega⟩
            split at hc
            · rw [List.mem_singleton] at hc
              rwa [hc]
            · rcases List.mem_cons.mp hc with rfl | hrest
              · exact hthis
              · refine ih (Int.le_refl 0) (by omega) hdvd' (fun hmore' => ?_) c hrest
                rw [Nat.cast_succ, Int.add_mul]
                omega
      · exact absurd hc List.not_mem_nil

/-- Past an exact check the copies stay inside. -/
theorem fatFileReadLog_inside {file : FatFile} {s : FatState ι} {buf : Int → UInt8} {sz : Nat}
    {off : Int} (hcs : 0 < fd.clusterSize) (hcs16 : fd.clusterSize < 2 ^ 16)
    (hexact : PosExact fd.clusterSize sz) (h0 : 0 ≤ off) (hfit : off + sz ≤ file.size) :
    ∀ c ∈ (fatFileReadLog S fd file s buf sz off).2, c.Inside fd.clusterSize file.size sz := by
  intro c hc
  rw [fatFileReadLog] at hc
  split at hc
  · exact absurd hc List.not_mem_nil
  · cases hskip : fatSkip S fd off.toNat s file.firstCluster off with
    | mk r t =>
        rw [hskip] at hc
        cases r with
        | error r => exact absurd hc List.not_mem_nil
        | ok at_ =>
            obtain ⟨cluster, left⟩ := at_
            obtain ⟨hlo, hhi, k, hk⟩ := fatSkip_ok h0 hskip
            have hsub : off - left = k * fd.clusterSize := by omega
            have hidx : ((off - left) / fd.clusterSize).toNat = k := by
              rw [hsub, Int.mul_ediv_cancel _ (by omega), Int.toNat_natCast]
            dsimp only at hc
            rw [hidx] at hc
            exact fatCopyLog_inside hcs hcs16 hexact hlo hhi (Nat.dvd_zero _)
              (fun _ => by rw [Nat.sub_zero]; omega) c hc

end Inside

/-! ## Where the position wraps around -/

/-- A device full of twos.  Read as a FAT, every entry of it is 0x222. -/
def twosDev : StorageHand Unit := ⟨fun d _ n => ((List.replicate n 0x22, n), d)⟩

theorem twosDev_delivers : Delivers twosDev fun _ => 0x22 := by
  intro d off n
  have hload : loadAt (fun _ => (0x22 : UInt8)) off n = List.replicate n 0x22 := by
    rw [loadAt_eq_iff List.length_replicate]
    intro i hi
    rw [List.getElem?_replicate, if_pos hi]
  rw [hload]
  rfl

/-- A volume on it, with a boot sector, a FAT of one sector and no root
    directory: cluster 0x222 is followed by itself. -/
def twosVolume (cs : Nat) : FatData := ⟨cs, cs, cs, 2 * cs, 2 * cs⟩

def twosState : FatState Unit := ⟨(), ⟨fun _ => 0, fun _ => 0, fun _ => 0x22⟩, fun _ => 0⟩

def twosFile (cs size : Nat) : FatFile := ⟨false, size, clusterAddr (twosVolume cs) 0x222⟩

section Twos

variable {cs : Nat}

theorem twosVolume_layout (hcs : 0 < cs) (hcs16 : cs < 2 ^ 16) : Fat12Layout (twosVolume cs) where
  sector_pos := hcs
  cluster_pos := hcs
  cluster_lt := hcs16
  sector_dvd := Nat.dvd_refl cs
  fat_nonneg := Int.natCast_nonneg cs
  fat_le_data := by
    dsimp only [twosVolume]
    omega
  data_pos := by
    dsimp only [twosVolume]
    omega

theorem twos_matches : CacheMatches (twosVolume cs) (fun _ => 0x22) twosState.cache :=
  cacheMatches_const (fun _ => rfl) fun _ _ => rfl

theorem twos_next (hcs : 0 < cs) (hcs16 : cs < 2 ^ 16) {s : FatState Unit}
    (h : CacheMatches (twosVolume cs) (fun _ => 0x22) s.cache) :
    ∃ t, fatGetNextCluster twosDev (twosVolume cs) s (clusterAddr (twosVolume cs) 0x222)
        = (clusterAddr (twosVolume cs) 0x222, t) ∧
      CacheMatches (twosVolume cs) (fun _ => 0x22) t.cache := by
  have haddr : clusterAddr (twosVolume cs) 0x222 < 2 ^ 31 := by
    rw [clusterAddr]
    dsimp only [twosVolume]
    omega
  have hentry : fatEntryAt (twosVolume cs) (fun _ => 0x22) 0x222 = 0x222 := by
    simp [fatEntryAt, loadAt, leNat]
  have hfat : (twosVolume cs).fatOffset + (0x222 * 3 / 2 : Nat) + 1 < 2 ^ 31 := by
    dsimp only [twosVolume]
    omega
  obtain ⟨hcache, hval⟩ := fatGetNextCluster_spec twosDev_delivers
    (twosVolume_layout hcs hcs16) h (by decide) hfat (by decide) hentry haddr
  exact ⟨_, Prod.ext hval rfl, hcache⟩

/-- A read on this volume delivers. -/
theorem twos_read (cs : Nat) (s : FatState Unit) :
    twosDev.read s.dev (clusterAddr (twosVolume cs) 0x222) (twosVolume cs).clusterSize
        = ((List.replicate cs 0x22, (cs : Int)), ()) ∧
      ¬ (cs : Int) ≠ (twosVolume cs).clusterSize :=
  ⟨rfl, not_not.mpr rfl⟩

/-- How much of a cluster is behind the place `r` in it. -/
theorem twos_room (hcs16 : cs < 2 ^ 16) {r : Nat} (hr : r < cs) :
    toU32 (((twosVolume cs).clusterSize : Int) - r) = cs - r := by
  show toU32 ((cs : Int) - r) = cs - r
  rw [toU32_of_nonneg (by omega) (by omega)]
  omega

/-- One iteration on this volume that does not reach the end. -/
theorem twos_step (hcs16 : cs < 2 ^ 16) {s : FatState Unit}
    (h : CacheMatches (twosVolume cs) (fun _ => 0x22) s.cache) (sz fuel pos idx : Nat) {r : Nat}
    (buf : Int → UInt8) (hr : r < cs) (hmore : cs - r < sz - pos) :
    ∃ t buf', CacheMatches (twosVolume cs) (fun _ => 0x22) t.cache ∧
      (fatCopyLog twosDev (twosVolume cs) sz (fuel + 1) s buf (clusterAddr (twosVolume cs) 0x222)
          r pos idx).2
        = ⟨idx, 0, pos, cs - r⟩ :: (fatCopyLog twosDev (twosVolume cs) sz fuel t buf'
            (clusterAddr (twosVolume cs) 0x222) 0 (u32 (pos + cs)) (idx + 1)).2 := by
  obtain ⟨hread, hsame⟩ := twos_read cs s
  have hne : clusterAddr (twosVolume cs) 0x222 ≠ 0 := by
    rw [clusterAddr]
    dsimp only [twosVolume]
    omega
  obtain ⟨t, hnext, hcache⟩ := twos_next (by omega) hcs16 (s := { s with
    dev := (), tmp := storeAt s.tmp 0 (List.replicate cs 0x22) }) h
  refine ⟨t, storeAt buf pos (loadAt (storeAt s.tmp 0 (List.replicate cs 0x22)) 0 (cs - r)),
    hcache, ?_⟩
  rw [fatCopyLog, if_pos (by omega), hread]
  dsimp only
  rw [if_neg hsame, twos_room hcs16 hr, if_neg (by omega), hnext]
  dsimp only
  rw [if_neg hne]
  rfl

/-- The last one, where the size rounded up does not fit: it stays in its
    cluster, and the position starts again from the front. -/
theorem twos_wrap (hcs : 0 < cs) (hcs16 : cs < 2 ^ 16) {s : FatState Unit}
    (h : CacheMatches (twosVolume cs) (fun _ => 0x22) s.cache) {sz idx : Nat} (fuel : Nat)
    (buf : Int → UInt8) (hpos : idx * cs < sz) (hlast : sz ≤ idx * cs + cs) (hsz : sz < 2 ^ 32)
    (hwrap : 2 ^ 32 ≤ idx * cs + cs) :
    ∃ dst, ⟨idx, 0, dst, cs⟩ ∈ (fatCopyLog twosDev (twosVolume cs) sz (fuel + 2) s buf
      (clusterAddr (twosVolume cs) 0x222) 0 (idx * cs) idx).2 := by
  obtain ⟨hread, hsame⟩ := twos_read cs s
  have hroom := twos_room hcs16 hcs
  rw [Nat.cast_zero, Nat.sub_zero] at hroom
  have hagain : u32 (idx * cs + cs) = idx * cs + cs - 2 ^ 32 := by
    rw [u32]
    omega
  rw [fatCopyLog, if_pos hpos, hread]
  dsimp only
  rw [if_neg hsame, hroom, if_pos (by omega)]
  dsimp only
  obtain ⟨t, buf', -, hlog⟩ := twos_step hcs16 (s := { s with
    dev := (), tmp := storeAt s.tmp 0 (List.replicate cs 0x22) }) h sz fuel
    (idx * cs + cs - 2 ^ 32) idx (storeAt buf (idx * cs : Nat)
      (loadAt (storeAt s.tmp 0 (List.replicate cs 0x22)) 0 (sz - idx * cs))) hcs (by omega)
  refine ⟨idx * cs + cs - 2 ^ 32, List.mem_cons_of_mem _ ?_⟩
  rw [show (twosVolume cs).clusterSize = cs by rfl, hagain]
  rw [Nat.cast_zero] at hlog
  rw [hlog]
  exact List.mem_cons_self

/-- The whole second loop: its last cluster is copied again, and whole. -/
theorem twos_run (hcs : 0 < cs) (hcs16 : cs < 2 ^ 16) {sz : Nat} (hsz : sz < 2 ^ 32) (fuel n : Nat) :
    ∀ (idx : Nat) {s : FatState Unit} {buf : Int → UInt8},
      CacheMatches (twosVolume cs) (fun _ => 0x22) s.cache → (idx + n) * cs < sz →
      sz ≤ (idx + n) * cs + cs → 2 ^ 32 ≤ (idx + n) * cs + cs →
      ∃ dst, ⟨idx + n, 0, dst, cs⟩ ∈ (fatCopyLog twosDev (twosVolume cs) sz (fuel + n + 2) s buf
        (clusterAddr (twosVolume cs) 0x222) 0 (idx * cs) idx).2 := by
  induction n with
  | zero =>
      intro idx s buf h hpos hlast hwrap
      exact twos_wrap hcs hcs16 h fuel buf hpos hlast hsz hwrap
  | succ n ih =>
      intro idx s buf h hpos hlast hwrap
      have hidx : idx + (n + 1) = idx + 1 + n := by omega
      rw [hidx] at hpos hlast hwrap
      have hle : idx * cs + cs ≤ (idx + 1 + n) * cs := by
        rw [← Nat.succ_mul]
        exact Nat.mul_le_mul_right _ (by omega)
      obtain ⟨t, buf', hcache, hlog⟩ := twos_step hcs16 h sz (fuel + n + 2) (idx * cs) idx buf hcs
        (by omega)
      obtain ⟨dst, hmem⟩ := @ih (idx + 1) t buf' hcache hpos hlast hwrap
      refine ⟨dst, ?_⟩
      have hnext : u32 (idx * cs + cs) = (idx + 1) * cs := by
        rw [Nat.succ_mul]
        exact u32_of_lt (by omega)
      rw [Nat.cast_zero, hnext] at hlog
      rw [hidx, ← Nat.add_assoc fuel n 1, Nat.add_right_comm (fuel + n) 1 2, hlog]
      exact List.mem_cons_of_mem _ hmem

/-- An offset in the first cluster is at the first cluster. -/
theorem twos_skip (size : Nat) {o : Nat} (ho : o < cs) :
    fatSkip twosDev (twosVolume cs) (o : Int).toNat twosState (twosFile cs size).firstCluster o
      = (.ok (clusterAddr (twosVolume cs) 0x222, (o : Int)), twosState) := by
  have hin : ¬ (o : Int) ≥ (twosVolume cs).clusterSize := by
    show ¬ (o : Int) ≥ cs
    omega
  rw [Int.toNat_natCast]
  cases o with
  | zero => rw [fatSkip, if_neg hin]; rfl
  | succ o => rw [fatSkip, if_neg hin]; rfl

end Twos

/-- A size that does not fit when rounded up is not read within bounds on
    every volume. -/
theorem posExact_of_bounded {cs size sz : Nat} {off : Int} (hcs : 0 < cs) (hcs16 : cs < 2 ^ 16)
    (hsize : size < 2 ^ 32) (h0 : 0 ≤ off) (hfit : off + sz ≤ size)
    (h : FatReadBounded cs size sz off) : PosExact cs sz := by
  obtain ⟨o, rfl⟩ := Int.eq_ofNat_of_zero_le h0
  have hpass : PassesCheck size sz o := by
    rw [PassesCheck, toU32_of_nonneg (by omega) (by omega)]
    omega
  rw [PosExact]
  generalize hm : (sz + (cs - 1)) / cs = m
  have hlo : m * cs ≤ sz + (cs - 1) := by
    rw [← hm]
    exact Nat.div_mul_le_self _ _
  have hhi : sz ≤ m * cs := by
    have hmod := Nat.div_add_mod' (sz + (cs - 1)) cs
    have hlt := Nat.mod_lt (sz + (cs - 1)) hcs
    rw [hm] at hmod
    omega
  by_contra hwrap
  -- the clusters are more than two, and fewer than the bytes
  have htwo : m * 2 ≤ m * cs := by
    rcases Nat.lt_or_ge cs 2 with hone | hge
    · obtain rfl : cs = 1 := by omega
      omega
    · exact Nat.mul_le_mul_left m hge
  obtain ⟨n, rfl⟩ : ∃ n, m = n + 2 := by
    refine ⟨m - 2, ?_⟩
    by_contra hne
    have hle : m * cs ≤ 1 * cs := Nat.mul_le_mul_right _ (by omega)
    omega
  obtain ⟨fuel, rfl⟩ : ∃ fuel, sz = fuel + n + 2 + 1 := ⟨sz - (n + 3), by omega⟩
  have hmul : (1 + n) * cs + cs = (n + 2) * cs := by
    rw [← Nat.succ_mul]
    congr 1
    omega
  obtain ⟨t, buf', hcache, hlog⟩ := twos_step hcs16 twos_matches (fuel + n + 2 + 1) (fuel + n + 2)
    0 0 (fun _ => 0) (r := o) (by omega) (by omega)
  have hsz : fuel + n + 2 + 1 < 2 ^ 32 := by omega
  obtain ⟨dst, hmem⟩ := twos_run hcs hcs16 hsz fuel n 1 hcache (by omega) (by omega) (by omega)
  have hcs32 : u32 (0 + cs) = 1 * cs := by
    rw [Nat.zero_add, Nat.one_mul]
    exact u32_of_lt (by omega)
  have hskip := twos_skip size (show o < cs by omega)
  have hread := (h Unit twosDev (twosVolume cs) (twosFile cs size) twosState (fun _ => 0) rfl rfl
    rfl hpass).2 ⟨1 + n, 0, dst, cs⟩ (by
      rw [fatFileReadLog, if_neg (fun hbad => absurd hpass (Nat.not_le_of_lt hbad.2)), hskip]
      dsimp only
      rw [Int.sub_self, Int.zero_ediv, Int.toNat_zero, hlog, hcs32]
      exact List.mem_cons_of_mem _ hmem)
  -- the copy made after the wrap is of a whole cluster, behind the end of the file
  have hfile := hread.file_le
  dsimp only at hfile
  omega

/-- **What gets past the check** is inside the file, and stays inside every
    buffer on the way, exactly if the sum of the check is exact and, for a
    file on a FAT volume, the position in the destination is. -/
theorem file_read_bounds_iff {cs size sz : Nat} {off : Int} (hcs : 0 < cs) (hcs16 : cs < 2 ^ 16)
    (hsize : size < 2 ^ 32) (hsz : sz < 2 ^ 32) (hoff : -2 ^ 31 ≤ off ∧ off < 2 ^ 31) :
    (FatReadBounded cs size sz off ↔ (PassesCheck size sz off → SumExact sz off ∧ PosExact cs sz)) ∧
      (ProtocolReadBounded size sz off ↔ (PassesCheck size sz off → SumExact sz off)) := by
  refine ⟨⟨fun h hpass => ?_, fun h => ?_⟩, fun h hpass => ?_, fun h => ?_⟩
  · have hin := (h Unit twosDev (twosVolume cs) (twosFile cs size) twosState (fun _ => 0) rfl rfl
      rfl hpass).1
    refine ⟨(passesCheck_iff hsize hsz hoff hpass).mp hin, ?_⟩
    exact posExact_of_bounded hcs hcs16 hsize hin.1 hin.2 h
  · intro ι S fd file s buf hfd _ hfile hpass
    obtain ⟨hsum, hpos⟩ := h hpass
    obtain ⟨h0, hfit⟩ := (passesCheck_iff hsize hsz hoff hpass).mpr hsum
    subst hfd hfile
    exact ⟨⟨h0, hfit⟩, fatFileReadLog_inside hcs hcs16 hpos h0 hfit⟩
  · exact (passesCheck_iff hsize hsz hoff hpass).mp (h ⟨fun _ => 0, 0, Nat.zero_le _⟩ (fun _ => 0) hpass).1
  · intro fdata buf hpass
    obtain ⟨h0, hfit⟩ := (passesCheck_iff hsize hsz hoff hpass).mpr (h hpass)
    refine ⟨⟨h0, hfit⟩, fun c hc => ?_⟩
    rw [protocolFileRead] at hc
    split at hc
    · exact absurd hc (by simp)
    · obtain rfl : (off, sz) = c := Option.some.inj hc
      exact ⟨h0, hfit, Nat.le_refl sz⟩

/-- A read of the first bytes. -/
theorem file_read_bounds_iff_start : FatReadBounded 512 1024 4 0 ∧ ProtocolReadBounded 1024 4 0 := by
  have h := @file_read_bounds_iff 512 1024 4 0 (by decide) (by decide) (by decide) (by decide)
    (by decide)
  have hexact : SumExact 4 0 ∧ PosExact 512 4 := by decide
  exact ⟨h.1.mpr fun _ => hexact, h.2.mpr fun _ => hexact.1⟩

/-- Four bytes from four bytes in front of the file on get past both checks. -/
theorem file_read_minus_four :
    ¬ ∀ cs size sz off, 0 < cs → cs < 2 ^ 16 → size < 2 ^ 32 → sz < 2 ^ 32 →
      -2 ^ 31 ≤ off ∧ off < 2 ^ 31 →
      FatReadBounded cs size sz off ∧ ProtocolReadBounded size sz off := by
  intro hall
  have h := (hall 512 1024 4 (-4) (by decide) (by decide) (by decide) (by decide) (by decide)).2
    ⟨fun _ => 0, 0, Nat.zero_le _⟩ (fun _ => 0) (by decide)
  exact absurd h.1.1 (by decide)

end LBoot.Storage
