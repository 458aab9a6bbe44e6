/-
  LBoot.Storage.FatDirs

  The entries a search of a directory looks at.

  A directory has slots: the root directory as many as the boot sector says, a
  sub-directory as many as fit into the clusters of its chain.  `_fat_fs_find`
  reads whole clusters and looks at every slot in them, in order, whatever it
  starts with (`fatFsFindLoop_slots`).  So it finds the first slot that is
  wanted; where the root directory ends inside a cluster, it looks at what
  lies behind it too (`FatDir.overrun`).
-/

import LBoot.Storage.FatScan
import LBoot.Storage.FatWalk

namespace LBoot.Storage

open LBoot.Lib Filter

variable {ι : Type*}

/-! ## Volumes -/

/-- The byte at which the data region starts. -/
def dataStart (b : FatBootsector) : Nat :=
  b.reservedSectors * b.bytesPerSector + b.sectorsPerFat * b.bytesPerSector * b.fatCopies +
    b.rootDirEntries * sizeofFatDirent

/-- A boot sector of a FAT12 volume: clusters hold whole entries, their size
    fits into its field, and every cluster an entry can name lies within
    `off_t`. -/
structure Fat12Volume (b : FatBootsector) : Prop where
  entries_dvd : sizeofFatDirent ∣ b.bytesPerSector
  bytesPerSector_pos : 0 < b.bytesPerSector
  sectorsPerCluster_pos : 0 < b.sectorsPerCluster
  cluster_lt : b.sectorsPerCluster * b.bytesPerSector < 2 ^ 16
  reservedSectors_pos : 0 < b.reservedSectors
  rootDirEntries_pos : 0 < b.rootDirEntries
  fits : dataStart b + 4096 * (b.sectorsPerCluster * b.bytesPerSector) ≤ 2 ^ 31

/-- The driver computes the geometry without overflow. -/
theorem Fat12Volume.fdata_eq {b : FatBootsector} (h : Fat12Volume b) (off : Int) :
    (fatPopulate off b).fdata =
      { sectorSize := b.bytesPerSector
        clusterSize := b.sectorsPerCluster * b.bytesPerSector
        fatOffset := (b.reservedSectors * b.bytesPerSector : Nat)
        dataOffset := dataStart b
        rootdirFirst := (b.reservedSectors * b.bytesPerSector +
          b.sectorsPerFat * b.bytesPerSector * b.fatCopies : Nat) } := by
  have hfits := h.fits
  have hcs : 0 < b.sectorsPerCluster * b.bytesPerSector :=
    Nat.mul_pos h.sectorsPerCluster_pos h.bytesPerSector_pos
  have hmul : u32 (u32 (b.sectorsPerFat * b.bytesPerSector) * b.fatCopies)
      = u32 (b.sectorsPerFat * b.bytesPerSector * b.fatCopies) := Nat.mod_mul_mod _ _ _
  simp only [dataStart, sizeofFatDirent] at hfits
  simp only [fatPopulate, dataStart, sizeofFatDirent]
  rw [hmul, Nat.mod_eq_of_lt h.cluster_lt]
  generalize b.reservedSectors * b.bytesPerSector = reserved at hfits
  generalize b.sectorsPerFat * b.bytesPerSector * b.fatCopies = fats at hfits
  generalize b.rootDirEntries * 32 = root at hfits
  -- none of the sums leaves the range of `off_t`
  have hres : s32 (reserved : Nat) = reserved := s32_of_range (by omega) (by omega)
  have hfirst : s32 ((reserved : Nat) + (fats : Nat)) = (reserved + fats : Nat) := by
    rw [← Nat.cast_add]
    exact s32_of_range (by omega) (by omega)
  have hdata : s32 ((reserved + fats : Nat) + (root : Nat)) = (reserved + fats + root : Nat) := by
    rw [← Nat.cast_add]
    exact s32_of_range (by omega) (by omega)
  rw [hres, u32_of_lt (x := fats) (by omega), u32_of_lt (x := root) (by omega), hfirst, hdata]

theorem Fat12Volume.layout {b : FatBootsector} (h : Fat12Volume b) (off : Int) :
    DirLayout (fatPopulate off b).fdata := by
  have hfits := h.fits
  have hss := h.bytesPerSector_pos
  have hcs : 0 < b.sectorsPerCluster * b.bytesPerSector :=
    Nat.mul_pos h.sectorsPerCluster_pos hss
  have hres : 0 < b.reservedSectors * b.bytesPerSector := Nat.mul_pos h.reservedSectors_pos hss
  rw [h.fdata_eq off]
  rw [dataStart] at hfits ⊢
  constructor
  · constructor
    · exact hss
    · exact hcs
    · exact h.cluster_lt
    · exact Nat.dvd_mul_left _ _
    · exact Int.natCast_nonneg _
    · dsimp only; omega
    · dsimp only; omega
  · exact Nat.dvd_mul_left_of_dvd h.entries_dvd _
  · exact Int.natCast_nonneg _
  · dsimp only; omega
  · dsimp only; omega

/-! ## Directories -/

/-- A directory: the root directory, or a sub-directory with the clusters of
    its chain. -/
inductive FatDir where
  | root
  | sub (chain : List Nat)

/-- The FAT links these clusters, and nothing behind the last. -/
structure SubChain (fd : FatData) (vol : Int → UInt8) (chain : List Nat) : Prop where
  nonempty : chain ≠ []
  range : ∀ c ∈ chain, 2 ≤ c ∧ c ≤ 0xff0
  link : ∀ k c d, chain[k]? = some c → chain[k + 1]? = some d → fatEntryAt fd vol c = d
  last : ∀ k c, chain[k]? = some c → chain[k + 1]? = none →
    ¬ (2 ≤ fatEntryAt fd vol c ∧ fatEntryAt fd vol c ≤ 0xff0)

namespace FatDir

/-- The directory is one of the volume. -/
def OnVolume (fd : FatData) (vol : Int → UInt8) : FatDir → Prop
  | root => True
  | sub chain => SubChain fd vol chain

/-- The clusters that are read to search it.  The root directory is taken for
    clusters from its start on. -/
def clusters (fd : FatData) (entries : Nat) : FatDir → List Int
  | root => (List.range ((entries * sizeofFatDirent + fd.clusterSize - 1) / fd.clusterSize)).map
      fun k => fd.rootdirFirst + (k * fd.clusterSize : Nat)
  | sub chain => chain.map (clusterAddr fd)

end FatDir

/-- The slots in a cluster: each by the cluster and its place there. -/
def clusterSlots (fd : FatData) (c : Int) : List (Int × Nat) :=
  (List.range (fd.clusterSize / sizeofFatDirent)).map fun i => (c, i)

namespace FatDir

/-- The slots of a directory.  The root directory has `entries`, one after the
    other. -/
def slots (fd : FatData) (entries : Nat) : FatDir → List (Int × Nat)
  | root => (List.range entries).map fun j =>
      (fd.rootdirFirst + (j / (fd.clusterSize / sizeofFatDirent) * fd.clusterSize : Nat),
        j % (fd.clusterSize / sizeofFatDirent))
  | sub chain => (chain.map (clusterAddr fd)).flatMap (clusterSlots fd)

/-- What is read behind them as if it were slots. -/
def overrun (fd : FatData) (entries : Nat) (d : FatDir) : List (Int × Nat) :=
  ((d.clusters fd entries).flatMap (clusterSlots fd)).drop (d.slots fd entries).length

end FatDir

/-- The entry in a slot. -/
def entryAt (vol : Int → UInt8) (slot : Int × Nat) : FatDirent :=
  fatDirent (fun x => vol (slot.1 + x)) slot.2

/-- The buffer of a search that lies in memory `m`, with the cluster at `c` in
    it. -/
def dirBuf (fd : FatData) (vol m : Int → UInt8) (c : Int) : Int → UInt8 :=
  storeAt m 0 (loadAt vol c fd.clusterSize)

/-- The entry in the slot is wanted, as it lies in the buffer. -/
def SlotWanted (fd : FatData) (vol m : Int → UInt8) (name : List UInt8) (slot : Int × Nat) : Prop :=
  Wanted (dirBuf fd vol m slot.1) name slot.2

open Classical in
/-- What a search among these slots is to return: a handle of the first one
    that is wanted. -/
noncomputable def firstWanted (fd : FatData) (vol m : Int → UInt8) (name : List UInt8)
    (slots : List (Int × Nat)) : FindRet FatFile :=
  match slots.find? fun slot => SlotWanted fd vol m name slot with
  | some slot => .ok (fatPopFile fd (entryAt vol slot))
  | none => .fail

section Slots

variable {fd : FatData} {vol m : Int → UInt8} {name : List UInt8}

/-- A cluster takes the place of the one before. -/
theorem dirBuf_dirBuf (fd : FatData) (vol m : Int → UInt8) (c c' : Int) :
    dirBuf fd vol (dirBuf fd vol m c) c' = dirBuf fd vol m c' := by
  have hlen : (loadAt vol c fd.clusterSize).length = (loadAt vol c' fd.clusterSize).length := by
    rw [length_loadAt, length_loadAt]
  have hfront := storeAt_front m 0 hlen []
  rwa [List.append_nil, List.append_nil] at hfront

/-- Entries in the buffer are those of the volume. -/
theorem fatDirent_dirBuf (fd : FatData) (vol m : Int → UInt8) (c : Int) {i : Nat}
    (hi : i < fd.clusterSize / sizeofFatDirent) :
    fatDirent (dirBuf fd vol m c) i = entryAt vol (c, i) := by
  have hend : (i + 1) * sizeofFatDirent ≤ fd.clusterSize :=
    (Nat.mul_le_mul_right _ hi).trans (Nat.div_mul_le_self _ _)
  rw [Nat.succ_mul] at hend
  have hfield (a w : Nat) (haw : a + w ≤ sizeofFatDirent) :
      memField (dirBuf fd vol m c) (i * sizeofFatDirent + a) w
        = memField (fun x => vol (c + x)) (i * sizeofFatDirent + a) w := by
    have hload : loadAt (dirBuf fd vol m c) (i * sizeofFatDirent + a : Nat) w
        = loadAt (fun x => vol (c + x)) (i * sizeofFatDirent + a : Nat) w := by
      rw [loadAt_eq_iff (length_loadAt _ _ _)]
      intro k hk
      have hcell : dirBuf fd vol m c (0 + (i * sizeofFatDirent + a + k : Nat))
          = vol (c + (i * sizeofFatDirent + a + k : Nat)) :=
        storeAt_loadAt m 0 (by omega)
      rw [Int.zero_add, Nat.cast_add] at hcell
      rw [getElem?_loadAt hk, hcell]
    rw [memField, memField, hload]
  rw [entryAt, fatDirent, fatDirent, hfield 11 1 (by decide), hfield 26 2 (by decide),
    hfield 28 4 (by decide)]

/-- The slots that come first go first. -/
theorem firstWanted_append (xs ys : List (Int × Nat)) :
    firstWanted fd vol m name (xs ++ ys) =
      match firstWanted fd vol m name xs with
      | .fail => firstWanted fd vol m name ys
      | r => r := by
  rw [firstWanted, firstWanted, firstWanted, List.find?_append]
  cases xs.find? _ with
  | none => rfl
  | some slot => rfl

/-- It fails if no slot is wanted. -/
theorem firstWanted_eq_fail_iff {xs : List (Int × Nat)} :
    firstWanted fd vol m name xs = .fail ↔ ∀ slot ∈ xs, ¬ SlotWanted fd vol m name slot := by
  rw [firstWanted]
  split
  · next slot hfind =>
      have hwanted : SlotWanted fd vol m name slot := by simpa using List.find?_some hfind
      exact iff_of_false nofun fun h => h slot (List.mem_of_find?_eq_some hfind) hwanted
  · next hfind =>
      refine iff_of_true rfl fun slot hslot => ?_
      simpa using List.find?_eq_none.mp hfind slot hslot

/-- Slots that are not wanted make no difference behind the others. -/
theorem firstWanted_append_of_not {xs ys : List (Int × Nat)}
    (h : ∀ slot ∈ ys, ¬ SlotWanted fd vol m name slot) :
    firstWanted fd vol m name (xs ++ ys) = firstWanted fd vol m name xs := by
  rw [firstWanted_append, firstWanted_eq_fail_iff.mpr h]
  cases firstWanted fd vol m name xs <;> rfl

open Classical in
/-- The scan of a cluster is a search among its slots. -/
theorem scanned_eq_firstWanted (c : Int) :
    scanned fd (dirBuf fd vol m c) name (List.range (fd.clusterSize / sizeofFatDirent))
      = firstWanted fd vol m name (clusterSlots fd c) := by
  rw [scanned, firstWanted, clusterSlots, List.find?_map]
  have hsame : ((fun slot => decide (SlotWanted fd vol m name slot)) ∘ fun i => (c, i))
      = fun i => decide (Wanted (dirBuf fd vol m c) name i) := rfl
  rw [hsame]
  cases hfind : (List.range (fd.clusterSize / sizeofFatDirent)).find?
      fun i => decide (Wanted (dirBuf fd vol m c) name i) with
  | none => rfl
  | some i =>
      have hi := List.mem_range.mp (List.mem_of_find?_eq_some hfind)
      show FindRet.ok (fatPopFile fd (fatDirent (dirBuf fd vol m c) i)) = _
      rw [fatDirent_dirBuf fd vol m c hi]
      rfl

/-! ## The slots read -/

/-- The slots of clusters in a row, one after the other. -/
theorem rows_flatMap {n : Nat} (hn : 0 < n) (f : Nat → Int) (k : Nat) :
    ((List.range k).map f).flatMap (fun c => (List.range n).map fun i => (c, i))
      = (List.range (k * n)).map fun j => (f (j / n), j % n) := by
  induction k with
  | zero => rw [Nat.zero_mul]; rfl
  | succ k ih =>
      have hrow : (List.range n).map (fun i => (f k, i))
          = (List.range n).map ((fun j => (f (j / n), j % n)) ∘ (k * n + ·)) := by
        apply List.map_congr_left
        intro i hi
        have hlt := List.mem_range.mp hi
        show (f k, i) = (f ((k * n + i) / n), (k * n + i) % n)
        rw [Nat.mul_comm, Nat.mul_add_div hn, Nat.div_eq_of_lt hlt, Nat.add_zero,
          Nat.mul_add_mod, Nat.mod_eq_of_lt hlt]
      rw [List.range_succ, List.map_append, List.flatMap_append, ih, Nat.succ_mul, List.range_add,
        List.map_append, List.map_map, ← hrow]
      simp

namespace FatDir

variable {entries : Nat}

/-- The slots of a directory are the first ones that are read. -/
theorem slots_prefix (hfd : DirLayout fd) (d : FatDir) :
    d.slots fd entries <+: (d.clusters fd entries).flatMap (clusterSlots fd) := by
  cases d with
  | sub chain => exact List.prefix_refl _
  | root =>
      obtain ⟨n, hn⟩ := hfd.entries_dvd
      have hpos : 0 < fd.clusterSize / sizeofFatDirent :=
        Nat.div_pos (Nat.le_of_dvd hfd.cluster_pos hfd.entries_dvd) (by decide)
      have hle : entries ≤ (entries * sizeofFatDirent + fd.clusterSize - 1) / fd.clusterSize *
          (fd.clusterSize / sizeofFatDirent) := by
        have hsplit := Nat.div_add_mod (entries * 32 + fd.clusterSize - 1) fd.clusterSize
        have hlt := Nat.mod_lt (entries * 32 + fd.clusterSize - 1) hfd.cluster_pos
        show entries ≤ (entries * 32 + fd.clusterSize - 1) / fd.clusterSize * (fd.clusterSize / 32)
        have hcs : fd.clusterSize = 32 * n := hn
        rw [hcs] at hsplit hlt ⊢
        rw [Nat.mul_div_cancel_left n (by decide)]
        generalize (entries * 32 + 32 * n - 1) / (32 * n) = k at hsplit
        rw [Nat.mul_assoc, Nat.mul_comm n k] at hsplit
        omega
      obtain ⟨more, hmore⟩ := Nat.exists_eq_add_of_le hle
      have hrows := rows_flatMap hpos (fun k => fd.rootdirFirst + (k * fd.clusterSize : Nat))
        ((entries * sizeofFatDirent + fd.clusterSize - 1) / fd.clusterSize)
      rw [hmore, List.range_add, List.map_append] at hrows
      exact ⟨_, hrows.symm⟩

/-- What is read are these slots, and the overrun. -/
theorem slots_append_overrun (hfd : DirLayout fd) (d : FatDir) :
    d.slots fd entries ++ d.overrun fd entries
      = (d.clusters fd entries).flatMap (clusterSlots fd) :=
  List.prefix_iff_eq_append.mp (d.slots_prefix hfd)

theorem lt_ceil {k x n : Nat} (hn : 0 < n) : k < (x + n - 1) / n ↔ k * n < x := by
  rw [← Nat.succ_le_iff, Nat.le_div_iff_mul_le hn, Nat.succ_mul]
  omega

theorem zero_notMem_clusters (hfd : DirLayout fd) (hroot : 0 < fd.rootdirFirst) (d : FatDir) :
    (0 : Int) ∉ d.clusters fd entries := by
  have hpos := hfd.data_pos
  cases d with
  | root =>
      rw [clusters, List.mem_map]
      rintro ⟨k, -, hk⟩
      omega
  | sub chain =>
      rw [clusters, List.mem_map]
      rintro ⟨c, -, hc⟩
      rw [clusterAddr] at hc
      omega

/-- The clusters that are read are those the links of the volume lead to. -/
theorem clusters_next (hfd : DirLayout fd)
    (hdata : fd.dataOffset = fd.rootdirFirst + (entries * sizeofFatDirent : Nat)) {d : FatDir}
    (hd : d.OnVolume fd vol) (k : Nat) (c : Int) (hk : (d.clusters fd entries)[k]? = some c) :
    fatNextAt fd vol c = (d.clusters fd entries)[k + 1]?.getD 0 := by
  have hcs := hfd.cluster_pos
  cases d with
  | root =>
      rw [clusters] at hk ⊢
      rw [List.getElem?_map, Option.map_eq_some_iff] at hk
      obtain ⟨k', hk', rfl⟩ := hk
      obtain ⟨hlt, rfl⟩ := List.getElem?_eq_some_iff.mp hk'
      rw [List.getElem_range]
      rw [List.length_range, lt_ceil hcs] at hlt
      rw [fatNextAt, if_pos (by omega), if_neg (by omega), List.getElem?_map]
      -- there is a cluster behind it if it starts in front of the data region
      by_cases hmore : (k + 1) * fd.clusterSize < entries * sizeofFatDirent
      · rw [List.getElem?_range ((lt_ceil hcs).mpr hmore)]
        rw [Nat.succ_mul] at hmore
        rw [if_pos (by omega), Option.map_some, Option.getD_some, Nat.succ_mul]
        omega
      · -- it was the last one
        have hend : (List.range ((entries * sizeofFatDirent + fd.clusterSize - 1) / fd.clusterSize))[
            k + 1]? = none := by
          rw [List.getElem?_eq_none_iff, List.length_range]
          exact Nat.le_of_not_lt fun h => hmore ((lt_ceil hcs).mp h)
        rw [Nat.succ_mul] at hmore
        rw [if_neg (by omega), hend]
        rfl
  | sub chain =>
      rw [clusters, List.getElem?_map, Option.map_eq_some_iff] at hk
      obtain ⟨e, he, rfl⟩ := hk
      have hrange := hd.range e (List.mem_of_getElem? he)
      have hge := (hfd.clusterAddr_lt hrange.2).1
      rw [clusters, List.getElem?_map, fatNextAt, if_neg (by omega),
        clusterNumAt_clusterAddr hcs hrange.1 (by omega)]
      dsimp only
      -- the entry names the next cluster of the chain, or none
      cases hnext : chain[k + 1]? with
      | none => rw [if_neg (hd.last k e he hnext)]; rfl
      | some e' =>
          rw [hd.link k e e' he hnext, if_pos (hd.range e' (List.mem_of_getElem? hnext))]
          rfl

end FatDir

end Slots

/-! ## The search -/

section Search

variable {S : StorageHand ι} {vol m : Int → UInt8} {fd : FatData} {dir : FatFile}
  {name : List UInt8}

/-- From cluster `k` on, the loop searches the slots of the clusters that are
    left. -/
theorem fatFsFindLoop_slots (hS : Delivers S vol) (hfd : DirLayout fd)
    (hdir : dir.directory = true) (hstart : DirStart fd dir.firstCluster) {clusters : List Int}
    (hchain : ∀ k, chainAt (fatNextAt fd vol) k dir.firstCluster = clusters[k]?) (hm : NotBlank m)
    {rest : List Int} {k : Nat} (hrest : clusters.drop k = rest) {s : FatSearch ι}
    (hs : CacheMatches fd vol s.lookup.cache)
    (hbuf : ∀ c, dirBuf fd vol s.dirents c = dirBuf fd vol m c) :
    ∀ᶠ fuel in atTop, (fatFsFindLoop S fd dir name fuel s (k * fd.clusterSize : Nat)).1
      = firstWanted fd vol m name (rest.flatMap (clusterSlots fd)) := by
  induction rest generalizing k s with
  | nil =>
      -- the read fails: there is no such cluster
      obtain ⟨t, -, hread⟩ := fatFileRead_volume hS hfd hdir hstart hs s.dirents k
      rw [hchain, List.getElem?_eq_none (List.drop_eq_nil_iff.mp hrest)] at hread
      apply eventually_of_succ
      apply Eventually.of_forall
      intro fuel
      rw [fatFsFindLoop, hread]
      dsimp only
      rw [if_pos (by omega)]
      rfl
  | cons c rest ih =>
      have hc : clusters[k]? = some c := by
        rw [← Nat.add_zero k, ← List.getElem?_drop, hrest]
        rfl
      have hdrop : clusters.drop (k + 1) = rest := by
        rw [← List.drop_drop, hrest, List.drop_one, List.tail_cons]
      obtain ⟨t, ht, hread⟩ := fatFileRead_volume hS hfd hdir hstart hs s.dirents k
      rw [hchain, hc] at hread
      dsimp only at hread
      rw [← dirBuf, hbuf c] at hread
      have hscan := fatScanDirents_eventually (hm.storeAt 0 (loadAt vol c fd.clusterSize)) fd name
        (List.range (fd.clusterSize / sizeofFatDirent))
      rw [← dirBuf, scanned_eq_firstWanted] at hscan
      -- a chain that ends has no cycle, so its offsets are within `off_t`
      have hacyclic := acyclic_of_none
        ((hchain clusters.length).trans (List.getElem?_length clusters))
      have hnext := (fatNextAt_links fd vol).offset_next hfd hacyclic ((hchain k).trans hc)
      have hgo := @ih (k + 1) hdrop ⟨t, dirBuf fd vol m c⟩ ht (dirBuf_dirBuf fd vol m c)
      rw [List.flatMap_cons, firstWanted_append]
      apply eventually_of_succ
      filter_upwards [hscan, hgo] with fuel hfuel hfuel'
      rw [fatFsFindLoop, hread]
      dsimp only
      rw [if_neg (not_not.mpr rfl), hfuel]
      cases hfirst : firstWanted fd vol m name (clusterSlots fd c) with
      | fail =>
          -- none of them: on to the slots of the next cluster
          dsimp only
          rw [hnext]
          exact hfuel'
      | ok file => rfl
      | panic => rfl
      | stuck => rfl

/-- A handle of the directory: it starts at its first cluster. -/
structure HandleOf (fd : FatData) (entries : Nat) (d : FatDir) (dir : FatFile) : Prop where
  directory : dir.directory = true
  first : (d.clusters fd entries).head? = some dir.firstCluster

theorem HandleOf.start (hfd : DirLayout fd) {entries : Nat} {d : FatDir}
    (hd : d.OnVolume fd vol) (h : HandleOf fd entries d dir) : DirStart fd dir.firstCluster := by
  have hfirst := h.first
  cases d with
  | root =>
      rw [FatDir.clusters, List.head?_map, Option.map_eq_some_iff] at hfirst
      obtain ⟨k, hk, heq⟩ := hfirst
      rw [List.head?_range] at hk
      split at hk
      · exact absurd hk nofun
      · rw [← heq, ← Option.some.inj hk, Nat.zero_mul, Nat.cast_zero, Int.add_zero]
        exact hfd.start_rootdir
  | sub chain =>
      obtain ⟨c, hc, heq⟩ := List.mem_map.mp (List.mem_of_head? hfirst)
      have hrange := hd.range c hc
      right
      rw [← heq, clusterNumAt_clusterAddr hfd.cluster_pos hrange.1 (by omega)]
      omega

/-- On a volume that can be read, the search returns the first slot wanted
    among those of the directory and the overrun. -/
theorem fatFsFind_slots (hS : Delivers S vol) (off : Int) {b : FatBootsector} (hb : Fat12Volume b)
    (d : FatDir) (hd : d.OnVolume (fatPopulate off b).fdata vol) (dir : Option FatFile)
    (hdir : HandleOf (fatPopulate off b).fdata b.rootDirEntries d
      (dir.getD (fatPopulate off b).rootdir)) {s : FatSearch ι}
    (hs : CacheMatches (fatPopulate off b).fdata vol s.lookup.cache) (hblank : NotBlank s.dirents)
    (hname : name ≠ [0x2e]) :
    ∀ᶠ fuel in atTop, (fatFsFind S (fatPopulate off b) fuel s dir name).1
      = firstWanted (fatPopulate off b).fdata vol s.dirents name
          (d.slots (fatPopulate off b).fdata b.rootDirEntries ++
            d.overrun (fatPopulate off b).fdata b.rootDirEntries) := by
  have hfd := hb.layout off
  have hdata : (fatPopulate off b).fdata.dataOffset = (fatPopulate off b).fdata.rootdirFirst
      + (b.rootDirEntries * sizeofFatDirent : Nat) := by
    rw [hb.fdata_eq off, dataStart]
    exact Nat.cast_add _ _
  have hroot : 0 < (fatPopulate off b).fdata.rootdirFirst := by
    have hres : 0 < b.reservedSectors * b.bytesPerSector :=
      Nat.mul_pos hb.reservedSectors_pos hb.bytesPerSector_pos
    rw [hb.fdata_eq off]
    dsimp only
    omega
  have hchain := chainAt_eq_getElem? hdir.first
    (FatDir.zero_notMem_clusters hfd hroot d) (FatDir.clusters_next hfd hdata hd)
  have hloop := @fatFsFindLoop_slots ι S vol _ _ _ name hS hfd hdir.directory (hdir.start hfd hd) _
    hchain hblank _ 0 List.drop_zero s hs fun _ => rfl
  rw [← FatDir.slots_append_overrun hfd d, Nat.zero_mul] at hloop
  filter_upwards [hloop] with fuel hfuel
  rw [fatFsFind, if_neg hname]
  exact hfuel

/-- On every FAT12 volume with successful reads, in every directory and for
    every name but `.`: the search finds the first slot of the directory that
    is wanted, and fails if there is none, whatever the slots start with, and
    unless what is behind the root directory in its last cluster is wanted. -/
theorem fatFsFind_first_slot {ι : Type} (S : StorageHand ι) (vol : Int → UInt8)
    (hS : Delivers S vol) (off : Int) (b : FatBootsector) (hb : Fat12Volume b) (d : FatDir)
    (hd : d.OnVolume (fatPopulate off b).fdata vol) (dir : Option FatFile)
    (hdir : HandleOf (fatPopulate off b).fdata b.rootDirEntries d
      (dir.getD (fatPopulate off b).rootdir)) (s : FatSearch ι)
    (hs : CacheMatches (fatPopulate off b).fdata vol s.lookup.cache) (hblank : NotBlank s.dirents)
    (name : List UInt8) (hname : name ≠ [0x2e])
    (hover : ∀ slot ∈ d.overrun (fatPopulate off b).fdata b.rootDirEntries,
      ¬ SlotWanted (fatPopulate off b).fdata vol s.dirents name slot) :
    ∀ᶠ fuel in atTop, (fatFsFind S (fatPopulate off b) fuel s dir name).1
      = firstWanted (fatPopulate off b).fdata vol s.dirents name
          (d.slots (fatPopulate off b).fdata b.rootDirEntries) := by
  rw [← firstWanted_append_of_not hover]
  exact fatFsFind_slots hS off hb d hd dir hdir hs hblank hname

end Search

/-! ## A root directory -/

namespace SmallVolume

theorem fat12Volume : Fat12Volume bootsec where
  entries_dvd := by decide
  bytesPerSector_pos := by decide
  sectorsPerCluster_pos := by decide
  cluster_lt := by decide
  reservedSectors_pos := by decide
  rootDirEntries_pos := by decide
  fits := by decide

/-- No sector of the FAT is cached. -/
def cold : FatSearch Unit := ⟨⟨(), ⟨fun _ => 4096, fun _ => 0, fun _ => 0⟩, fun _ => 0⟩, fun _ => 0⟩

/-- The cache agrees with every volume that is zero there. -/
theorem cold_matches {vol : Int → UInt8} (hvol : ∀ x ≥ 4096, vol x = 0) :
    CacheMatches (fatPopulate 0 bootsec).fdata vol cold.lookup.cache := by
  apply cacheMatches_const (y := 0) fun _ => rfl
  intro i j
  exact hvol _ (Int.le_add_of_nonneg_right (Int.natCast_nonneg j))

theorem cold_notBlank : NotBlank cold.dirents := by
  have hzero : (0 : UInt8) ≠ 0x20 := by decide
  exact fun k => ⟨k, Nat.le_refl k, hzero⟩

theorem rootdir_handle : HandleOf (fatPopulate 0 bootsec).fdata bootsec.rootDirEntries .root
    (fatPopulate 0 bootsec).rootdir where
  directory := rfl
  first := by decide

end SmallVolume

/-- The root directory of the small volume fills its cluster. -/
theorem fatFsFind_first_slot_small :
    ∀ᶠ fuel in atTop, (fatFsFind SmallVolume.storage (fatPopulate 0 SmallVolume.bootsec) fuel
        SmallVolume.cold none [0x41]).1
      = firstWanted (fatPopulate 0 SmallVolume.bootsec).fdata SmallVolume.vol (fun _ => 0) [0x41]
          (FatDir.root.slots (fatPopulate 0 SmallVolume.bootsec).fdata 16) := by
  have hover : FatDir.root.overrun (fatPopulate 0 SmallVolume.bootsec).fdata 16 = [] := by decide
  apply fatFsFind_first_slot SmallVolume.storage SmallVolume.vol (fun _ _ _ => rfl) 0
    SmallVolume.bootsec SmallVolume.fat12Volume .root trivial none SmallVolume.rootdir_handle
    SmallVolume.cold
  · apply SmallVolume.cold_matches
    intro x hx
    rw [SmallVolume.vol]
    repeat rw [if_neg (by omega)]
  · exact SmallVolume.cold_notBlank
  · decide
  · intro slot hslot
    have hnil : slot ∈ FatDir.root.overrun (fatPopulate 0 SmallVolume.bootsec).fdata 16 := hslot
    rw [hover] at hnil
    exact absurd hnil List.not_mem_nil

/-! ### An entry behind the end -/

/-- The slots up to the first one that starts with a zero byte. -/
def FatDir.live (fd : FatData) (vol : Int → UInt8) (entries : Nat) (d : FatDir) :
    List (Int × Nat) :=
  (d.slots fd entries).takeWhile fun slot => vol (slot.1 + (slot.2 * sizeofFatDirent : Nat)) ≠ 0

/-- The small volume with the file `A` in the second slot of the root
    directory; the first starts with a zero byte. -/
def SmallVolume.endMarked (x : Int) : UInt8 :=
  if x = 1024 then 0 else if x = 1056 then 0x41 else if 1056 < x ∧ x < 1067 then 0x20
  else SmallVolume.vol x

theorem SmallVolume.endMarked_wanted :
    SlotWanted (fatPopulate 0 bootsec).fdata endMarked cold.dirents [0x41] (1024, 1) := by
  constructor
  · apply Eventually.of_forall
    intro fuel
    rw [fatStrcmp, fatStrcmpFrom, if_neg (by decide), if_neg (by decide +kernel), fatStrcmpFrom,
      if_neg (by decide +kernel)]
  · decide +kernel

/-- Entries behind the end of the directory are found. -/
theorem fatFsFind_behind_end :
    ¬ ∀ (S : StorageHand Unit) (vol : Int → UInt8) (b : FatBootsector) (d : FatDir)
      (dir : Option FatFile) (s : FatSearch Unit) (name : List UInt8), Delivers S vol →
      Fat12Volume b → d.OnVolume (fatPopulate 0 b).fdata vol →
      HandleOf (fatPopulate 0 b).fdata b.rootDirEntries d (dir.getD (fatPopulate 0 b).rootdir) →
      CacheMatches (fatPopulate 0 b).fdata vol s.lookup.cache → NotBlank s.dirents →
      name ≠ [0x2e] →
        ∀ᶠ fuel in atTop, (fatFsFind S (fatPopulate 0 b) fuel s dir name).1
          = firstWanted (fatPopulate 0 b).fdata vol s.dirents name
              (d.live (fatPopulate 0 b).fdata vol b.rootDirEntries) := by
  intro hall
  have hS : Delivers (⟨fun d off n => ((loadAt SmallVolume.endMarked off n, n), d)⟩ :
      StorageHand Unit) SmallVolume.endMarked := fun _ _ _ => rfl
  have hcache : CacheMatches (fatPopulate 0 SmallVolume.bootsec).fdata SmallVolume.endMarked
      SmallVolume.cold.lookup.cache := by
    apply SmallVolume.cold_matches
    intro x hx
    rw [SmallVolume.endMarked, SmallVolume.vol]
    repeat rw [if_neg (by omega)]
  have hname : [(0x41 : UInt8)] ≠ [0x2e] := by decide
  have hlive := hall _ _ _ .root none _ [0x41] hS SmallVolume.fat12Volume trivial
    SmallVolume.rootdir_handle hcache SmallVolume.cold_notBlank hname
  have hfound := fatFsFind_slots hS 0 SmallVolume.fat12Volume .root trivial none
    SmallVolume.rootdir_handle hcache SmallVolume.cold_notBlank hname
  -- no slot is in front of the end, but the second one is wanted
  have hempty : FatDir.root.live (fatPopulate 0 SmallVolume.bootsec).fdata SmallVolume.endMarked
      SmallVolume.bootsec.rootDirEntries = [] := by
    decide +kernel
  have hslot : ((1024 : Int), 1) ∈ FatDir.root.slots (fatPopulate 0 SmallVolume.bootsec).fdata
      SmallVolume.bootsec.rootDirEntries := by
    decide +kernel
  obtain ⟨fuel, hnone, hsome⟩ := (hlive.and hfound).exists
  rw [hempty] at hnone
  exact firstWanted_eq_fail_iff.mp (hsome.symm.trans hnone) _ (List.mem_append_left _ hslot)
    SmallVolume.endMarked_wanted

end LBoot.Storage
