/-
  LBoot.Tools.FatSlots

  The loader and sector_mapper on one directory.

  Both go over the slots of its clusters in order and compare names alike.
  The comparison of an entry that names a cluster of twelve bits ends within
  the entry (`fatStrcmp_inside`), so what lies behind the buffers does not
  matter, and each search picks a slot of the image.

  They pick by different rules.  The loader leaves out devices and reserved
  entries, sector_mapper does not; sector_mapper does not look for a name of
  more than 11 characters, and takes a link to cluster 0xff0 for the end of
  the directory.
-/

import LBoot.Storage.FatDirs
import LBoot.Storage.FatEnds
import LBoot.Storage.FatName
import LBoot.Tools.FatAgree

namespace LBoot.Tools

open LBoot.Lib LBoot.Storage Filter

variable {ι : Type*}

/-! ## Slots -/

/-- The entry in a slot, as `_fat_strcmp` sees it. -/
def slotName (vol : Int → UInt8) (slot : Int × Nat) : Nat → UInt8 :=
  fun k => vol (slot.1 + (slot.2 * sizeofFatDirent + k : Nat))

/-- The name of the entry compares as equal. -/
def Named (vol : Int → UInt8) (name : List UInt8) (slot : Int × Nat) : Prop :=
  Storage.fatStrcmp sizeofFatDirent (slotName vol slot) name = some 0

instance (vol : Int → UInt8) (name : List UInt8) (slot : Int × Nat) :
    Decidable (Named vol name slot) :=
  inferInstanceAs (Decidable (_ = _))

/-- `_fat_fs_find` takes the entry. -/
def LoaderTakes (vol : Int → UInt8) (name : List UInt8) (slot : Int × Nat) : Prop :=
  Named vol name slot ∧ (entryAt vol slot).attr &&&
    (fatDirentAttrVolumelabel ||| fatDirentAttrDevice ||| fatDirentAttrReserved) = 0

/-- `fat_find_file` does. -/
def ToolTakes (vol : Int → UInt8) (name : List UInt8) (slot : Int × Nat) : Prop :=
  Named vol name slot ∧ (entryAt vol slot).attr &&& fatDirentAttrVolumelabel = 0

instance (vol : Int → UInt8) (name : List UInt8) (slot : Int × Nat) :
    Decidable (LoaderTakes vol name slot) :=
  inferInstanceAs (Decidable (_ ∧ _))

instance (vol : Int → UInt8) (name : List UInt8) (slot : Int × Nat) :
    Decidable (ToolTakes vol name slot) :=
  inferInstanceAs (Decidable (_ ∧ _))

instance (fd : FatData) (vol : Int → UInt8) (c : Int) : Decidable (AmbiguousEnd fd vol c) :=
  inferInstanceAs (Decidable (_ ∧ _))

/-- The clusters sector_mapper goes through: those up to a link to cluster
    0xff0. -/
def toolPart (fd : FatData) (vol : Int → UInt8) : List Int → List Int
  | [] => []
  | c :: cs => c :: if AmbiguousEnd fd vol c then [] else toolPart fd vol cs

/-- The first slot in these clusters that the loader takes. -/
def loaderPick (fd : FatData) (vol : Int → UInt8) (name : List UInt8) (clusters : List Int) :
    Option (Int × Nat) :=
  (clusters.flatMap (clusterSlots fd)).find? fun slot => LoaderTakes vol name slot

/-- The first one that sector_mapper takes. -/
def toolPick (fd : FatData) (vol : Int → UInt8) (name : List UInt8) (clusters : List Int) :
    Option (Int × Nat) :=
  if name.length > 11 then none
  else ((toolPart fd vol clusters).flatMap (clusterSlots fd)).find? fun slot =>
    ToolTakes vol name slot

/-- A component of a path: a name in 8.3 form, without blanks, control
    characters and separators. -/
structure Component (name : List UInt8) : Prop where
  form : ∃ n : DirName, n.form = name
  printable : ∀ b ∈ name, 0x20 < b ∧ b ≠ fsPathsep

/-- The entry names a cluster of twelve bits, or it was never used. -/
def SlotFat12 (vol : Int → UInt8) (slot : Int × Nat) : Prop :=
  slotName vol slot 0 = 0 ∨ (entryAt vol slot).startCluster < 2 ^ 12

instance (vol : Int → UInt8) (slot : Int × Nat) : Decidable (SlotFat12 vol slot) :=
  inferInstanceAs (Decidable (_ ∨ _))

/-- A component starts with a character of its base. -/
theorem Component.head {name : List UInt8} (h : Component name) :
    ∃ c rest, name = c :: rest ∧ c ≠ 0x2e ∧ c ≠ 0 := by
  obtain ⟨⟨n, rfl⟩, hprint⟩ := h
  obtain ⟨c, base, hbase⟩ := List.exists_cons_of_length_pos n.base_length.1
  have hform : ∃ rest, n.form = c :: rest := by
    rw [DirName.form, hbase]
    split
    · exact ⟨_, rfl⟩
    · exact ⟨_, rfl⟩
  obtain ⟨rest, hrest⟩ := hform
  have hc := (hprint c (hrest ▸ List.mem_cons_self)).1
  refine ⟨c, rest, hrest, (n.base_char c (hbase ▸ List.mem_cons_self)).2, ?_⟩
  rintro rfl
  exact absurd hc (by decide)

/-! ## Comparisons -/

section Compare

variable {fatName fatName' : Nat → UInt8} {fuel fuel' : Nat}

/-- Blanks in front of a byte that is not blank. -/
theorem fatSkipBlanks_inside (hsame : ∀ k ≤ 27, fatName k = fatName' k) (hend : fatName 27 ≠ 0x20)
    {fidx : Nat} (h : fidx ≤ 27) (hfuel : 27 - fidx < fuel) (hfuel' : 27 - fidx < fuel') :
    ∃ j ≤ 27, fatSkipBlanks fatName fuel fidx = some j ∧
      fatSkipBlanks fatName' fuel' fidx = some j := by
  -- by induction on the distance to that byte
  induction hn : 27 - fidx generalizing fidx fuel fuel' with
  | zero =>
      obtain rfl : fidx = 27 := by omega
      obtain ⟨fuel, rfl⟩ := Nat.exists_eq_succ_of_ne_zero (Nat.ne_of_gt (Nat.zero_lt_of_lt hfuel))
      obtain ⟨fuel', rfl⟩ := Nat.exists_eq_succ_of_ne_zero (Nat.ne_of_gt (Nat.zero_lt_of_lt hfuel'))
      refine ⟨27, Nat.le_refl 27, if_neg hend, if_neg ?_⟩
      rwa [← hsame 27 (Nat.le_refl 27)]
  | succ n ih =>
      obtain ⟨fuel, rfl⟩ := Nat.exists_eq_succ_of_ne_zero (Nat.ne_of_gt (Nat.zero_lt_of_lt hfuel))
      obtain ⟨fuel', rfl⟩ := Nat.exists_eq_succ_of_ne_zero (Nat.ne_of_gt (Nat.zero_lt_of_lt hfuel'))
      rw [fatSkipBlanks, fatSkipBlanks, ← hsame fidx h]
      split
      · exact ih (by omega) (by omega) (by omega) (by omega)
      · exact ⟨fidx, h, rfl, rfl⟩

/-- In front of a byte below the blank a comparison comes to its end. -/
theorem fatStrcmpFrom_inside (hsame : ∀ k ≤ 27, fatName k = fatName' k) (hend : fatName 27 < 0x20)
    (hfuel : 28 ≤ fuel) (hfuel' : 28 ≤ fuel') {name : List UInt8} (hname : ∀ b ∈ name, 0x20 < b)
    {fidx : Nat} (h : fidx ≤ 27) :
    ∃ r, fatStrcmpFrom fuel fatName name fidx = some r ∧
      fatStrcmpFrom fuel' fatName' name fidx = some r := by
  induction name generalizing fidx with
  | nil =>
      have hany : ((List.range' fidx (11 - fidx)).any fun k => fatName k ≠ 0x20)
          = (List.range' fidx (11 - fidx)).any fun k => fatName' k ≠ 0x20 := by
        rw [Bool.eq_iff_iff, List.any_eq_true, List.any_eq_true]
        apply exists_congr
        intro k
        apply and_congr_right
        intro hk
        rw [List.mem_range'_1] at hk
        rw [hsame k (by omega)]
      rw [fatStrcmpFrom, fatStrcmpFrom, ← hany]
      split
      · exact ⟨-1, rfl, rfl⟩
      · exact ⟨0, rfl, rfl⟩
  | cons c name ih =>
      obtain ⟨hc, hrest⟩ := List.forall_mem_cons.mp hname
      rw [fatStrcmpFrom, fatStrcmpFrom]
      split
      · have hblank : fatName 27 ≠ 0x20 := by
          intro hblank
          rw [hblank] at hend
          exact UInt8.lt_irrefl _ hend
        obtain ⟨j, hj, hskip, hskip'⟩ := @fatSkipBlanks_inside fatName fatName' fuel fuel' hsame hblank
          fidx h (by omega) (by omega)
        rw [hskip, hskip']
        exact ih hrest hj
      · rw [← hsame fidx h]
        split
        · exact ⟨-1, rfl, rfl⟩
        · next hchar =>
            -- that byte is no character of a name
            have hne : fidx ≠ 27 := by
              rintro rfl
              rw [not_not.mp hchar] at hend
              exact absurd (UInt8.lt_trans hc hend) (UInt8.lt_irrefl _)
            exact ih hrest (by omega)

/-- An entry never used does not compare as equal. -/
theorem Component.strcmp_free {name : List UInt8} (h : Component name) (hfree : fatName 0 = 0) :
    Storage.fatStrcmp fuel fatName name = some (-1) := by
  obtain ⟨c, rest, rfl, hdot, hzero⟩ := h.head
  rw [Storage.fatStrcmp, fatStrcmpFrom.eq_def]
  dsimp only
  rw [if_neg hdot, hfree, if_pos hzero.symm]

theorem Component.used {vol : Int → UInt8} {name : List UInt8} {slot : Int × Nat}
    (h : Component name) (hnamed : Named vol name slot) : slotName vol slot 0 ≠ 0 := by
  intro hfree
  rw [Named, h.strcmp_free hfree] at hnamed
  exact absurd hnamed (by decide)

/-- The comparison of an entry ends within the entry. -/
theorem fatStrcmp_inside {vol : Int → UInt8} {slot : Int × Nat} (hslot : SlotFat12 vol slot)
    {name : List UInt8} (hname : Component name)
    (hsame : ∀ k < sizeofFatDirent, fatName k = slotName vol slot k) (hfuel : sizeofFatDirent ≤ fuel) :
    ∃ r, Storage.fatStrcmp fuel fatName name = some r ∧ (r = 0 ↔ Named vol name slot) := by
  have h32 : sizeofFatDirent = 32 := rfl
  rw [h32] at hsame hfuel
  have hboth : ∃ r, Storage.fatStrcmp fuel fatName name = some r ∧
      Storage.fatStrcmp sizeofFatDirent (slotName vol slot) name = some r := by
    rcases hslot with hfree | hcluster
    · exact ⟨-1, hname.strcmp_free ((hsame 0 (by decide)).trans hfree), hname.strcmp_free hfree⟩
    · have hhigh : slotName vol slot 27 < 0x20 := by
        have hfield : (entryAt vol slot).startCluster
            = (slotName vol slot 26).toNat + 256 * (slotName vol slot 27).toNat := by
          show leNat [vol (slot.1 + ((slot.2 * sizeofFatDirent + 26 : Nat) + (0 : Nat))),
            vol (slot.1 + ((slot.2 * sizeofFatDirent + 26 : Nat) + (1 : Nat)))] = _
          rfl
        rw [UInt8.lt_iff_toNat_lt]
        have hblank : (0x20 : UInt8).toNat = 32 := rfl
        omega
      exact fatStrcmpFrom_inside (fun k hk => hsame k (by omega)) (by rwa [hsame 27 (by decide)])
        (by omega) (by decide) (fun b hb => (hname.printable b hb).1) (Nat.zero_le 27)
  obtain ⟨r, hr, hr'⟩ := hboth
  refine ⟨r, hr, ?_⟩
  rw [Named, hr', Option.some.injEq]

end Compare

/-! ## One cluster -/

/-- The slots of the cluster at `c` are such. -/
def ClusterFat12 (fd : FatData) (vol : Int → UInt8) (c : Int) : Prop :=
  ∀ i < fd.clusterSize / sizeofFatDirent, SlotFat12 vol (c, i)

/-- What the loader returns for the slot it picks. -/
def loaderRet (fd : FatData) (vol : Int → UInt8) : Option (Int × Nat) → FindRet FatFile
  | none => .fail
  | some slot => .ok (fatPopFile fd (entryAt vol slot))

/-- What sector_mapper returns. -/
def toolRet (hand : FatHandle) (vol : Int → UInt8) : Option (Int × Nat) → FindRet FatFileHandle
  | none => .fail
  | some slot => .ok (populateFileHandle hand (entryAt vol slot))

section Cluster

variable {fd : FatData} {vol m : Int → UInt8} {c : Int} {name : List UInt8} {fuel : Nat}

/-- The buffer holds the slots of the cluster. -/
theorem entryName_dirBuf {i k : Nat} (hi : i < fd.clusterSize / sizeofFatDirent)
    (hk : k < sizeofFatDirent) : entryName (dirBuf fd vol m c) i k = slotName vol (c, i) k := by
  have hend : (i + 1) * sizeofFatDirent ≤ fd.clusterSize :=
    (Nat.mul_le_mul_right _ hi).trans (Nat.div_mul_le_self _ _)
  rw [Nat.succ_mul] at hend
  have hcell : dirBuf fd vol m c (0 + (i * sizeofFatDirent + k : Nat))
      = vol (c + (i * sizeofFatDirent + k : Nat)) :=
    storeAt_loadAt m 0 (by omega)
  rwa [Int.zero_add] at hcell

/-- The loader's scan of a cluster. -/
theorem fatScanDirents_pick (hc : ClusterFat12 fd vol c) (hname : Component name)
    (hfuel : sizeofFatDirent ≤ fuel) {is : List Nat}
    (his : ∀ i ∈ is, i < fd.clusterSize / sizeofFatDirent) :
    fatScanDirents fuel fd (dirBuf fd vol m c) name is =
      loaderRet fd vol ((is.map fun i => (c, i)).find? fun slot => LoaderTakes vol name slot) := by
  induction is with
  | nil => rfl
  | cons i is ih =>
      obtain ⟨hi, his⟩ := List.forall_mem_cons.mp his
      obtain ⟨r, hr, hnamed⟩ := fatStrcmp_inside (hc i hi) hname
        (fun k hk => entryName_dirBuf hi hk) hfuel
      have hentry : (fun k => dirBuf fd vol m c (i * sizeofFatDirent + k : Nat))
          = entryName (dirBuf fd vol m c) i := rfl
      rw [fatScanDirents, hentry, hr, List.map_cons, List.find?_cons]
      dsimp only
      rw [fatDirent_dirBuf fd vol m c hi]
      by_cases htakes : LoaderTakes vol name (c, i)
      · rw [if_pos ⟨hnamed.mpr htakes.1, htakes.2⟩, decide_eq_true htakes]
        rfl
      · rw [if_neg fun hboth => htakes ⟨hnamed.mp hboth.1, hboth.2⟩, decide_eq_false htakes]
        exact ih his

/-- The scan of sector_mapper.  It does not compare entries never used, which
    compare as different. -/
theorem scanDents_pick {hand : FatHandle} (hc : ClusterFat12 fd vol c) (hname : Component name)
    (hfuel : sizeofFatDirent ≤ fuel) {is : List Nat}
    (his : ∀ i ∈ is, i < fd.clusterSize / sizeofFatDirent) :
    scanDents fuel hand (dirBuf fd vol m c) name is =
      toolRet hand vol ((is.map fun i => (c, i)).find? fun slot => ToolTakes vol name slot) := by
  induction is with
  | nil => rfl
  | cons i is ih =>
      obtain ⟨hi, his⟩ := List.forall_mem_cons.mp his
      obtain ⟨r, hr, hnamed⟩ := fatStrcmp_inside (hc i hi) hname
        (fun k hk => entryName_dirBuf hi hk) hfuel
      have hentry : (fun k => dirBuf fd vol m c (i * sizeofFatDirent + k : Nat))
          = entryName (dirBuf fd vol m c) i := rfl
      have hfirst : dirBuf fd vol m c (i * sizeofFatDirent : Nat) = slotName vol (c, i) 0 :=
        @entryName_dirBuf fd vol m c i 0 hi (by decide)
      rw [scanDents, hfirst, hentry, fatStrcmp, hr, fatDirent_dirBuf fd vol m c hi, List.map_cons,
        List.find?_cons]
      dsimp only
      by_cases htakes : ToolTakes vol name (c, i)
      · have hused := hname.used htakes.1
        rw [if_neg (not_or.mpr ⟨hused, not_not.mpr htakes.2⟩), if_pos (hnamed.mpr htakes.1),
          decide_eq_true htakes]
        rfl
      · rw [decide_eq_false htakes]
        split
        · exact ih his
        · next hlabel =>
            rw [if_neg fun hzero => htakes ⟨hnamed.mp hzero, not_not.mp (not_or.mp hlabel).2⟩]
            exact ih his

end Cluster

/-! ## One directory -/

/-- The clusters of the chain from `c` on, as the FAT has it. -/
def ChainOf (fd : FatData) (vol : Int → UInt8) (c : Int) (clusters : List Int) : Prop :=
  ∀ k, chainAt (fatNextAt fd vol) k c = clusters[k]?

section Directory

variable {S : StorageHand ι} {pread : Pread} {fd : FatData} {hand : FatHandle}
  {vol : Int → UInt8} {name : List UInt8}

theorem ChainOf.cons {c : Int} {clusters : List Int} (h : ChainOf fd vol c clusters) :
    ∃ rest, clusters = c :: rest ∧ (fatNextAt fd vol c = 0 ∧ rest = [] ∨
      fatNextAt fd vol c ≠ 0 ∧ ChainOf fd vol (fatNextAt fd vol c) rest) := by
  have hfirst := h 0
  cases clusters with
  | nil => exact absurd hfirst nofun
  | cons d rest =>
      obtain rfl : c = d := Option.some.inj hfirst
      refine ⟨rest, rfl, ?_⟩
      by_cases hend : fatNextAt fd vol c = 0
      · have hnone := h 1
        rw [chainAt, if_pos hend, List.getElem?_cons_succ] at hnone
        exact Or.inl ⟨hend, List.eq_nil_of_length_eq_zero
          (Nat.le_zero.mp (List.getElem?_eq_none_iff.mp hnone.symm))⟩
      · refine Or.inr ⟨hend, fun k => ?_⟩
        have hk := h (k + 1)
        rwa [chainAt, if_neg hend, List.getElem?_cons_succ] at hk

theorem ChainOf.unique {c : Int} {clusters clusters' : List Int} (h : ChainOf fd vol c clusters)
    (h' : ChainOf fd vol c clusters') : clusters = clusters' :=
  List.ext_getElem? fun k => (h k).symm.trans (h' k)

/-- A chain that ends is a list of clusters. -/
theorem exists_chainOf {n : Nat} {c : Int} (hn : chainAt (fatNextAt fd vol) n c = none) :
    ∃ clusters, ChainOf fd vol c clusters := by
  induction n generalizing c with
  | zero => exact absurd hn nofun
  | succ n ih =>
      by_cases hend : fatNextAt fd vol c = 0
      · refine ⟨[c], fun k => ?_⟩
        cases k with
        | zero => rfl
        | succ k => rw [chainAt, if_pos hend]; rfl
      · rw [chainAt, if_neg hend] at hn
        obtain ⟨clusters, hclusters⟩ := ih hn
        refine ⟨c :: clusters, fun k => ?_⟩
        cases k with
        | zero => rfl
        | succ k => rw [chainAt, if_neg hend]; exact hclusters k

theorem fatNextAt_mem (hfd : DirLayout fd) (c : Int) : fatNextAt fd vol c ∈ offRange := by
  have hfits := hfd.fits
  have hroot := hfd.rootdir_nonneg
  rw [mem_offRange, fatNextAt]
  split
  · split
    · omega
    · split <;> omega
  · dsimp only
    split
    · next he =>
        have haddr := hfd.clusterAddr_lt he.2
        have hpos := hfd.data_pos
        have hcs := hfd.cluster_pos
        omega
    · omega

/-- A chain without a cycle is one. -/
theorem chainOf_of_acyclic (hfd : DirLayout fd) {c : Int} (h : Acyclic (fatNextAt fd vol) c) :
    ∃ clusters, ChainOf fd vol c clusters := by
  obtain ⟨n, hn⟩ := h.exists_none (F := insert c offRange) fun k d hk => by
    refine chainAt_mem (D := (· ∈ insert c offRange)) ?_ (Finset.mem_insert_self _ _) hk
    exact fun e _ => Finset.mem_insert_of_mem (fatNextAt_mem hfd e)
  exact exists_chainOf hn

/-- From cluster `k` on, the loader searches the slots of the clusters that are
    left, and keeps the cache as it should be. -/
theorem fatFsFindLoop_pick (hS : Delivers S vol) (hfd : DirLayout fd) {dir : FatFile}
    (hdir : dir.directory = true) (hstart : DirStart fd dir.firstCluster) {clusters : List Int}
    (hchain : ChainOf fd vol dir.firstCluster clusters) (hname : Component name) {rest : List Int}
    (hslots : ∀ c ∈ rest, ClusterFat12 fd vol c) {k : Nat} (hrest : clusters.drop k = rest)
    {s : FatSearch ι} (hs : CacheMatches fd vol s.lookup.cache) :
    ∃ s', CacheMatches fd vol s'.lookup.cache ∧
      ∀ᶠ fuel in atTop, fatFsFindLoop S fd dir name fuel s (k * fd.clusterSize : Nat)
        = (loaderRet fd vol (loaderPick fd vol name rest), s') := by
  induction rest generalizing k s with
  | nil =>
      -- the read fails: there is no such cluster
      obtain ⟨t, ht, hread⟩ := fatFileRead_volume hS hfd hdir hstart hs s.dirents k
      rw [hchain, List.getElem?_eq_none (List.drop_eq_nil_iff.mp hrest)] at hread
      refine ⟨⟨t, s.dirents⟩, ht, eventually_of_succ (Eventually.of_forall fun fuel => ?_)⟩
      rw [fatFsFindLoop, hread]
      dsimp only
      rw [if_pos (by omega)]
      rfl
  | cons c rest ih =>
      obtain ⟨hc, hslots⟩ := List.forall_mem_cons.mp hslots
      have hk : clusters[k]? = some c := by
        rw [← Nat.add_zero k, ← List.getElem?_drop, hrest]
        rfl
      have hdrop : clusters.drop (k + 1) = rest := by
        rw [← List.drop_drop, hrest, List.drop_one, List.tail_cons]
      obtain ⟨t, ht, hread⟩ := fatFileRead_volume hS hfd hdir hstart hs s.dirents k
      rw [hchain, hk] at hread
      dsimp only at hread
      rw [← dirBuf] at hread
      -- a chain that ends has no cycle, so its offsets are within `off_t`
      have hacyclic := acyclic_of_none
        ((hchain clusters.length).trans (List.getElem?_length clusters))
      have hnext := (fatNextAt_links fd vol).offset_next hfd hacyclic ((hchain k).trans hk)
      obtain ⟨s', hs', hgo⟩ := @ih hslots (k + 1) hdrop ⟨t, dirBuf fd vol s.dirents c⟩ ht
      have hscan (fuel : Nat) (hfuel : sizeofFatDirent ≤ fuel) :=
        @fatScanDirents_pick fd vol s.dirents c name fuel hc hname hfuel
          (List.range (fd.clusterSize / sizeofFatDirent)) fun i hi => List.mem_range.mp hi
      rw [loaderPick, List.flatMap_cons, List.find?_append]
      rw [← clusterSlots] at hscan
      cases hpick : (clusterSlots fd c).find? fun slot => LoaderTakes vol name slot with
      | none =>
          refine ⟨s', hs', eventually_of_succ ?_⟩
          filter_upwards [hgo, eventually_ge_atTop sizeofFatDirent] with fuel hfuel hge
          rw [fatFsFindLoop, hread]
          dsimp only
          rw [if_neg (not_not.mpr rfl), hscan fuel hge, hpick]
          dsimp only [loaderRet]
          rw [hnext]
          exact hfuel
      | some slot =>
          refine ⟨⟨t, dirBuf fd vol s.dirents c⟩, ht, eventually_of_succ ?_⟩
          filter_upwards [eventually_ge_atTop sizeofFatDirent] with fuel hge
          rw [fatFsFindLoop, hread]
          dsimp only
          rw [if_neg (not_not.mpr rfl), hscan fuel hge, hpick]
          rfl

/-- Sector_mapper follows the links of the FAT, but for those to cluster
    0xff0. -/
theorem getNextCluster_eq (hP : PreadDelivers pread vol) (hg : SameGeometry fd hand) {c : Int}
    (hc : c < 2 ^ 31) :
    getNextCluster pread hand c = if AmbiguousEnd fd vol c then 0 else fatNextAt fd vol c := by
  have hdata := hg.dataOffset_eq
  by_cases hlow : c < hand.dataOffset
  · have hnot : ¬ AmbiguousEnd fd vol c := by
      rw [AmbiguousEnd, hdata]
      omega
    rw [if_neg hnot, getNextCluster, fatNextAt, hdata, hg.rootdirFirst_eq, hg.clusterSize_eq,
      hg.clusterSize_hand, if_pos hlow, if_pos hlow]
  · have hge : fd.dataOffset ≤ c := by omega
    obtain ⟨hnum2, hnum⟩ := hg.clusterNum_bounds hc hlow
    have hpos := hg.layout.data_pos
    have hcond : AmbiguousEnd fd vol c ↔ fatEntryAt fd vol (clusterNumAt fd c) = 0xff0 :=
      and_iff_right hge
    rw [getNextCluster_data hP hg hlow (by omega), fatNextAt, if_neg (not_lt.mpr hge)]
    generalize fatEntryAt fd vol (clusterNumAt fd c) = e at hcond
    dsimp only
    by_cases hend : e = 0xff0
    · rw [if_neg (by omega), if_pos (hcond.mpr hend)]
    · rw [if_neg fun h => hend (hcond.mp h), clusterAddr, hg.clusterSize_eq]
      by_cases hmid : e ≥ 0x002 ∧ e < 0xff0
      · rw [if_pos hmid, if_pos ⟨hmid.1, by omega⟩]
      · rw [if_neg hmid, if_neg (by omega)]

/-- From `c` on, sector_mapper searches the slots of its part of the chain. -/
theorem findDent_pick (hP : PreadDelivers pread vol) (hg : SameGeometry fd hand)
    (hfd : DirLayout fd) (hname : Component name) {clusters : List Int} {c : Int}
    (hchain : ChainOf fd vol c clusters) (hzero : c ≠ 0) (hc : c < 2 ^ 31)
    (hslots : ∀ d ∈ clusters, ClusterFat12 fd vol d) (dents : Int → UInt8) :
    ∃ dents', ∀ᶠ fuel in atTop, findDent pread hand name fuel dents c
      = (toolRet hand vol (((toolPart fd vol clusters).flatMap (clusterSlots fd)).find?
          fun slot => ToolTakes vol name slot), dents') := by
  have hcs : hand.clusterSize = fd.clusterSize := by rw [hg.clusterSize_hand, hg.clusterSize_eq]
  induction clusters generalizing c dents with
  | nil =>
      obtain ⟨rest, hcons, -⟩ := hchain.cons
      exact absurd hcons nofun
  | cons d clusters ih =>
      obtain ⟨rest, hcons, hrest⟩ := hchain.cons
      obtain ⟨rfl, rfl⟩ := List.cons.inj hcons
      obtain ⟨hfirst, hslots⟩ := List.forall_mem_cons.mp hslots
      have hbuf : storeAt dents 0 (pread hand.clusterSize d) = dirBuf fd vol dents d := by
        rw [hP, hcs, dirBuf]
      have hlen : (pread hand.clusterSize d).length = hand.clusterSize := by
        rw [hP, length_loadAt]
      have hscan (fuel : Nat) (hfuel : sizeofFatDirent ≤ fuel) :=
        @scanDents_pick fd vol dents d name fuel hand hfirst hname hfuel
          (List.range (hand.clusterSize / sizeofFatDirent)) fun i hi => by
            rw [← hcs]
            exact List.mem_range.mp hi
      rw [hcs, ← clusterSlots, ← hcs] at hscan
      -- what is left behind the first cluster
      have hgo : ∃ dents', ∀ᶠ fuel in atTop,
          findDent pread hand name fuel (dirBuf fd vol dents d) (getNextCluster pread hand d)
            = (toolRet hand vol ((if AmbiguousEnd fd vol d then [] else
                toolPart fd vol clusters).flatMap (clusterSlots fd) |>.find?
                  fun slot => ToolTakes vol name slot), dents') := by
        -- offset 0 ends the search
        have hdone (dents : Int → UInt8) : ∀ᶠ fuel in atTop,
            findDent pread hand name fuel dents 0 = (.fail, dents) :=
          eventually_of_succ (Eventually.of_forall fun _ => rfl)
        rw [getNextCluster_eq hP hg hc]
        split
        · exact ⟨_, hdone _⟩
        · rcases hrest with ⟨hend, rfl⟩ | ⟨hmore, hchain⟩
          · rw [hend]
            exact ⟨_, hdone _⟩
          · exact ih hchain hmore (mem_offRange.mp (fatNextAt_mem hfd d)).2 hslots _
      rw [toolPart, List.flatMap_cons, List.find?_append]
      obtain ⟨dents', hgo⟩ := hgo
      cases hpick : (clusterSlots fd d).find? fun slot => ToolTakes vol name slot with
      | none =>
          refine ⟨dents', eventually_of_succ ?_⟩
          filter_upwards [hgo, eventually_ge_atTop sizeofFatDirent] with fuel hfuel hge
          rw [findDent, if_neg hzero]
          dsimp only
          rw [if_neg (not_not.mpr hlen), hbuf, hscan fuel hge, hpick]
          exact hfuel
      | some slot =>
          refine ⟨dirBuf fd vol dents d, eventually_of_succ ?_⟩
          filter_upwards [eventually_ge_atTop sizeofFatDirent] with fuel hge
          rw [findDent, if_neg hzero]
          dsimp only
          rw [if_neg (not_not.mpr hlen), hbuf, hscan fuel hge, hpick]
          rfl

end Directory

end LBoot.Tools
