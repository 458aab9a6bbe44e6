/-
  LBoot.Tools.FatPaths

  The loader and sector_mapper on one path.

  In every directory each of them picks a slot, by a rule of its own
  (`loaderRule`, `toolRule`), and both walk along a path alike: the slots on
  the way are to be directories.  Each program returns what its walk comes to
  (`fsFindfileLoop_walk`, `findPath_walk`).  So they resolve a path alike if
  and only if the two walks come to the same file, or both to none.
-/

import Mathlib.Data.List.Find
import LBoot.Storage.FsResolve
import LBoot.Tools.FatEnds
import LBoot.Tools.FatSlots

namespace LBoot.Tools

open LBoot.Lib LBoot.Storage Filter

variable {ι : Type*}

/-! ## Images -/

/-- An image with sectors and clusters of 512 bytes that has a FAT and a root
    directory. -/
structure Fat12Disk (b : FatBootsector) : Prop extends Fat12Image b where
  sectorsPerFat_pos : 0 < b.sectorsPerFat
  fatCopies_pos : 0 < b.fatCopies
  rootDirEntries_pos : 0 < b.rootDirEntries

/-- The place a slot's entry names. -/
def slotStart (fd : FatData) (vol : Int → UInt8) (slot : Int × Nat) : Int :=
  fd.dataOffset + (((entryAt vol slot).startCluster : Int) - 2) * fd.clusterSize

/-- The entry is one of a directory. -/
def IsDirectory (vol : Int → UInt8) (slot : Int × Nat) : Prop :=
  (entryAt vol slot).attr &&& fatDirentAttrDirectory ≠ 0

instance (vol : Int → UInt8) (slot : Int × Nat) : Decidable (IsDirectory vol slot) :=
  inferInstanceAs (Decidable (_ ≠ _))

/-- The directories that paths lead to. -/
inductive DirAt (fd : FatData) (vol : Int → UInt8) : Int → Prop
  | root : DirAt fd vol fd.rootdirFirst
  | sub {c d : Int} {k i : Nat} {name : List UInt8} (hdir : DirAt fd vol c)
      (hk : chainAt (fatNextAt fd vol) k c = some d) (hi : i < fd.clusterSize / sizeofFatDirent)
      (hname : Component name) (htakes : ToolTakes vol name (d, i)) (hsub : IsDirectory vol (d, i)) :
      DirAt fd vol (slotStart fd vol (d, i))

/-- The directories have no cycles, and entries that name clusters. -/
structure Fat12Tree (fd : FatData) (vol : Int → UInt8) : Prop where
  acyclic : ∀ c, DirAt fd vol c → Acyclic (fatNextAt fd vol) c
  slots : ∀ c, DirAt fd vol c → ∀ k d, chainAt (fatNextAt fd vol) k c = some d →
    ClusterFat12 fd vol d

/-- Two handles of one image, with its directories. -/
structure DiskTree (fd : FatData) (hand : FatHandle) (vol : Int → UInt8) : Prop
    extends Fat12Tree fd vol where
  layout : DirLayout fd
  geometry : SameGeometry fd hand
  rootdir_pos : 0 < fd.rootdirFirst
  data_gt : 1024 < fd.dataOffset

/-- The clusters of the directory at `c`. -/
noncomputable def clustersOf (fd : FatData) (vol : Int → UInt8) (c : Int) : List Int :=
  open Classical in if h : ∃ clusters, ChainOf fd vol c clusters then h.choose else []

/-- The loader's rule: the first slot of the name that is no volume label, no
    device and not reserved. -/
noncomputable def loaderRule (fd : FatData) (vol : Int → UInt8) (c : Int) (name : List UInt8) :
    Option (Int × Nat) := loaderPick fd vol name (clustersOf fd vol c)

/-- That of sector_mapper: the first slot of the name that is no volume label,
    up to a link to cluster 0xff0, and none for a name of 12 characters. -/
noncomputable def toolRule (fd : FatData) (vol : Int → UInt8) (c : Int) (name : List UInt8) :
    Option (Int × Nat) := toolPick fd vol name (clustersOf fd vol c)

/-- The slot at the end of a path, by a rule that picks one in a directory.
    Those on the way are directories. -/
def walk (fd : FatData) (vol : Int → UInt8) (pick : Int → List UInt8 → Option (Int × Nat)) :
    Int → List (List UInt8) → Option (Int × Nat)
  | _, [] => none
  | c, [name] => pick c name
  | c, name :: rest =>
      match pick c name with
      | some slot => if IsDirectory vol slot then walk fd vol pick (slotStart fd vol slot) rest else none
      | none => none

/-- What a rule picks is a slot of the directory with the name, and no volume
    label. -/
def PicksNamed (fd : FatData) (vol : Int → UInt8)
    (pick : Int → List UInt8 → Option (Int × Nat)) : Prop :=
  ∀ c name slot, pick c name = some slot →
    slot.1 ∈ clustersOf fd vol c ∧ slot.2 < fd.clusterSize / sizeofFatDirent ∧
      ToolTakes vol name slot

/-- In its directories no slot is that of a device or reserved, and no link
    leads to cluster 0xff0. -/
def PlainTree (fd : FatData) (vol : Int → UInt8) : Prop :=
  ∀ c, DirAt fd vol c → ∀ d ∈ clustersOf fd vol c, ¬ AmbiguousEnd fd vol d ∧
    ∀ i < fd.clusterSize / sizeofFatDirent,
      (entryAt vol (d, i)).attr &&& (fatDirentAttrDevice ||| fatDirentAttrReserved) = 0

/-- Slots that name the same file, or none. -/
def SamePick (vol : Int → UInt8) : Option (Int × Nat) → Option (Int × Nat) → Prop
  | none, none => True
  | some slot, some slot' =>
      (entryAt vol slot).startCluster = (entryAt vol slot').startCluster ∧
        (entryAt vol slot).filesize = (entryAt vol slot').filesize
  | _, _ => False

/-- Both searches fail, or they find the same file. -/
def SameOutcome : FindRet FatFile → FindRet FatFileHandle → Prop
  | .fail, .fail => True
  | .ok file, .ok file' => file.firstCluster = file'.firstCluster ∧ file.size = file'.size
  | _, _ => False

theorem SamePick.refl {vol : Int → UInt8} (o : Option (Int × Nat)) : SamePick vol o o := by
  cases o with
  | none => trivial
  | some slot => exact ⟨rfl, rfl⟩

/-! ## Geometry -/

theorem Fat12Disk.volume {b : FatBootsector} (h : Fat12Disk b) : Fat12Volume b := by
  obtain ⟨⟨hbps, hspc, hres, hfits⟩, -, -, hroot⟩ := h
  refine ⟨?_, ?_, ?_, ?_, hres, hroot, ?_⟩
  · rw [hbps]; decide
  · rw [hbps]; decide
  · rw [hspc]; decide
  · rw [hspc, hbps]; decide
  · rw [hspc, hbps]
    simp only [fatHandle] at hfits
    rw [dataStart]
    omega

/-- The data region is behind the first two sectors and the root directory. -/
theorem Fat12Disk.data_gt {b : FatBootsector} (h : Fat12Disk b) (off : Int) :
    1024 < (fatPopulate off b).fdata.dataOffset := by
  have hbps := h.bytesPerSector_eq
  have hres := h.reserved_pos
  have hfat : 0 < b.sectorsPerFat * b.fatCopies := Nat.mul_pos h.sectorsPerFat_pos h.fatCopies_pos
  have hroot := h.rootDirEntries_pos
  have hmul : b.sectorsPerFat * 512 * b.fatCopies = b.sectorsPerFat * b.fatCopies * 512 :=
    Nat.mul_right_comm _ _ _
  rw [h.volume.fdata_eq off]
  show 1024 < ((dataStart b : Nat) : Int)
  rw [dataStart, hbps, hmul, sizeofFatDirent]
  omega

section Disk

variable {fd : FatData} {hand : FatHandle} {vol : Int → UInt8}

/-- The place a slot names is one for a directory to start. -/
theorem slotStart_spec (hfd : DirLayout fd) (hg : SameGeometry fd hand) (hdata : 1024 < fd.dataOffset)
    {slot : Int × Nat} (hslot : (entryAt vol slot).startCluster < 2 ^ 12) :
    (fatPopFile fd (entryAt vol slot)).firstCluster = slotStart fd vol slot ∧
      (populateFileHandle hand (entryAt vol slot)).firstCluster = slotStart fd vol slot ∧
      DirStart fd (slotStart fd vol slot) ∧ 0 < slotStart fd vol slot ∧
      slotStart fd vol slot < 2 ^ 31 := by
  have hfits := hfd.fits
  have hstart := hfd.start_popFile (fun x => vol (slot.1 + x)) slot.2
  rw [← entryAt] at hstart
  have hpos : 0 < slotStart fd vol slot ∧ slotStart fd vol slot < 2 ^ 31 := by
    rw [slotStart]
    rw [hg.clusterSize_eq] at hfits ⊢
    omega
  have hfirst : (fatPopFile fd (entryAt vol slot)).firstCluster = slotStart fd vol slot := by
    show s32 (slotStart fd vol slot) = _
    exact s32_of_range (by omega) hpos.2
  refine ⟨hfirst, ?_, ?_, hpos.1, hpos.2⟩
  · rw [populateFileHandle, slotStart, hg.dataOffset_eq, hg.clusterSize_hand, hg.clusterSize_eq]
  · rwa [hfirst] at hstart

/-- A slot that is picked is one of the directory. -/
theorem mem_of_loaderPick {name : List UInt8} {clusters : List Int} {slot : Int × Nat}
    (h : loaderPick fd vol name clusters = some slot) :
    slot.1 ∈ clusters ∧ slot.2 < fd.clusterSize / sizeofFatDirent ∧ LoaderTakes vol name slot := by
  have htakes := List.find?_some h
  obtain ⟨c, hc, hslot⟩ := List.mem_flatMap.mp (List.mem_of_find?_eq_some h)
  obtain ⟨i, hi, rfl⟩ := List.mem_map.mp hslot
  exact ⟨hc, List.mem_range.mp hi, of_decide_eq_true htakes⟩

theorem mem_toolPart {clusters : List Int} {c : Int} (h : c ∈ toolPart fd vol clusters) :
    c ∈ clusters := by
  induction clusters with
  | nil => exact h
  | cons d clusters ih =>
      rw [toolPart] at h
      rcases List.mem_cons.mp h with rfl | h
      · exact List.mem_cons_self
      · split at h
        · exact absurd h List.not_mem_nil
        · exact List.mem_cons_of_mem d (ih h)

theorem mem_of_toolPick {name : List UInt8} {clusters : List Int} {slot : Int × Nat}
    (h : toolPick fd vol name clusters = some slot) :
    slot.1 ∈ clusters ∧ slot.2 < fd.clusterSize / sizeofFatDirent ∧ ToolTakes vol name slot := by
  rw [toolPick] at h
  split at h
  · exact absurd h nofun
  · have htakes := List.find?_some h
    obtain ⟨c, hc, hslot⟩ := List.mem_flatMap.mp (List.mem_of_find?_eq_some h)
    obtain ⟨i, hi, rfl⟩ := List.mem_map.mp hslot
    exact ⟨mem_toolPart hc, List.mem_range.mp hi, of_decide_eq_true htakes⟩

/-- The loader leaves out devices and reserved entries too. -/
theorem loaderTakes_iff {name : List UInt8} {slot : Int × Nat} :
    LoaderTakes vol name slot ↔ ToolTakes vol name slot ∧
      (entryAt vol slot).attr &&& (fatDirentAttrDevice ||| fatDirentAttrReserved) = 0 := by
  rw [LoaderTakes, ToolTakes, Nat.or_assoc, Nat.and_or_distrib_left, Nat.or_eq_zero_iff, and_assoc]

theorem toolPart_eq_self {clusters : List Int} (h : ∀ d ∈ clusters, ¬ AmbiguousEnd fd vol d) :
    toolPart fd vol clusters = clusters := by
  induction clusters with
  | nil => rfl
  | cons d clusters ih =>
      obtain ⟨hd, hrest⟩ := List.forall_mem_cons.mp h
      rw [toolPart, if_neg hd, ih hrest]

/-- Where none of this is met, the rules are the same. -/
theorem PlainTree.rules (h : PlainTree fd vol) {c : Int} (hc : DirAt fd vol c) {name : List UInt8}
    (hshort : name.length ≤ 11) : loaderRule fd vol c name = toolRule fd vol c name := by
  rw [loaderRule, toolRule, toolPick, if_neg (by omega), loaderPick,
    toolPart_eq_self fun d hd => (h c hc d hd).1]
  apply List.find?_congr
  intro slot hslot
  obtain ⟨d, hd, hmem⟩ := List.mem_flatMap.mp hslot
  obtain ⟨i, hi, rfl⟩ := List.mem_map.mp hmem
  have hattr := (h c hc d hd).2 i (List.mem_range.mp hi)
  exact decide_eq_decide.mpr (loaderTakes_iff.trans (and_iff_left hattr))

theorem loaderRule_picks (fd : FatData) (vol : Int → UInt8) :
    PicksNamed fd vol (loaderRule fd vol) := by
  intro c name slot h
  obtain ⟨hmem, hi, htakes⟩ := mem_of_loaderPick h
  exact ⟨hmem, hi, (loaderTakes_iff.mp htakes).1⟩

theorem toolRule_picks (fd : FatData) (vol : Int → UInt8) : PicksNamed fd vol (toolRule fd vol) :=
  fun _ _ _ h => mem_of_toolPick h

end Disk

/-! ## Directories -/

section Tree

variable {S : StorageHand ι} {pread : Pread} {fs : FsHand} {hand : FatHandle} {vol : Int → UInt8}
  {pick : Int → List UInt8 → Option (Int × Nat)}

/-- Without a cycle they are all the clusters there are. -/
theorem chainOf_clustersOf {fd : FatData} (hfd : DirLayout fd) {c : Int}
    (h : Acyclic (fatNextAt fd vol) c) : ChainOf fd vol c (clustersOf fd vol c) := by
  have hexists := chainOf_of_acyclic hfd h
  rw [clustersOf, dif_pos hexists]
  exact hexists.choose_spec

/-- The clusters of a directory have slots as FAT12 has them. -/
theorem DiskTree.cluster {fd : FatData} (h : DiskTree fd hand vol) {c d : Int}
    (hc : DirAt fd vol c) (hd : d ∈ clustersOf fd vol c) :
    (∃ k, chainAt (fatNextAt fd vol) k c = some d) ∧ ClusterFat12 fd vol d := by
  obtain ⟨k, hk⟩ := List.mem_iff_getElem?.mp hd
  have hchain := chainOf_clustersOf h.layout (h.acyclic c hc) k
  rw [hk] at hchain
  exact ⟨⟨k, hchain⟩, h.slots c hc k d hchain⟩

/-- A slot that is picked names a cluster of twelve bits, and leads to a
    directory if it is one. -/
theorem DiskTree.picked {fd : FatData} (h : DiskTree fd hand vol) (hpick : PicksNamed fd vol pick)
    {c : Int} (hc : DirAt fd vol c) {name : List UInt8} (hname : Component name)
    {slot : Int × Nat} (hslot : pick c name = some slot) :
    (entryAt vol slot).startCluster < 2 ^ 12 ∧
      (IsDirectory vol slot → DirAt fd vol (slotStart fd vol slot)) := by
  obtain ⟨d, i⟩ := slot
  obtain ⟨hmem, hi, htakes⟩ := hpick c name (d, i) hslot
  obtain ⟨⟨k, hk⟩, hfat⟩ := h.cluster hc hmem
  exact ⟨(hfat i hi).resolve_left (hname.used htakes.1), .sub hc hk hi hname htakes⟩

/-- A directory starts at a place both programs can read from. -/
theorem DiskTree.start {fd : FatData} (h : DiskTree fd hand vol) {c : Int} (hc : DirAt fd vol c) :
    DirStart fd c ∧ 0 < c ∧ c < 2 ^ 31 := by
  have hfits := h.layout.fits
  cases hc with
  | root =>
      have hle := h.layout.rootdir_le_data
      have hcs := h.layout.cluster_pos
      exact ⟨h.layout.start_rootdir, h.rootdir_pos, by omega⟩
  | @sub c d k i name hdir hk hi hname htakes hsub =>
      have hlt := ((h.slots c hdir k d hk) i hi).resolve_left (hname.used htakes.1)
      exact (slotStart_spec h.layout h.geometry h.data_gt hlt).2.2

/-- The loader searches a directory by its rule. -/
theorem fatFsFind_rule (hS : Delivers S vol) (h : DiskTree fs.fdata hand vol) {dir : Option FatFile}
    (hdir : (dir.getD fs.rootdir).directory = true)
    (hat : DirAt fs.fdata vol (dir.getD fs.rootdir).firstCluster) {name : List UInt8}
    (hname : Component name) {s : FatSearch ι} (hs : CacheMatches fs.fdata vol s.lookup.cache) :
    ∃ s', CacheMatches fs.fdata vol s'.lookup.cache ∧
      ∀ᶠ fuel in atTop, fatFsFind S fs fuel s dir name
        = (loaderRet fs.fdata vol (loaderRule fs.fdata vol (dir.getD fs.rootdir).firstCluster name),
          s') := by
  have hne : name ≠ [0x2e] := by
    obtain ⟨c, rest, rfl, hdot, -⟩ := hname.head
    rintro hdots
    exact hdot (List.cons.inj hdots).1
  obtain ⟨s', hs', hloop⟩ := @fatFsFindLoop_pick _ S _ _ _ hS h.layout _ hdir (h.start hat).1 _
    (chainOf_clustersOf h.layout (h.acyclic _ hat)) hname _ (fun d hd => (h.cluster hat hd).2) 0
    List.drop_zero s hs
  refine ⟨s', hs', ?_⟩
  filter_upwards [hloop] with fuel hfuel
  rw [Nat.zero_mul] at hfuel
  rw [fatFsFind, if_neg hne]
  exact hfuel

/-- So does sector_mapper. -/
theorem findName_rule {fd : FatData} (hP : PreadDelivers pread vol) (h : DiskTree fd hand vol)
    {dir : FatFileHandle} (hat : DirAt fd vol dir.firstCluster) {name : List UInt8}
    (hname : Component name) (dents : Int → UInt8) :
    ∃ dents', ∀ᶠ fuel in atTop, findName pread hand fuel dents dir name
      = (toolRet hand vol (toolRule fd vol dir.firstCluster name), dents') := by
  by_cases hlong : name.length > 11
  · refine ⟨dents, Eventually.of_forall fun fuel => ?_⟩
    rw [findName, if_pos hlong, toolRule, toolPick, if_pos hlong]
    rfl
  · obtain ⟨hstart, hpos, hlt⟩ := h.start hat
    obtain ⟨dents', hloop⟩ := findDent_pick hP h.geometry h.layout hname
      (chainOf_clustersOf h.layout (h.acyclic _ hat)) (Int.ne_of_gt hpos) hlt
      (fun d hd => (h.cluster hat hd).2) dents
    refine ⟨dents', ?_⟩
    filter_upwards [hloop] with fuel hfuel
    rw [findName, if_neg hlong, toolRule, toolPick, if_neg hlong]
    exact hfuel

/-! ## Paths -/

theorem walk_cons (fd : FatData) (c : Int) (name next : List UInt8) (rest : List (List UInt8)) :
    walk fd vol pick c (name :: next :: rest) =
      match pick c name with
      | some slot =>
          if IsDirectory vol slot then walk fd vol pick (slotStart fd vol slot) (next :: rest)
          else none
      | none => none := rfl

/-- The loop of `fs_findfile` takes the loader's walk. -/
theorem fsFindfileLoop_walk (hS : Delivers S vol) (h : DiskTree fs.fdata hand vol) (file : FatFile)
    {names : List (List UInt8)} (hnames : ∀ name ∈ names, Component name) (hne : names ≠ [])
    {dir : Option FatFile} (hdir : (dir.getD fs.rootdir).directory = true)
    (hat : DirAt fs.fdata vol (dir.getD fs.rootdir).firstCluster) {s : FatSearch ι}
    (hs : CacheMatches fs.fdata vol s.lookup.cache) :
    ∀ᶠ fuel in atTop,
      (fsFindfileLoop (fatFsFind S fs fuel) FatFile.directory s dir file names).1
        = loaderRet fs.fdata vol (walk fs.fdata vol (loaderRule fs.fdata vol)
            (dir.getD fs.rootdir).firstCluster names) := by
  induction names generalizing dir s with
  | nil => exact absurd rfl hne
  | cons name rest ih =>
      obtain ⟨hname, hrest⟩ := List.forall_mem_cons.mp hnames
      -- by induction on the names, from any directory of the tree
      obtain ⟨s', hs', hfind⟩ := fatFsFind_rule hS h hdir hat hname hs
      cases rest with
      | nil =>
          filter_upwards [hfind] with fuel hfuel
          obtain ⟨c, base, rfl, -, -⟩ := hname.head
          rw [fsFindfileLoop, if_neg (List.cons_ne_nil c base), hfuel]
          rfl
      | cons next rest =>
          rw [walk_cons]
          cases hpick : loaderRule fs.fdata vol (dir.getD fs.rootdir).firstCluster name with
          | none =>
              rw [hpick] at hfind
              filter_upwards [hfind] with fuel hfuel
              rw [fsFindfileLoop_on, hfuel]
              rfl
          | some slot =>
              rw [hpick] at hfind
              obtain ⟨hlt, hsub⟩ := h.picked (loaderRule_picks fs.fdata vol) hat hname hpick
              obtain ⟨hfirst, -⟩ := slotStart_spec h.layout h.geometry h.data_gt hlt
              by_cases hisdir : IsDirectory vol slot
              · -- on, with the handle of the directory found
                have hdirectory : (fatPopFile fs.fdata (entryAt vol slot)).directory = true :=
                  decide_eq_true hisdir
                have hon := @ih hrest (List.cons_ne_nil _ _)
                  (some (fatPopFile fs.fdata (entryAt vol slot))) hdirectory
                  (by rw [Option.getD_some, hfirst]; exact hsub hisdir) s' hs'
                rw [Option.getD_some, hfirst] at hon
                filter_upwards [hfind, hon] with fuel hfuel hfuel'
                rw [fsFindfileLoop_on, hfuel]
                dsimp only [loaderRet]
                rw [if_pos hdirectory, if_pos hisdir, hfuel']
                rfl
              · have hdirectory : ¬ (fatPopFile fs.fdata (entryAt vol slot)).directory = true :=
                  fun htrue => hisdir (of_decide_eq_true htrue)
                filter_upwards [hfind] with fuel hfuel
                rw [fsFindfileLoop_on, hfuel]
                dsimp only [loaderRet]
                rw [if_neg hdirectory, if_neg hisdir]

/-- The search of sector_mapper takes its own. -/
theorem findPath_walk {fd : FatData} (hP : PreadDelivers pread vol) (h : DiskTree fd hand vol)
    {names : List (List UInt8)} (hnames : ∀ name ∈ names, Component name) (hne : names ≠ [])
    {dir : FatFileHandle} (hat : DirAt fd vol dir.firstCluster) (dents : Int → UInt8) :
    ∀ᶠ fuel in atTop, (findPath pread hand fuel dents dir names).1
      = toolRet hand vol (walk fd vol (toolRule fd vol) dir.firstCluster names) := by
  induction names generalizing dir dents with
  | nil => exact absurd rfl hne
  | cons name rest ih =>
      obtain ⟨hname, hrest⟩ := List.forall_mem_cons.mp hnames
      -- as in the loader; the buffer of a search is that of the one before
      obtain ⟨dents', hfind⟩ := findName_rule hP h hat hname dents
      cases rest with
      | nil =>
          filter_upwards [hfind] with fuel hfuel
          show (findName pread hand fuel dents dir name).1 = _
          rw [hfuel]
          rfl
      | cons next rest =>
          simp only [findPath_on, walk_cons]
          cases hpick : toolRule fd vol dir.firstCluster name with
          | none =>
              rw [hpick] at hfind
              filter_upwards [hfind] with fuel hfuel
              rw [hfuel]
              rfl
          | some slot =>
              rw [hpick] at hfind
              obtain ⟨hlt, hsub⟩ := h.picked (toolRule_picks fd vol) hat hname hpick
              obtain ⟨-, hfirst, -⟩ := slotStart_spec h.layout h.geometry h.data_gt hlt
              by_cases hisdir : IsDirectory vol slot
              · have hattr : (populateFileHandle hand (entryAt vol slot)).attr
                    &&& fatDirentAttrDirectory ≠ 0 := hisdir
                have hon := @ih hrest (List.cons_ne_nil _ _)
                  (populateFileHandle hand (entryAt vol slot)) (by rw [hfirst]; exact hsub hisdir)
                  dents'
                rw [hfirst] at hon
                filter_upwards [hfind, hon] with fuel hfuel hfuel'
                rw [hfuel]
                dsimp only [toolRet]
                rw [if_pos hattr, if_pos hisdir, hfuel']
                rfl
              · have hattr : ¬ (populateFileHandle hand (entryAt vol slot)).attr
                    &&& fatDirentAttrDirectory ≠ 0 := hisdir
                filter_upwards [hfind] with fuel hfuel
                rw [hfuel]
                dsimp only [toolRet]
                rw [if_neg hattr, if_neg hisdir]

/-- The slot at the end of a walk names a cluster of twelve bits. -/
theorem DiskTree.walk_start {fd : FatData} (h : DiskTree fd hand vol) (hpick : PicksNamed fd vol pick)
    {names : List (List UInt8)} (hnames : ∀ name ∈ names, Component name) {c : Int}
    (hc : DirAt fd vol c) {slot : Int × Nat} (hslot : walk fd vol pick c names = some slot) :
    (entryAt vol slot).startCluster < 2 ^ 12 := by
  induction names generalizing c with
  | nil => exact absurd hslot nofun
  | cons name rest ih =>
      obtain ⟨hname, hrest⟩ := List.forall_mem_cons.mp hnames
      cases rest with
      | nil => exact (h.picked hpick hc hname hslot).1
      | cons next rest =>
          rw [walk_cons] at hslot
          cases hfound : pick c name with
          | none =>
              rw [hfound] at hslot
              exact absurd hslot nofun
          | some on =>
              rw [hfound] at hslot
              dsimp only at hslot
              split at hslot
              · next hisdir => exact ih hrest ((h.picked hpick hc hname hfound).2 hisdir) hslot
              · exact absurd hslot nofun

/-- Two rules that pick alike in every directory walk alike. -/
theorem DiskTree.walk_congr {fd : FatData} (h : DiskTree fd hand vol) (hpick : PicksNamed fd vol pick)
    {pick' : Int → List UInt8 → Option (Int × Nat)} {names : List (List UInt8)}
    (hnames : ∀ name ∈ names, Component name)
    (hsame : ∀ c, DirAt fd vol c → ∀ name ∈ names, pick c name = pick' c name) {c : Int}
    (hc : DirAt fd vol c) : walk fd vol pick c names = walk fd vol pick' c names := by
  induction names generalizing c with
  | nil => rfl
  | cons name rest ih =>
      obtain ⟨hname, hrest⟩ := List.forall_mem_cons.mp hnames
      have hfirst := hsame c hc name List.mem_cons_self
      cases rest with
      | nil => exact hfirst
      | cons next rest =>
          rw [walk_cons, walk_cons, ← hfirst]
          cases hfound : pick c name with
          | none => rfl
          | some on =>
              dsimp only
              split
              · next hisdir =>
                  exact ih hrest (fun d hd name hmem => hsame d hd name (List.mem_cons_of_mem _ hmem))
                    ((h.picked hpick hc hname hfound).2 hisdir)
              · rfl

/-- A path with a name of 12 characters leads nowhere for sector_mapper. -/
theorem walk_toolRule_long {fd : FatData} {names : List (List UInt8)}
    (hlong : ∃ name ∈ names, 11 < name.length) (c : Int) :
    walk fd vol (toolRule fd vol) c names = none := by
  induction names generalizing c with
  | nil =>
      obtain ⟨name, hmem, -⟩ := hlong
      exact absurd hmem List.not_mem_nil
  | cons name rest ih =>
      have hnone (h : 11 < name.length) : toolRule fd vol c name = none := by
        rw [toolRule, toolPick, if_pos h]
      obtain ⟨long, hmem, hlen⟩ := hlong
      cases rest with
      | nil =>
          rw [List.mem_singleton.mp hmem] at hlen
          exact hnone hlen
      | cons next rest =>
          rw [walk_cons]
          rcases List.mem_cons.mp hmem with rfl | hmem
          · rw [hnone hlen]
          · cases toolRule fd vol c name with
            | none => rfl
            | some slot =>
                dsimp only
                rw [ih ⟨long, hmem, hlen⟩, ite_self]

theorem samePick_none_right {o : Option (Int × Nat)} : SamePick vol o none ↔ o = none := by
  cases o with
  | none => exact iff_of_true trivial rfl
  | some slot => exact iff_of_false id (by simp)

/-- The programs return the same for slots that name the same file. -/
theorem sameOutcome_iff {fd : FatData} (h : DiskTree fd hand vol) {o o' : Option (Int × Nat)}
    (ho : ∀ slot, o = some slot → (entryAt vol slot).startCluster < 2 ^ 12)
    (ho' : ∀ slot, o' = some slot → (entryAt vol slot).startCluster < 2 ^ 12) :
    SameOutcome (loaderRet fd vol o) (toolRet hand vol o') ↔ SamePick vol o o' := by
  cases o with
  | none => cases o' <;> exact Iff.rfl
  | some slot =>
      cases o' with
      | none => exact Iff.rfl
      | some slot' =>
          have hcs := h.geometry.clusterSize_eq
          obtain ⟨hfirst, -⟩ := slotStart_spec h.layout h.geometry h.data_gt (ho slot rfl)
          obtain ⟨-, hfirst', -⟩ := slotStart_spec h.layout h.geometry h.data_gt (ho' slot' rfl)
          show (fatPopFile fd (entryAt vol slot)).firstCluster
              = (populateFileHandle hand (entryAt vol slot')).firstCluster ∧
            (entryAt vol slot).filesize = (entryAt vol slot').filesize ↔ _ ∧ _
          -- places are the same if the numbers of the clusters are
          rw [hfirst, hfirst', slotStart, slotStart, hcs]
          apply and_congr_left'
          omega

/-- A path starts with a character of its first name. -/
theorem head_intercalate {names : List (List UInt8)} (hnames : ∀ name ∈ names, Component name)
    (hne : names ≠ []) : ∃ c rest, [fsPathsep].intercalate names = c :: rest ∧ c ≠ fsPathsep := by
  cases names with
  | nil => exact absurd rfl hne
  | cons name rest =>
      have hname := hnames name List.mem_cons_self
      obtain ⟨c, base, rfl, -, -⟩ := hname.head
      have hsep := (hname.printable c List.mem_cons_self).2
      cases rest with
      | nil => exact ⟨c, base, List.intercalate_singleton, hsep⟩
      | cons next rest => exact ⟨c, _, List.intercalate_cons_cons, hsep⟩

/-- Both programs start at the root directory, and take the names of the
    path. -/
theorem path_names {names : List (List UInt8)} (hnames : ∀ name ∈ names, Component name)
    (hne : names ≠ []) {path : List UInt8}
    (hpath : path = [fsPathsep].intercalate names ∨ path = fsPathsep :: [fsPathsep].intercalate names)
    (fuel : Nat) (s : FatSearch ι) (file : FatFile) (dents : Int → UInt8) :
    fatFindfile S fs fuel s none file path
        = fsFindfileLoop (fatFsFind S fs fuel) FatFile.directory s none file names ∧
      fatFindFile pread hand fuel dents hand.rootDir path
        = findPath pread hand fuel dents hand.rootDir names := by
  obtain ⟨c, rest, hjoin, hsep⟩ := head_intercalate hnames hne
  have hsplit : ([fsPathsep].intercalate names).splitOn fsPathsep = names := by
    apply List.splitOn_intercalate _ _ hne
    exact fun name hname hmem => ((hnames name hname).printable fsPathsep hmem).2 rfl
  have hstart : @searchStart FatFile none path = (none, [fsPathsep].intercalate names) ∧
      findStart hand hand.rootDir path = (hand.rootDir, [fsPathsep].intercalate names) := by
    rcases hpath with rfl | rfl
    · rw [hjoin, searchStart, findStart, if_neg hsep, if_neg hsep]
      exact ⟨rfl, rfl⟩
    · rw [searchStart, findStart, if_pos rfl, if_pos rfl]
      exact ⟨rfl, rfl⟩
  constructor
  · rw [fatFindfile, fsFindfile_eq, hstart.1]
    dsimp only
    rw [hsplit, hjoin, if_neg (List.cons_ne_nil c rest)]
  · show findPath pread hand fuel dents (findStart hand hand.rootDir path).1
      ((findStart hand hand.rootDir path).2.splitOn fsPathsep) = _
    rw [hstart.2, hsplit]

/-- From the root directory they resolve a path alike if their walks come to
    the same. -/
theorem sameOutcome_eventually_iff (hS : Delivers S vol) (hP : PreadDelivers pread vol)
    (h : DiskTree fs.fdata hand vol) (hroot : fs.rootdir.directory = true)
    (hfirst : fs.rootdir.firstCluster = fs.fdata.rootdirFirst) {s : FatSearch ι}
    (hs : CacheMatches fs.fdata vol s.lookup.cache) {names : List (List UInt8)} (hne : names ≠ [])
    (hnames : ∀ name ∈ names, Component name) {path : List UInt8}
    (hpath : path = [fsPathsep].intercalate names ∨ path = fsPathsep :: [fsPathsep].intercalate names)
    (file : FatFile) (dents : Int → UInt8) :
    (∀ᶠ fuel in atTop, SameOutcome (fatFindfile S fs fuel s none file path).1
        (fatFindFile pread hand fuel dents hand.rootDir path).1) ↔
      SamePick vol (walk fs.fdata vol (loaderRule fs.fdata vol) fs.fdata.rootdirFirst names)
        (walk fs.fdata vol (toolRule fs.fdata vol) fs.fdata.rootdirFirst names) := by
  have hat : DirAt fs.fdata vol fs.rootdir.firstCluster := by
    rw [hfirst]
    exact .root
  have hat' : DirAt fs.fdata vol hand.rootDir.firstCluster := by
    rw [← h.geometry.rootdirFirst_eq]
    exact .root
  have hloader := @fsFindfileLoop_walk _ S fs _ vol hS h file _ hnames hne none hroot hat s hs
  have htool := findPath_walk hP h hnames hne hat' dents
  rw [Option.getD_none, hfirst] at hloader
  rw [← h.geometry.rootdirFirst_eq] at htool
  refine (eventually_congr ?_).trans eventually_const
  -- with enough fuel each search returns what its walk comes to
  filter_upwards [hloader, htool] with fuel hfuel hfuel'
  obtain ⟨hpath, hpath'⟩ := @path_names _ S pread fs hand _ hnames hne _ hpath fuel s file dents
  rw [hpath, hpath', hfuel, hfuel']
  exact sameOutcome_iff h
    (fun slot hslot => h.walk_start (loaderRule_picks fs.fdata vol) hnames .root hslot)
    (fun slot hslot => h.walk_start (toolRule_picks fs.fdata vol) hnames .root hslot)

end Tree

theorem Fat12Disk.diskTree {vol : Int → UInt8} (h : Fat12Disk (fatBootsector vol))
    (htree : Fat12Tree (fatPopulate 0 (fatBootsector vol)).fdata vol) :
    DiskTree (fatPopulate 0 (fatBootsector vol)).fdata (fatHandle (fatBootsector vol)) vol := by
  refine ⟨htree, h.volume.layout 0, h.sameGeometry 0, ?_, h.data_gt 0⟩
  have hres : 0 < (fatBootsector vol).reservedSectors * (fatBootsector vol).bytesPerSector := by
    rw [h.bytesPerSector_eq]
    have hpos := h.reserved_pos
    omega
  rw [h.volume.fdata_eq 0]
  dsimp only
  omega

/-- On every FAT12 image with sectors and clusters of 512 bytes, successful
    reads and directories without cycles, with every cache that matches it and
    for every path of names in 8.3 form: both programs fail or find the same
    file exactly if the walks by their rules come to the same.  They do where
    the directories are plain and no name has 12 characters; with such a name,
    if the loader finds nothing. -/
theorem find_file_agree_iff (S : StorageHand ι) (pread : Pread) (vol : Int → UInt8)
    (hS : Delivers S vol) (hP : PreadDelivers pread vol) (s₀ : FatState ι) (fs : FsHand)
    (hinit : (fsFatInit S s₀ 0).1 = some fs) (hand : FatHandle) (hopen : fatOpen pread = some hand)
    (hdisk : Fat12Disk (fatBootsector vol)) (htree : Fat12Tree fs.fdata vol) (s : FatSearch ι)
    (hs : CacheMatches fs.fdata vol s.lookup.cache) (names : List (List UInt8)) (hne : names ≠ [])
    (hnames : ∀ name ∈ names, Component name) (path : List UInt8)
    (hpath : path = [fsPathsep].intercalate names ∨ path = fsPathsep :: [fsPathsep].intercalate names)
    (file : FatFile) (dents : Int → UInt8) :
    ((∀ᶠ fuel in atTop, SameOutcome (fatFindfile S fs fuel s none file path).1
          (fatFindFile pread hand fuel dents hand.rootDir path).1) ↔
        SamePick vol (walk fs.fdata vol (loaderRule fs.fdata vol) fs.fdata.rootdirFirst names)
          (walk fs.fdata vol (toolRule fs.fdata vol) fs.fdata.rootdirFirst names)) ∧
      (PlainTree fs.fdata vol → (∀ name ∈ names, name.length ≤ 11) →
        ∀ᶠ fuel in atTop, SameOutcome (fatFindfile S fs fuel s none file path).1
          (fatFindFile pread hand fuel dents hand.rootDir path).1) ∧
      ((∃ name ∈ names, 11 < name.length) →
        ((∀ᶠ fuel in atTop, SameOutcome (fatFindfile S fs fuel s none file path).1
            (fatFindFile pread hand fuel dents hand.rootDir path).1) ↔
          walk fs.fdata vol (loaderRule fs.fdata vol) fs.fdata.rootdirFirst names = none)) := by
  obtain ⟨rfl, rfl⟩ := opened_delivers hS hP hinit hopen
  have h := hdisk.diskTree htree
  have hiff := sameOutcome_eventually_iff hS hP h rfl rfl hs hne hnames hpath file dents
  refine ⟨hiff, fun hplain hshort => hiff.mpr ?_, fun hlong => ?_⟩
  · rw [h.walk_congr (loaderRule_picks _ vol) hnames
      (fun c hc name hname => hplain.rules hc (hshort name hname)) .root]
    exact SamePick.refl _
  · rw [hiff, walk_toolRule_long hlong, samePick_none_right]

/-! ## A name of 12 characters -/

namespace LongName

/-- The name of the entry. -/
def dent : List UInt8 := [0x41, 0x42, 0x43, 0x44, 0x45, 0x46, 0x47, 0x48, 0x54, 0x58, 0x54]

/-- The small volume with a second file, `ABCDEFGH.TXT`. -/
def vol (x : Int) : UInt8 :=
  if 1056 ≤ x ∧ x < 1067 then dent.getD (x - 1056).toNat 0 else SmallVolume.vol x

def storage : StorageHand Unit := ⟨fun d off n => ((loadAt vol off n, n), d)⟩

def pread : Pread := fun n off => loadAt vol off n

theorem delivers : Delivers storage vol := fun _ _ _ => rfl

theorem preadDelivers : PreadDelivers pread vol := fun _ _ => rfl

theorem bootsec_eq : fatBootsector vol = SmallVolume.bootsec := by decide +kernel

theorem disk : Fat12Disk (fatBootsector vol) := by
  rw [bootsec_eq]
  constructor
  · constructor <;> decide
  · decide
  · decide
  · decide

theorem cold_matches : CacheMatches (fatPopulate 0 (fatBootsector vol)).fdata vol
    SmallVolume.cold.lookup.cache := by
  rw [bootsec_eq]
  apply SmallVolume.cold_matches
  intro x hx
  rw [vol, SmallVolume.vol]
  repeat rw [if_neg (by omega)]

theorem fd_eq : (fatPopulate 0 (fatBootsector vol)).fdata = SmallVolume.fd := by
  rw [bootsec_eq]
  decide

/-- The root directory has one cluster. -/
theorem next_root : fatNextAt SmallVolume.fd vol 1024 = 0 := by decide

theorem chain_root {k : Nat} {d : Int} (h : chainAt (fatNextAt SmallVolume.fd vol) k 1024 = some d) :
    d = 1024 := by
  cases k with
  | zero => exact (Option.some.inj h).symm
  | succ k =>
      rw [chainAt, if_pos next_root] at h
      cases h

/-- There is no other directory. -/
theorem dirAt_eq {c : Int} (h : DirAt SmallVolume.fd vol c) : c = 1024 := by
  have hfiles : ∀ i < SmallVolume.fd.clusterSize / sizeofFatDirent, ¬ IsDirectory vol (1024, i) := by
    decide +kernel
  induction h with
  | root => decide
  | @sub c d k i name hdir hk hi hname htakes hsub ih =>
      rw [ih] at hk
      rw [chain_root hk] at hsub
      exact absurd hsub (hfiles i hi)

theorem tree : Fat12Tree SmallVolume.fd vol where
  acyclic c hc := by
    rw [dirAt_eq hc]
    exact acyclic_of_none (n := 1) (if_pos next_root)
  slots c hc k d hd := by
    rw [dirAt_eq hc] at hd
    rw [chain_root hd]
    show ∀ i < SmallVolume.fd.clusterSize / sizeofFatDirent, SlotFat12 vol (1024, i)
    decide +kernel

theorem clustersOf_root : clustersOf SmallVolume.fd vol 1024 = [1024] := by
  have hacyclic : Acyclic (fatNextAt SmallVolume.fd vol) 1024 :=
    acyclic_of_none (n := 1) (if_pos next_root)
  have hlayout : DirLayout SmallVolume.fd := by
    rw [← fd_eq, bootsec_eq]
    exact SmallVolume.dirLayout
  apply (chainOf_clustersOf hlayout hacyclic).unique
  intro k
  cases k with
  | zero => rfl
  | succ k =>
      rw [chainAt, if_pos next_root]
      rfl

theorem plain : PlainTree SmallVolume.fd vol := by
  intro c hc d hd
  rw [dirAt_eq hc, clustersOf_root, List.mem_singleton] at hd
  rw [hd]
  decide +kernel

/-- `A` -/
def nameA : DirName where
  base := [0x41]
  ext := []
  base_length := by decide
  ext_length := noExt_length
  base_char := by simp [NameChar]
  ext_char := noExt_char

theorem component_A : Component [0x41] := ⟨⟨nameA, rfl⟩, by simp [fsPathsep]⟩

/-- `ABCDEFGH.TXT` -/
def nameLong : DirName where
  base := dent.take 8
  ext := dent.drop 8
  base_length := by decide
  ext_length := by decide
  base_char := by simp [NameChar, dent]
  ext_char := by simp [NameChar, dent]

theorem component_long : Component nameLong.form :=
  ⟨⟨nameLong, rfl⟩, by simp [DirName.form, nameLong, dent, fsPathsep]⟩

end LongName

/-- Both find the file `A`. -/
theorem find_file_agree_iff_A :
    ∀ᶠ fuel in atTop, SameOutcome
      (fatFindfile LongName.storage (fatPopulate 0 (fatBootsector LongName.vol)) fuel
        SmallVolume.cold none ⟨false, 0, 0⟩ [0x2f, 0x41]).1
      (fatFindFile LongName.pread (fatHandle (fatBootsector LongName.vol)) fuel (fun _ => 0)
        (fatHandle (fatBootsector LongName.vol)).rootDir [0x2f, 0x41]).1 := by
  have htree := LongName.tree
  have hplain := LongName.plain
  rw [← LongName.fd_eq] at htree hplain
  refine (find_file_agree_iff LongName.storage LongName.pread LongName.vol LongName.delivers
    LongName.preadDelivers SmallVolume.cold.lookup _ (fsFatInit_delivers LongName.delivers _) _
    (fatOpen_delivers LongName.preadDelivers) LongName.disk htree SmallVolume.cold
    LongName.cold_matches [[0x41]] (List.cons_ne_nil _ _) ?_ [0x2f, 0x41] (Or.inr rfl) ⟨false, 0, 0⟩
    fun _ => 0).2.1 hplain ?_
  · exact fun name hname => List.mem_singleton.mp hname ▸ LongName.component_A
  · decide

/-- The unconditional statement fails: sector_mapper does not look for a name
    of 12 characters. -/
theorem find_file_disagree :
    ¬ ∀ (S : StorageHand Unit) (pread : Pread) (vol : Int → UInt8), Delivers S vol →
      PreadDelivers pread vol → ∀ (fs : FsHand) (hand : FatHandle) (s₀ : FatState Unit)
      (s : FatSearch Unit), (fsFatInit S s₀ 0).1 = some fs → fatOpen pread = some hand →
      Fat12Disk (fatBootsector vol) → Fat12Tree fs.fdata vol →
      CacheMatches fs.fdata vol s.lookup.cache → ∀ names : List (List UInt8), names ≠ [] →
      (∀ name ∈ names, Component name) → ∀ (file : FatFile) (dents : Int → UInt8),
        ∀ᶠ fuel in atTop, SameOutcome
          (fatFindfile S fs fuel s none file ([fsPathsep].intercalate names)).1
          (fatFindFile pread hand fuel dents hand.rootDir ([fsPathsep].intercalate names)).1 := by
  intro hall
  have htree := LongName.tree
  rw [← LongName.fd_eq] at htree
  have hnames : ∀ name ∈ [LongName.nameLong.form], Component name :=
    fun name hname => List.mem_singleton.mp hname ▸ LongName.component_long
  have halike := hall LongName.storage LongName.pread LongName.vol LongName.delivers
    LongName.preadDelivers _ _ SmallVolume.cold.lookup SmallVolume.cold
    (fsFatInit_delivers LongName.delivers _) (fatOpen_delivers LongName.preadDelivers) LongName.disk
    htree LongName.cold_matches [LongName.nameLong.form] (List.cons_ne_nil _ _) hnames ⟨false, 0, 0⟩
    fun _ => 0
  rw [sameOutcome_eventually_iff LongName.delivers LongName.preadDelivers
    (LongName.disk.diskTree htree) rfl rfl LongName.cold_matches (List.cons_ne_nil _ _) hnames
    (Or.inl rfl)] at halike
  have hloader : walk SmallVolume.fd LongName.vol (loaderRule SmallVolume.fd LongName.vol) 1024
      [LongName.nameLong.form] = some (1024, 1) := by
    show loaderPick SmallVolume.fd LongName.vol LongName.nameLong.form
      (clustersOf SmallVolume.fd LongName.vol 1024) = some (1024, 1)
    rw [LongName.clustersOf_root]
    decide +kernel
  have htool : walk SmallVolume.fd LongName.vol (toolRule SmallVolume.fd LongName.vol) 1024
      [LongName.nameLong.form] = none := by
    have hlong : LongName.nameLong.form.length > 11 := by decide
    show toolRule SmallVolume.fd LongName.vol 1024 LongName.nameLong.form = none
    rw [toolRule, toolPick, if_pos hlong]
  have hroot : SmallVolume.fd.rootdirFirst = 1024 := by decide
  rw [LongName.fd_eq, hroot, hloader, htool] at halike
  exact halike

end LBoot.Tools
