/-
  LBoot.Tools.FatEnds

  When the searches of the two programs return.

  Neither of them notices a cycle.  The tools follow the chain of a directory
  link by link, and every link leads into a finite part of the image
  (`toolRange`); so a search returns if no cluster of the chain comes twice,
  and on a chain with a cycle both programs may go on for ever
  (`directory_search_endless`).
-/

import LBoot.Storage.FatEnds
import LBoot.Tools.FatFind

namespace LBoot.Tools

open LBoot.Lib LBoot.Storage Filter

/-- The directories a search along a path goes into. -/
inductive Visits (pread : Pread) (hand : FatHandle) :
    (Int → UInt8) → FatFileHandle → List (List UInt8) → FatFileHandle → Prop
  | here (dents : Int → UInt8) (dir : FatFileHandle) (name : List UInt8)
      (rest : List (List UInt8)) : Visits pread hand dents dir (name :: rest) dir
  | on {dents dents' : Int → UInt8} {dir tmp d : FatFileHandle} {dirname : List UInt8}
      {rest : List (List UInt8)}
      (hfind : ∀ᶠ fuel in atTop, findName pread hand fuel dents dir dirname = (.ok tmp, dents'))
      (hdir : tmp.attr &&& fatDirentAttrDirectory ≠ 0) (hrest : Visits pread hand dents' tmp rest d) :
      Visits pread hand dents dir (dirname :: rest) d

/-- Where `fat_find_file` starts, and what is left of the path there. -/
def findStart (hand : FatHandle) (dir : FatFileHandle) (filename : List UInt8) :
    FatFileHandle × List UInt8 :=
  match filename with
  | c :: rest => if c = fsPathsep then (hand.rootDir, rest) else (dir, filename)
  | [] => (dir, filename)

section Search

variable {pread : Pread} {hand : FatHandle}

/-! ## One directory -/

/-- The addresses `_get_next_cluster` returns. -/
def toolRange (hand : FatHandle) : Finset Int :=
  insert 0 (((Finset.range (hand.dataOffset - hand.rootDir.firstCluster).toNat).image fun n : Nat =>
      hand.rootDir.firstCluster + (n : Int)) ∪
    (Finset.range 0xff0).image fun e => hand.dataOffset + ((e - 2) * hand.clusterSize : Nat))

theorem getNextCluster_mem (pread : Pread) (hand : FatHandle) (c : Int) :
    getNextCluster pread hand c ∈ toolRange hand := by
  rw [getNextCluster]
  split
  · split
    · exact Finset.mem_insert_self _ _
    · split
      · next hge hlt =>
          apply Finset.mem_insert_of_mem
          apply Finset.mem_union_left
          exact Finset.mem_image.mpr ⟨(c + hand.clusterSize - hand.rootDir.firstCluster).toNat,
            Finset.mem_range.mpr (by omega), by omega⟩
      · exact Finset.mem_insert_self _ _
  · dsimp only
    split
    · next he =>
        apply Finset.mem_insert_of_mem
        apply Finset.mem_union_right
        exact Finset.mem_image_of_mem _ (Finset.mem_range.mpr he.2)
    · exact Finset.mem_insert_self _ _

/-- A chain without a cycle ends. -/
theorem chain_ends {c : Int} (h : Acyclic (getNextCluster pread hand) c) :
    ∃ n, chainAt (getNextCluster pread hand) n c = none := by
  apply h.exists_none (F := insert c (toolRange hand))
  intro k d hk
  refine chainAt_mem (D := (· ∈ insert c (toolRange hand))) ?_ (Finset.mem_insert_self _ _) hk
  exact fun e _ => Finset.mem_insert_of_mem (getNextCluster_mem pread hand e)

/-- The entries of a cluster come to an end. -/
theorem scanDents_eventually {dents : Int → UInt8} (h : NotBlank dents) (hand : FatHandle)
    (filename : List UInt8) (is : List Nat) :
    ∃ r : FindRet FatFileHandle, r.Returns ∧
      ∀ᶠ fuel in atTop, scanDents fuel hand dents filename is = r := by
  induction is with
  | nil => exact ⟨.fail, trivial, Eventually.of_forall fun _ => rfl⟩
  | cons i is ih =>
      obtain ⟨r, hr, hrest⟩ := ih
      by_cases hskip : dents (i * sizeofFatDirent : Nat) = 0 ∨
          (fatDirent dents i).attr &&& fatDirentAttrVolumelabel ≠ 0
      · refine ⟨r, hr, ?_⟩
        filter_upwards [hrest] with fuel hfuel
        rw [scanDents, if_pos hskip, hfuel]
      · obtain ⟨cmp, -, hcmp⟩ := fatStrcmp_eventually h filename i
        have hname : (fun k => dents (i * sizeofFatDirent + k : Nat)) = entryName dents i := rfl
        by_cases hzero : cmp = 0
        · refine ⟨.ok (populateFileHandle hand (fatDirent dents i)), trivial, ?_⟩
          filter_upwards [hcmp] with fuel hfuel
          rw [scanDents, if_neg hskip, fatStrcmp, hname, hfuel]
          exact if_pos hzero
        · refine ⟨r, hr, ?_⟩
          filter_upwards [hcmp, hrest] with fuel hfuel hfuel'
          rw [scanDents, if_neg hskip, fatStrcmp, hname, hfuel]
          dsimp only
          rw [if_neg hzero, hfuel']

/-- A cluster whose entries all start with a zero byte. -/
theorem scanDents_empty {dents : Int → UInt8} (fuel : Nat) (hand : FatHandle)
    (filename : List UInt8) {is : List Nat}
    (h : ∀ i ∈ is, dents (i * sizeofFatDirent : Nat) = 0) :
    scanDents fuel hand dents filename is = .fail := by
  induction is with
  | nil => rfl
  | cons i is ih =>
      rw [scanDents, if_pos (Or.inl (h i List.mem_cons_self))]
      exact ih fun j hj => h j (List.mem_cons_of_mem _ hj)

/-- A search returns, and leaves a buffer that is not blank for ever. -/
def EndsWell (f : Nat → FindRet FatFileHandle × (Int → UInt8)) : Prop :=
  ∃ r, r.1.Returns ∧ NotBlank r.2 ∧ ∀ᶠ fuel in atTop, f fuel = r

/-- Along a chain that ends, the loop does. -/
theorem findDent_ends {filename : List UInt8} {n : Nat} {c : Int} {dents : Int → UInt8}
    (hn : chainAt (getNextCluster pread hand) n c = none) (h : NotBlank dents) :
    EndsWell fun fuel => findDent pread hand filename fuel dents c := by
  have hzero (dents : Int → UInt8) (h : NotBlank dents) :
      EndsWell fun fuel => findDent pread hand filename fuel dents 0 :=
    ⟨(.fail, dents), trivial, h, eventually_of_succ (Eventually.of_forall fun _ => rfl)⟩
  induction n generalizing c dents with
  | zero => exact absurd hn nofun
  | succ n ih =>
      rcases eq_or_ne c 0 with rfl | hc
      · exact hzero dents h
      · have hdents := h.storeAt 0 (pread hand.clusterSize c)
        by_cases hlen : (pread hand.clusterSize c).length = hand.clusterSize
        · obtain ⟨r, hr, hscan⟩ := scanDents_eventually hdents hand filename
            (List.range (hand.clusterSize / sizeofFatDirent))
          cases r with
          | panic => exact absurd hr id
          | stuck => exact absurd hr id
          | ok file =>
              refine ⟨(.ok file, storeAt dents 0 (pread hand.clusterSize c)), trivial, hdents,
                eventually_of_succ ?_⟩
              filter_upwards [hscan] with fuel hfuel
              rw [findDent, if_neg hc]
              simp only [hlen, ne_eq, not_true, if_false, hfuel]
          | fail =>
              -- on to the next cluster, or to the end of the chain
              have hnext : EndsWell fun fuel => findDent pread hand filename fuel
                  (storeAt dents 0 (pread hand.clusterSize c)) (getNextCluster pread hand c) := by
                by_cases hend : getNextCluster pread hand c = 0
                · rw [hend]
                  exact hzero _ hdents
                · rw [chainAt, if_neg hend] at hn
                  exact ih hn hdents
              obtain ⟨r, hr, hblank, hret⟩ := hnext
              refine ⟨r, hr, hblank, eventually_of_succ ?_⟩
              filter_upwards [hscan, hret] with fuel hfuel hfuel'
              rw [findDent, if_neg hc]
              simp only [hlen, ne_eq, not_true, if_false, hfuel, hfuel']
        · refine ⟨(.fail, storeAt dents 0 (pread hand.clusterSize c)), trivial, hdents,
            eventually_of_succ (Eventually.of_forall ?_)⟩
          intro fuel
          show findDent pread hand filename (fuel + 1) dents c = _
          rw [findDent, if_neg hc]
          simp only [ne_eq, hlen, not_false_eq_true, if_true]

theorem findName_ends {dir : FatFileHandle}
    (hacyclic : Acyclic (getNextCluster pread hand) dir.firstCluster) {dents : Int → UInt8}
    (h : NotBlank dents) (filename : List UInt8) :
    EndsWell fun fuel => findName pread hand fuel dents dir filename := by
  by_cases hlong : filename.length > 11
  · exact ⟨(.fail, dents), trivial, h, Eventually.of_forall fun _ => if_pos hlong⟩
  · have hloop (fuel : Nat) : findName pread hand fuel dents dir filename
        = findDent pread hand filename fuel dents dir.firstCluster := if_neg hlong
    obtain ⟨n, hn⟩ := chain_ends hacyclic
    simp only [hloop]
    exact findDent_ends hn h

/-! ## Paths -/

/-- If the chains of the directories gone into have no cycle, the search along
    a path returns. -/
theorem findPath_ends {dents : Int → UInt8} (h : NotBlank dents) {dir : FatFileHandle}
    {path : List (List UInt8)} (hacyclic : ∀ d, Visits pread hand dents dir path d →
      Acyclic (getNextCluster pread hand) d.firstCluster) :
    Ends fun fuel => findPath pread hand fuel dents dir path := by
  induction path generalizing dents dir with
  | nil => exact ⟨(.fail, dents), trivial, Eventually.of_forall fun _ => rfl⟩
  | cons dirname rest ih =>
      obtain ⟨⟨r, dents'⟩, hr, hblank, hname⟩ :=
        findName_ends (hacyclic dir (.here dents dir dirname rest)) h dirname
      cases rest with
      | nil => exact ⟨(r, dents'), hr, hname⟩
      | cons next rest =>
          cases r with
          | panic => exact absurd hr id
          | stuck => exact absurd hr id
          | fail =>
              refine ⟨(.fail, dents'), trivial, ?_⟩
              filter_upwards [hname] with fuel hfuel
              rw [findPath_on, hfuel]
          | ok tmp =>
              by_cases hdir : tmp.attr &&& fatDirentAttrDirectory ≠ 0
              · obtain ⟨r, hr, hret⟩ := ih hblank fun d hd => hacyclic d (.on hname hdir hd)
                refine ⟨r, hr, ?_⟩
                filter_upwards [hname, hret] with fuel hfuel hfuel'
                rw [findPath_on, hfuel]
                dsimp only
                rw [if_pos hdir, hfuel']
              · refine ⟨(.fail, dents'), trivial, ?_⟩
                filter_upwards [hname] with fuel hfuel
                rw [findPath_on, hfuel]
                exact if_neg hdir

theorem fatFindFile_ends {dents : Int → UInt8} (h : NotBlank dents) {dir : FatFileHandle}
    {filename : List UInt8} (hacyclic : ∀ d, Visits pread hand dents (findStart hand dir filename).1
      ((findStart hand dir filename).2.splitOn fsPathsep) d →
      Acyclic (getNextCluster pread hand) d.firstCluster) :
    Ends fun fuel => fatFindFile pread hand fuel dents dir filename :=
  findPath_ends h hacyclic

end Search

/-! ## Both programs -/

/-- On every image, from every directory and for every name: a search of the
    loader returns if it comes to no cluster a second time, whatever the
    device answers and the cache holds; where the geometry is that of a FAT12
    volume and the cache agrees with the image, it does so if the directory's
    chain has no cycle.  A search of the tools returns if the chains of the
    directories it goes into have none. -/
theorem directory_search_ends {ι : Type} (S : StorageHand ι) (pread : Pread) (off : Int)
    (b : FatBootsector) (hcs : 0 < (fatPopulate off b).fdata.clusterSize) (s : FatSearch ι)
    (hs : NotBlank s.dirents) (dir : Option FatFile)
    (hdir : DirHandle (fatPopulate off b) (dir.getD (fatPopulate off b).rootdir))
    (name : List UInt8) (dents : Int → UInt8) (hdents : NotBlank dents) (tdir : FatFileHandle)
    (filename : List UInt8) :
    ((∀ l, Examines S (fatPopulate off b).fdata (dir.getD (fatPopulate off b).rootdir) name s 0 l →
        l.Nodup) →
      Ends fun fuel => fatFsFind S (fatPopulate off b) fuel s dir name) ∧
    (∀ img, Answers S img → WholeBlocks img → DirLayout (fatPopulate off b).fdata →
      Coherent img (fatPopulate off b).fdata s.lookup.cache →
      Acyclic (fatNextOn img (fatPopulate off b).fdata)
        (dir.getD (fatPopulate off b).rootdir).firstCluster →
      Ends fun fuel => fatFsFind S (fatPopulate off b) fuel s dir name) ∧
    ((∀ d, Visits pread (fatHandle b) dents (findStart (fatHandle b) tdir filename).1
        ((findStart (fatHandle b) tdir filename).2.splitOn fsPathsep) d →
        Acyclic (getNextCluster pread (fatHandle b)) d.firstCluster) →
      Ends fun fuel => fatFindFile pread (fatHandle b) fuel dents tdir filename) := by
  have hlt : (fatPopulate off b).fdata.clusterSize < 2 ^ 16 := Nat.mod_lt _ (by decide)
  refine ⟨fatFsFind_returns hcs hlt hdir.directory hs, ?_, fatFindFile_ends hdents⟩
  intro img hS hwhole hfd hcache hacyclic
  apply fatFsFind_returns hcs hlt hdir.directory hs
  intro l hl
  exact hl.nodup (follows_image hS hwhole hfd) hfd hdir.directory (hdir.start rfl hfd) hacyclic
    hcache

/-- The root directory of the small volume is one cluster: both searches for a
    file it does not have return. -/
theorem directory_search_ends_small :
    (Ends fun fuel => fatFsFind SmallVolume.storage (fatPopulate 0 SmallVolume.bootsec) fuel
        ⟨SmallVolume.tagged, fun _ => 0⟩ none [0x42]) ∧
      Ends fun fuel => fatFindFile (fun n off => loadAt SmallVolume.vol off n)
        (fatHandle SmallVolume.bootsec) fuel (fun _ => 0) (fatHandle SmallVolume.bootsec).rootDir
        [0x42] := by
  have hzero : (0 : UInt8) ≠ 0x20 := by decide
  have hblank : NotBlank fun _ => 0 := fun k => ⟨k, Nat.le_refl k, hzero⟩
  obtain ⟨-, hloader, htool⟩ := directory_search_ends SmallVolume.storage
    (fun n off => loadAt SmallVolume.vol off n) 0 SmallVolume.bootsec (by decide)
    ⟨SmallVolume.tagged, fun _ => 0⟩ hblank none ⟨rfl, Or.inl rfl⟩ [0x42] (fun _ => 0) hblank
    (fatHandle SmallVolume.bootsec).rootDir [0x42]
  constructor
  · exact hloader SmallVolume.image (fun _ _ _ => rfl) SmallVolume.wholeBlocks SmallVolume.dirLayout
      SmallVolume.tagged_coherent (acyclic_of_none (n := 1) (by decide +kernel))
  · apply htool
    intro d hd
    have hpath : (findStart (fatHandle SmallVolume.bootsec)
        (fatHandle SmallVolume.bootsec).rootDir [0x42]).2.splitOn fsPathsep = [[0x42]] := by decide
    rw [hpath] at hd
    cases hd with
    | here => exact acyclic_of_none (n := 1) (by decide +kernel)
    | on hfind hdir hrest => cases hrest

/-! ### A directory whose cluster is linked to itself -/

namespace CyclicVolume

/-- The small volume with a directory `D`, in cluster 2, which is followed by
    cluster 2. -/
def vol (x : Int) : UInt8 :=
  if x = 515 then 2
  else if x = 1024 then 0x44 else if x = 1035 then 0x10 else if x = 1050 then 2
  else SmallVolume.vol x

def storage : StorageHand Unit := ⟨fun d off n => ((loadAt vol off n, n), d)⟩

def pread : Pread := fun n off => loadAt vol off n

theorem bootsec_eq : fatBootsector vol = SmallVolume.bootsec := by decide +kernel

/-- The sector of the FAT is cached. -/
def cache : FatCache := ⟨fun _ => 512, fun _ => 0, fun x => vol (512 + x)⟩

def start : FatSearch Unit := ⟨⟨(), cache, fun _ => 0⟩, fun _ => 0⟩

def dir : FatFile := ⟨true, 0, 1536⟩

def toolDir : FatFileHandle := ⟨0, 1536, 0x10⟩

/-- It is what the searches for `D` find. -/
example : (fatFsFind storage (fatPopulate 0 SmallVolume.bootsec) 2 start none [0x44]).1 = .ok dir ∧
    (fatFindFile pread (fatHandle SmallVolume.bootsec) 2 (fun _ => 0)
      (fatHandle SmallVolume.bootsec).rootDir [0x44]).1 = .ok toolDir := by
  decide +kernel

/-- The directory is empty. -/
theorem vol_dir {x : Int} (h : 1536 ≤ x) : vol x = 0 := by
  rw [vol, SmallVolume.vol]
  repeat rw [if_neg (by omega)]

theorem store_dir {m : Int → UInt8} (hm : ∀ x < 0, m x = 0) {x : Int} (hx : x < 512) :
    storeAt m 0 (loadAt vol 1536 512) x = 0 := by
  rcases lt_or_ge x 0 with hneg | hge
  · rw [storeAt_of_outside (Or.inl hneg)]
    exact hm x hneg
  · obtain ⟨i, rfl⟩ := Int.eq_ofNat_of_zero_le hge
    have hcell : storeAt m 0 (loadAt vol 1536 512) (0 + i) = vol (1536 + i) :=
      storeAt_loadAt m 0 (by omega)
    rw [Int.zero_add] at hcell
    rw [hcell]
    exact vol_dir (by omega)

/-- The state behind a lookup: the scratch buffer is written from its start
    on. -/
def looked (s : FatState Unit) : FatState Unit :=
  { s with tmp := storeAt s.tmp 0 (loadAt cache.buf 0 512) }

theorem entry_dir {s : FatState Unit} (hs : s.cache = cache) :
    fatGetFatEntry storage SmallVolume.fd s 2 = (2, looked s) := by
  have hfind : fatCacheFind cache 512 = some 0 := by decide
  have hfetch : fatFetch storage SmallVolume.fd s 512 = (true, looked s) := by
    obtain ⟨dev, _, tmp⟩ := s
    obtain rfl := hs
    rw [fatFetch, fatTryCache, hfind]
    rfl
  have hdata : fatReadFatData storage SmallVolume.fd s 515 2
      = (fatMask 2 (leNat (loadAt (looked s).tmp (3 : Nat) 4)), looked s) := by
    have haddr : (515 : Int) - (515 : Int).tmod SmallVolume.fd.sectorSize = 512 := by decide
    rw [fatReadFatData, haddr, hfetch]
    rfl
  have hword : fatMask 2 (leNat (loadAt (looked s).tmp (3 : Nat) 4)) = 2 := by
    rw [looked, fatMask_block (n := 5) (by decide) (by decide) (by decide)
      (by rw [length_loadAt]; decide)]
    decide +kernel
  have hoff : s32 (SmallVolume.fd.fatOffset + (u32 (2 * 3) / 2 : Nat)) = 515 := by decide
  rw [fatGetFatEntry, hoff, if_neg (by decide), hdata, hword]
  rfl

/-- The next cluster is the same one. -/
theorem next_dir {s : FatState Unit} (hs : s.cache = cache) :
    fatGetNextCluster storage SmallVolume.fd s 1536 = (1536, looked s) := by
  have hnum : clusterNumAt SmallVolume.fd 1536 = 2 := by decide
  obtain ⟨hfst, hsnd⟩ := fatGetNextCluster_data storage SmallVolume.fd s (c := 1536) (by decide)
  rw [hnum, entry_dir hs] at hfst hsnd
  have haddr : s32 (SmallVolume.fd.dataOffset + ((2 - 2) * SmallVolume.fd.clusterSize : Nat))
      = 1536 := by
    decide
  rw [if_pos ⟨Nat.le_refl 2, by show 2 ≤ 0xff0; decide⟩, haddr] at hfst
  exact Prod.ext hfst hsnd

/-- What the search keeps: the FAT is cached, and in front of the scratch
    buffer there are zeros. -/
structure Kept (s : FatState Unit) : Prop where
  cache_eq : s.cache = cache
  front : ∀ x < 0, s.tmp x = 0

theorem Kept.store {s : FatState Unit} (h : Kept s) (bs : List UInt8) :
    Kept { s with tmp := storeAt s.tmp 0 bs } where
  cache_eq := h.cache_eq
  front x hx := by
    show storeAt s.tmp 0 bs x = 0
    rw [storeAt_of_outside (Or.inl hx)]
    exact h.front x hx

theorem skip_dir {fuel : Nat} {s : FatState Unit} (h : Kept s) {pos : Int} (hdvd : 512 ∣ pos)
    (hfuel : pos.toNat ≤ fuel) : ∃ r t, Kept t ∧ r ≤ 0 ∧ min pos 0 ≤ r ∧
      fatSkip storage SmallVolume.fd fuel s 1536 pos = (.ok (1536, r), t) := by
  have hcs : SmallVolume.fd.clusterSize = 512 := rfl
  induction fuel generalizing s pos with
  | zero =>
      refine ⟨pos, s, h, by omega, by omega, ?_⟩
      rw [fatSkip, if_neg (by omega)]
  | succ fuel ih =>
      rw [fatSkip]
      by_cases hge : pos ≥ SmallVolume.fd.clusterSize
      · have hdvd' : 512 ∣ pos - SmallVolume.fd.clusterSize := by omega
        obtain ⟨r, t, ht, hle, hmin, hskip⟩ :=
          ih (h.store (loadAt cache.buf 0 512)) hdvd' (by omega)
        refine ⟨r, t, ht, hle, by omega, ?_⟩
        rw [if_pos hge, next_dir h.cache_eq]
        exact hskip
      · refine ⟨pos, s, h, by omega, by omega, ?_⟩
        rw [if_neg hge]

/-- Whatever the offset, a read delivers a cluster of zeros. -/
theorem read_dir {s : FatState Unit} (h : Kept s) (buf : Int → UInt8) {pos : Int}
    (hdvd : 512 ∣ pos) (hrange : -2 ^ 31 ≤ pos) : ∃ t, Kept t ∧
      fatFileRead storage SmallVolume.fd dir s buf 512 pos
        = (.ret 512, storeAt buf 0 (List.replicate 512 0), t) := by
  obtain ⟨r, t, ht, hle, hmin, hskip⟩ := skip_dir h hdvd (Nat.le_refl _)
  refine ⟨_, ht.store (loadAt vol 1536 512), ?_⟩
  have hcs : SmallVolume.fd.clusterSize = 512 := rfl
  have hroom : ¬ toU32 ((512 : Nat) - r) < 512 - 0 := by
    rw [toU32_of_nonneg (by omega) (by omega)]
    omega
  -- the cluster, or what lies in front of the scratch buffer
  have hload : loadAt (storeAt t.tmp 0 (loadAt vol 1536 512)) r 512 = List.replicate 512 0 := by
    rw [loadAt_eq_iff (List.length_replicate ..)]
    intro i hi
    rw [store_dir ht.front (by omega), List.getElem?_replicate_of_lt hi]
  have hfirst : dir.firstCluster = 1536 := rfl
  have hread : storage.read t.dev 1536 512 = ((loadAt vol 1536 512, 512), ()) := rfl
  rw [fatFileRead, if_neg fun hpanic => hpanic.1 rfl, hfirst, hskip]
  show fatCopy storage SmallVolume.fd 512 (511 + 1) t buf 1536 r 0 = _
  rw [fatCopy, if_pos (by decide), hcs, hread]
  dsimp only
  rw [if_neg (by decide), if_pos (Nat.le_of_not_lt hroom), Nat.sub_zero, hload,
    fatCopy_done (by decide)]
  rfl

/-- The search of the loader goes on. -/
theorem loop_dir {fuel : Nat} {s : FatSearch Unit} (h : Kept s.lookup) {pos : Int}
    (hdvd : 512 ∣ pos) (hrange : -2 ^ 31 ≤ pos) :
    (fatFsFindLoop storage SmallVolume.fd dir [0x41] fuel s pos).1 = .stuck := by
  have hcs : SmallVolume.fd.clusterSize = 512 := rfl
  induction fuel generalizing s pos with
  | zero => rfl
  | succ fuel ih =>
      obtain ⟨t, ht, hread⟩ := read_dir h s.dirents hdvd hrange
      have hscan : fatScanDirents fuel SmallVolume.fd (storeAt s.dirents 0 (List.replicate 512 0))
          [0x41] (List.range (512 / sizeofFatDirent)) = .fail := by
        apply fatScanDirents_other (by decide)
        intro i hi
        have hlt : i < 16 := List.mem_range.mp hi
        have hcell : i * sizeofFatDirent < (List.replicate 512 (0 : UInt8)).length := by
          rw [List.length_replicate, sizeofFatDirent]
          omega
        have hstored := storeAt_of_inside (m := s.dirents) (a := 0) hcell
        rw [Int.zero_add, List.getElem_replicate] at hstored
        rw [hstored]
        decide
      -- also where the offset comes around
      have hnext : 512 ∣ s32 (pos + 512) := by
        rw [s32, Int.bmod_eq_self_sub_mul_bdiv]
        omega
      have hmem := s32_mem (pos + 512)
      rw [mem_offRange] at hmem
      rw [fatFsFindLoop, hcs, hread]
      dsimp only
      rw [if_neg (by decide), hscan]
      exact ih ht hnext hmem.1

/-- And so does that of the tools. -/
theorem findDent_dir {fuel : Nat} {dents : Int → UInt8} :
    (findDent pread (fatHandle SmallVolume.bootsec) [0x41] fuel dents 1536).1 = .stuck := by
  have hcs : (fatHandle SmallVolume.bootsec).clusterSize = 512 := rfl
  have hlen : (pread 512 1536).length = 512 := length_loadAt _ _ _
  have hnext : getNextCluster pread (fatHandle SmallVolume.bootsec) 1536 = 1536 := by
    decide +kernel
  induction fuel generalizing dents with
  | zero => rfl
  | succ fuel ih =>
      have hscan : scanDents fuel (fatHandle SmallVolume.bootsec)
          (storeAt dents 0 (pread 512 1536)) [0x41] (List.range (512 / sizeofFatDirent)) = .fail := by
        apply scanDents_empty
        intro i hi
        have hlt : i < 16 := List.mem_range.mp hi
        have hcell : storeAt dents 0 (loadAt vol 1536 512) (0 + (i * sizeofFatDirent : Nat))
            = vol (1536 + (i * sizeofFatDirent : Nat)) :=
          storeAt_loadAt dents 0 (by rw [sizeofFatDirent]; omega)
        rw [Int.zero_add] at hcell
        rw [pread, hcell]
        exact vol_dir (by omega)
      rw [findDent, if_neg (by decide), hcs]
      dsimp only
      rw [if_neg (not_not.mpr hlen), hscan]
      dsimp only
      rw [hnext]
      exact ih

end CyclicVolume

/-- Without the condition it fails, for both: a directory whose cluster is
    linked to itself. -/
theorem directory_search_endless :
    ¬ (Ends fun fuel => fatFsFind CyclicVolume.storage
        (fatPopulate 0 (fatBootsector CyclicVolume.vol)) fuel CyclicVolume.start
        (some CyclicVolume.dir) [0x41]) ∧
      ¬ Ends fun fuel => fatFindFile CyclicVolume.pread (fatHandle (fatBootsector CyclicVolume.vol))
        fuel (fun _ => 0) CyclicVolume.toolDir [0x41] := by
  rw [CyclicVolume.bootsec_eq]
  constructor
  · apply Ends.not_of_stuck
    intro fuel
    have hfd := (SmallVolume.populate_eq 0).1
    rw [fatFsFind, if_neg (by decide), hfd]
    exact CyclicVolume.loop_dir ⟨rfl, fun _ _ => rfl⟩ (Int.dvd_zero 512) (by decide)
  · apply Ends.not_of_stuck
    intro fuel
    exact CyclicVolume.findDent_dir

end LBoot.Tools
