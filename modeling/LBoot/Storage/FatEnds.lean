/-
  LBoot.Storage.FatEnds

  When the search of a directory comes to an end.

  Nothing in `_fat_fs_find` counts clusters or remembers them: it ends with
  the entry it looks for, or where the directory cannot be read further.
  There are only so many clusters an `off_t` can name, so it returns unless it
  comes to a cluster a second time (`fatFsFindLoop_returns`).  On an image
  this does not happen in a chain without a cycle (`Examines.nodup`).
-/

import LBoot.Storage.FatScan
import LBoot.Storage.FatWalk
import Mathlib.Data.Finset.Image

namespace LBoot.Storage

open LBoot.Lib Filter

variable {ι : Type*}

/-- The function has returned, with 0 or an error. -/
def FindRet.Returns {α : Type*} : FindRet α → Prop
  | .fail => True
  | .ok _ => True
  | .panic => False
  | .stuck => False

/-- With enough iterations, the function returns. -/
def Ends {α σ : Type*} (f : Nat → FindRet α × σ) : Prop :=
  ∃ r, r.1.Returns ∧ ∀ᶠ fuel in atTop, f fuel = r

/-- Clusters a search goes through from the place `pos` on: each of them is
    read, and none of its entries is the one looked for. -/
inductive Examines (S : StorageHand ι) (fd : FatData) (dir : FatFile) (name : List UInt8) :
    FatSearch ι → Int → List Int → Prop
  | here (s : FatSearch ι) (pos : Int) : Examines S fd dir name s pos []
  | on {s : FatSearch ι} {pos cluster off : Int} {t lookup : FatState ι} {dirents : Int → UInt8}
      {clusters : List Int}
      (hskip : fatSkip S fd pos.toNat s.lookup dir.firstCluster pos = (.ok (cluster, off), t))
      (hread : fatFileRead S fd dir s.lookup s.dirents fd.clusterSize pos
        = (.ret fd.clusterSize, dirents, lookup))
      (hscan : scanned fd dirents name (List.range (fd.clusterSize / sizeofFatDirent)) = .fail)
      (hrest : Examines S fd dir name ⟨lookup, dirents⟩ (s32 (pos + fd.clusterSize)) clusters) :
      Examines S fd dir name s pos (cluster :: clusters)

namespace Ends

variable {α σ : Type*} {f g : Nat → FindRet α × σ}

theorem of_succ {r : FindRet α × σ} (hr : r.1.Returns)
    (h : ∀ᶠ fuel in atTop, f (fuel + 1) = r) : Ends f :=
  ⟨r, hr, eventually_of_succ h⟩

/-- A function that goes on as one that returns does, behind an iteration. -/
theorem of_step (h : ∀ᶠ fuel in atTop, f (fuel + 1) = g fuel) (hg : Ends g) : Ends f := by
  obtain ⟨r, hr, hret⟩ := hg
  apply of_succ hr
  filter_upwards [h, hret] with fuel hfuel hfuel'
  rw [hfuel, hfuel']

theorem not_of_stuck (h : ∀ fuel, (f fuel).1 = .stuck) : ¬ Ends f := by
  rintro ⟨r, hr, hret⟩
  obtain ⟨fuel, hfuel⟩ := hret.exists
  rw [← hfuel, h fuel] at hr
  exact hr

end Ends

section Any

variable {S : StorageHand ι} {fd : FatData} {dir : FatFile} {name : List UInt8}

/-! ## Any device -/

/-- The addresses an `off_t` can hold. -/
def offRange : Finset Int := (Finset.range (2 ^ 32)).image fun n : Nat => (n : Int) - 2 ^ 31

theorem mem_offRange {x : Int} : x ∈ offRange ↔ -2 ^ 31 ≤ x ∧ x < 2 ^ 31 := by
  rw [offRange, Finset.mem_image]
  constructor
  · rintro ⟨n, hn, rfl⟩
    have hlt := Finset.mem_range.mp hn
    omega
  · intro hx
    exact ⟨(x + 2 ^ 31).toNat, Finset.mem_range.mpr (by omega), by omega⟩

theorem s32_mem (x : Int) : s32 x ∈ offRange := by
  have hlo := @Int.le_bmod x (2 ^ 32) (by decide)
  have hhi := @Int.bmod_lt x (2 ^ 32) (by decide)
  rw [mem_offRange, s32]
  omega

theorem zero_mem_offRange : (0 : Int) ∈ offRange := mem_offRange.mpr ⟨by decide, by decide⟩

theorem fatGetNextCluster_mem (S : StorageHand ι) (fd : FatData) (s : FatState ι) (c : Int) :
    (fatGetNextCluster S fd s c).1 ∈ offRange := by
  by_cases hlow : c < fd.dataOffset
  · rw [fatGetNextCluster, if_pos hlow]
    split
    · exact zero_mem_offRange
    · split
      · exact s32_mem _
      · exact zero_mem_offRange
  · rw [(fatGetNextCluster_data S fd s hlow).1]
    split
    · exact s32_mem _
    · exact zero_mem_offRange

/-- The first loop ends: at a cluster, or with an error. -/
theorem fatSkip_returns (hcs : 0 < fd.clusterSize) {fuel : Nat} {s : FatState ι} {c off : Int}
    (hfuel : off.toNat ≤ fuel) :
    (∃ t, fatSkip S fd fuel s c off = (.error (.ret (-1)), t)) ∨
      ∃ d rest t, fatSkip S fd fuel s c off = (.ok (d, rest), t) := by
  induction fuel generalizing s c off with
  | zero =>
      rw [fatSkip, if_neg (by omega)]
      exact Or.inr ⟨c, off, s, rfl⟩
  | succ fuel ih =>
      rw [fatSkip]
      split
      · dsimp only
        split
        · exact Or.inl ⟨_, rfl⟩
        · exact ih (by omega)
      · exact Or.inr ⟨c, off, s, rfl⟩

/-- It stays at the first cluster or comes to one an `off_t` can name. -/
theorem fatSkip_mem {fuel : Nat} {s t : FatState ι} {c off d rest : Int}
    (h : fatSkip S fd fuel s c off = (.ok (d, rest), t)) : d = c ∨ d ∈ offRange := by
  induction fuel generalizing s c off with
  | zero =>
      rw [fatSkip] at h
      split at h
      · cases (Prod.mk.inj h).1
      · left
        have hok := Except.ok.inj (Prod.mk.inj h).1
        exact (Prod.mk.inj hok).1.symm
  | succ fuel ih =>
      rw [fatSkip] at h
      split at h
      · dsimp only at h
        split at h
        · cases (Prod.mk.inj h).1
        · rcases ih h with rfl | hmem
          · exact Or.inr (fatGetNextCluster_mem S fd s c)
          · exact Or.inr hmem
      · left
        have hok := Except.ok.inj (Prod.mk.inj h).1
        exact (Prod.mk.inj hok).1.symm

/-- The second loop ends behind one cluster, if that is how much is read. -/
theorem fatCopy_returns (hcs : 0 < fd.clusterSize) (hlt : fd.clusterSize < 2 ^ 16)
    (s : FatState ι) (buf : Int → UInt8) (c off : Int) :
    ∃ r buf' t, fatCopy S fd fd.clusterSize fd.clusterSize s buf c off 0 = (.ret r, buf', t) ∧
      (NotBlank buf → NotBlank buf') := by
  obtain ⟨fuel, hfuel⟩ : ∃ n, fd.clusterSize = n + 1 := ⟨fd.clusterSize - 1, by omega⟩
  have hnext : u32 (0 + fd.clusterSize) = fd.clusterSize := by rw [u32_of_lt] <;> omega
  have hstep := @fatCopy_done ι S fd fd.clusterSize fd.clusterSize (Nat.le_refl _) fuel
  have hfirst : fatCopy S fd fd.clusterSize fd.clusterSize s buf c off 0
      = fatCopy S fd fd.clusterSize (fuel + 1) s buf c off 0 := by
    rw [← hfuel]
  rw [hfirst, fatCopy, if_pos hcs]
  cases hread : S.read s.dev c fd.clusterSize with
  | mk res dev =>
      dsimp only
      rw [hnext]
      split
      · exact ⟨_, _, _, rfl, id⟩
      · split
        · rw [hstep]
          exact ⟨_, _, _, rfl, fun h => h.storeAt _ _⟩
        · split
          · exact ⟨_, _, _, rfl, fun h => h.storeAt _ _⟩
          · rw [hstep]
            exact ⟨_, _, _, rfl, fun h => h.storeAt _ _⟩

/-- A read of a directory returns; if it is not a failure, there was a cluster
    to read. -/
theorem fatFileRead_returns (hcs : 0 < fd.clusterSize) (hlt : fd.clusterSize < 2 ^ 16)
    (hdir : dir.directory = true) (s : FatState ι) (buf : Int → UInt8) (pos : Int) :
    ∃ r buf' t, fatFileRead S fd dir s buf fd.clusterSize pos = (.ret r, buf', t) ∧
      (NotBlank buf → NotBlank buf') ∧
      (r = fd.clusterSize → ∃ cluster off t',
        fatSkip S fd pos.toNat s dir.firstCluster pos = (.ok (cluster, off), t')) := by
  rw [fatFileRead, if_neg fun hpanic => hpanic.1 hdir]
  rcases @fatSkip_returns ι S fd hcs _ s dir.firstCluster pos (Nat.le_refl _) with
    ⟨t, hskip⟩ | ⟨d, rest, t, hskip⟩
  · rw [hskip]
    exact ⟨-1, buf, t, rfl, id, fun hret => by omega⟩
  · rw [hskip]
    obtain ⟨r, buf', t', hcopy, hblank⟩ := fatCopy_returns hcs hlt t buf d rest
    exact ⟨r, buf', t', hcopy, hblank, fun _ => ⟨d, rest, t, rfl⟩⟩

/-- One iteration of a search: it returns, or goes through a cluster. -/
theorem fatFsFindLoop_step (hcs : 0 < fd.clusterSize) (hlt : fd.clusterSize < 2 ^ 16)
    (hdir : dir.directory = true) (name : List UInt8) {s : FatSearch ι} (hs : NotBlank s.dirents)
    (pos : Int) :
    (Ends fun fuel => fatFsFindLoop S fd dir name fuel s pos) ∨
      ∃ cluster, ∃ s' : FatSearch ι, NotBlank s'.dirents ∧
        (∀ l, Examines S fd dir name s' (s32 (pos + fd.clusterSize)) l →
          Examines S fd dir name s pos (cluster :: l)) ∧
        ∀ᶠ fuel in atTop, fatFsFindLoop S fd dir name (fuel + 1) s pos
          = fatFsFindLoop S fd dir name fuel s' (s32 (pos + fd.clusterSize)) := by
  obtain ⟨r, dirents, lookup, hread, hblank, hskip⟩ :=
    fatFileRead_returns (S := S) hcs hlt hdir s.lookup s.dirents pos
  by_cases hret : r = fd.clusterSize
  · -- the cluster was read, and the scan decides
    subst hret
    have hscan := fatScanDirents_eventually (hblank hs) fd name
      (List.range (fd.clusterSize / sizeofFatDirent))
    obtain ⟨cluster, off, t, hskip⟩ := hskip rfl
    cases hres : scanned fd dirents name (List.range (fd.clusterSize / sizeofFatDirent)) with
    | panic => exact absurd hres (scanned_ne_panic _ _ _ _)
    | stuck => exact absurd hres (scanned_ne_stuck _ _ _ _)
    | ok file =>
        left
        refine Ends.of_succ (r := (.ok file, ⟨lookup, dirents⟩)) trivial ?_
        filter_upwards [hscan] with fuel hfuel
        rw [fatFsFindLoop, hread]
        simp only [ne_eq, not_true, if_false, hfuel, hres]
    | fail =>
        right
        refine ⟨cluster, ⟨lookup, dirents⟩, hblank hs, fun l hl => .on hskip hread hres hl, ?_⟩
        filter_upwards [hscan] with fuel hfuel
        rw [fatFsFindLoop, hread]
        simp only [ne_eq, not_true, if_false, hfuel, hres]
  · -- a failed read is the end of the directory
    left
    refine Ends.of_succ (r := (.fail, ⟨lookup, dirents⟩)) trivial (Eventually.of_forall ?_)
    intro fuel
    rw [fatFsFindLoop, hread]
    simp only [ne_eq, hret, not_false_eq_true, if_true]

/-- A search that goes through so many clusters at most returns. -/
theorem fatFsFindLoop_returns_of_le (hcs : 0 < fd.clusterSize) (hlt : fd.clusterSize < 2 ^ 16)
    (hdir : dir.directory = true) {n : Nat} {s : FatSearch ι} {pos : Int}
    (hs : NotBlank s.dirents) (h : ∀ l, Examines S fd dir name s pos l → l.length ≤ n) :
    Ends fun fuel => fatFsFindLoop S fd dir name fuel s pos := by
  induction n generalizing s pos with
  | zero =>
      rcases fatFsFindLoop_step (S := S) hcs hlt hdir name hs pos with
        hret | ⟨cluster, s', hs', hmore, -⟩
      · exact hret
      · exact absurd (h _ (hmore [] (.here s' _))) (Nat.not_succ_le_zero 0)
  | succ n ih =>
      rcases fatFsFindLoop_step (S := S) hcs hlt hdir name hs pos with
        hret | ⟨cluster, s', hs', hmore, hgo⟩
      · exact hret
      · exact Ends.of_step hgo (ih hs' fun l hl => Nat.le_of_succ_le_succ (h _ (hmore l hl)))

/-- The clusters a search goes through are addresses an `off_t` can hold, but
    for the first. -/
theorem Examines.mem {s : FatSearch ι} {pos : Int} {l : List Int}
    (h : Examines S fd dir name s pos l) : ∀ c ∈ l, c ∈ insert dir.firstCluster offRange := by
  induction h with
  | here s pos => exact fun c hc => absurd hc List.not_mem_nil
  | on hskip hread hscan hrest ih =>
      intro c hc
      rcases List.mem_cons.mp hc with rfl | hc
      · rcases fatSkip_mem hskip with rfl | hmem
        · exact Finset.mem_insert_self _ _
        · exact Finset.mem_insert_of_mem hmem
      · exact ih c hc

/-- On every device, a search that comes to no cluster a second time
    returns. -/
theorem fatFsFindLoop_returns (hcs : 0 < fd.clusterSize) (hlt : fd.clusterSize < 2 ^ 16)
    (hdir : dir.directory = true) {s : FatSearch ι} {pos : Int} (hs : NotBlank s.dirents)
    (h : ∀ l, Examines S fd dir name s pos l → l.Nodup) :
    Ends fun fuel => fatFsFindLoop S fd dir name fuel s pos := by
  apply fatFsFindLoop_returns_of_le hcs hlt hdir hs
  intro l hl
  -- as many clusters as there are addresses, at most
  rw [← List.toFinset_card_of_nodup (h l hl)]
  exact Finset.card_le_card fun c hc => hl.mem c (List.mem_toFinset.mp hc)

/-- So it is with `_fat_fs_find`; the directory itself is found at once. -/
theorem fatFsFind_returns {fs : FsHand} (hcs : 0 < fs.fdata.clusterSize)
    (hlt : fs.fdata.clusterSize < 2 ^ 16) {dir : Option FatFile}
    (hdir : (dir.getD fs.rootdir).directory = true) {s : FatSearch ι} (hs : NotBlank s.dirents)
    (h : ∀ l, Examines S fs.fdata (dir.getD fs.rootdir) name s 0 l → l.Nodup) :
    Ends fun fuel => fatFsFind S fs fuel s dir name := by
  by_cases hdot : name = [0x2e]
  · refine Ends.of_succ (r := (.ok (dir.getD fs.rootdir), s)) trivial (Eventually.of_forall ?_)
    exact fun fuel => if_pos hdot
  · have hloop (fuel : Nat) : fatFsFind S fs fuel s dir name
        = fatFsFindLoop S fs.fdata (dir.getD fs.rootdir) name fuel s 0 := if_neg hdot
    simp only [hloop]
    exact fatFsFindLoop_returns hcs hlt hdir hs h

end Any

/-! ## Images -/

/-- The handle of a directory: that of the root directory, or one a search has
    filled in. -/
structure DirHandle (fs : FsHand) (dir : FatFile) : Prop where
  directory : dir.directory = true
  found : dir = fs.rootdir ∨ ∃ dirents i, dir = fatPopFile fs.fdata (fatDirent dirents i)

theorem DirHandle.start {fs : FsHand} (hroot : fs.rootdir.firstCluster = fs.fdata.rootdirFirst)
    (hfd : DirLayout fs.fdata) {dir : FatFile} (h : DirHandle fs dir) :
    DirStart fs.fdata dir.firstCluster := by
  rcases h.found with rfl | ⟨dirents, i, rfl⟩
  · rw [hroot]
    exact hfd.start_rootdir
  · exact hfd.start_popFile dirents i


section Image

variable {S : StorageHand ι} {fd : FatData} {I : FatCache → Prop} {next : Int → Int}
  {dir : FatFile} {name : List UInt8}

/-- A read at the offset of element `k` keeps the cache as it should be; if it
    succeeds, there is such an element. -/
theorem Follows.read (h : Follows S fd I next) (hfd : DirLayout fd) (hdir : dir.directory = true)
    (hstart : DirStart fd dir.firstCluster) {s : FatState ι} (hs : I s.cache) {buf : Int → UInt8}
    {k : Nat} {ret : Int} {buf' : Int → UInt8} {t : FatState ι}
    (hread : fatFileRead S fd dir s buf fd.clusterSize (k * fd.clusterSize : Nat)
      = (.ret ret, buf', t)) : I t.cache := by
  obtain ⟨t', ht', hread'⟩ := fatFileRead_follows h hfd hdir hstart hs buf k
  rw [hread'] at hread
  cases hk : chainAt next k dir.firstCluster with
  | none =>
      rw [hk] at hread
      rwa [← (Prod.mk.inj (Prod.mk.inj hread).2).2]
  | some d =>
      rw [hk] at hread
      dsimp only at hread
      cases hres : S.read t'.dev d fd.clusterSize with
      | mk res dev =>
          rw [fatCopy_cluster hfd.cluster_pos hfd.cluster_lt buf d hres] at hread
          split at hread
          · rwa [← (Prod.mk.inj (Prod.mk.inj hread).2).2]
          · rwa [← (Prod.mk.inj (Prod.mk.inj hread).2).2]

/-- From element `k` on, a search goes through the elements of the chain. -/
theorem Examines.chain (h : Follows S fd I next) (hfd : DirLayout fd)
    (hdir : dir.directory = true) (hstart : DirStart fd dir.firstCluster)
    (hacyclic : Acyclic next dir.firstCluster) {s : FatSearch ι} {pos : Int} {l : List Int}
    (hl : Examines S fd dir name s pos l) {k : Nat} (hs : I s.lookup.cache)
    (hpos : pos = (k * fd.clusterSize : Nat)) :
    ∀ j < l.length, chainAt next (k + j) dir.firstCluster = l[j]? := by
  induction hl generalizing k with
  | here s pos => exact fun j hj => absurd hj (Nat.not_lt_zero j)
  | @on s pos cluster off t lookup dirents clusters hskip hread hscan hrest ih =>
      subst hpos
      obtain ⟨t', -, hskip'⟩ := fatSkip_follows h hfd (Nat.le_refl (k * fd.clusterSize)) hs hstart
      rw [Int.toNat_natCast, hskip'] at hskip
      cases hk : chainAt next k dir.firstCluster with
      | none =>
          -- the read would have failed
          rw [hk] at hskip
          exact absurd (Prod.mk.inj hskip).1 nofun
      | some d =>
          rw [hk] at hskip
          have hok := Except.ok.inj (Prod.mk.inj hskip).1
          obtain rfl : d = cluster := (Prod.mk.inj hok).1
          have hrest' := ih (h.read hfd hdir hstart hs hread) (h.links.offset_next hfd hacyclic hk)
          intro j hj
          cases j with
          | zero => exact hk
          | succ j =>
              rw [List.getElem?_cons_succ, ← hrest' j (Nat.lt_of_succ_lt_succ hj), Nat.add_succ,
                Nat.succ_add]

/-- In a chain without a cycle no cluster is gone through twice. -/
theorem Examines.nodup (h : Follows S fd I next) (hfd : DirLayout fd)
    (hdir : dir.directory = true) (hstart : DirStart fd dir.firstCluster)
    (hacyclic : Acyclic next dir.firstCluster) {s : FatSearch ι} (hs : I s.lookup.cache)
    {l : List Int} (hl : Examines S fd dir name s 0 l) : l.Nodup := by
  apply hacyclic.nodup
  intro k hk
  have hchain := hl.chain h hfd hdir hstart hacyclic (k := 0) hs (by rw [Nat.zero_mul]; rfl) k hk
  rwa [Nat.zero_add] at hchain

end Image

end LBoot.Storage
