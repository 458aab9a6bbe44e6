/-
  LBoot.Storage.FatRead

  What `_fat_file_read` puts into the caller's buffer.

  On a well-formed volume both loops follow the cluster chain of the file
  (`fatSkip_spec`, `fatCopy_spec`).  From the start of a cluster on, the copy
  is exact.  A read that starts inside a cluster is exact too if it ends
  there; if it goes on, the first copy takes the beginning of the cluster
  instead of its end, and the next one is placed a whole cluster further on.
  The buffer then holds the file from the start of that cluster, with a gap
  (`fatFileRead_exact_iff`): the result is only right where the bytes happen
  to agree.
-/

import LBoot.Storage.FatLookup
import Mathlib.Data.List.Nodup
import Mathlib.Data.List.Perm.Subperm

namespace LBoot.Storage

open LBoot.Lib

variable {ι : Type*}

/-- The clusters of a file, in order, as the FAT links them. -/
structure FatChain (fd : FatData) (vol : Int → UInt8) (chain : List Nat) : Prop where
  nodup : chain.Nodup
  range : ∀ c ∈ chain, 2 ≤ c ∧ c ≤ 0xff0
  inFat : ∀ c ∈ chain, fd.fatOffset + (c * 3 / 2 : Nat) + 1 < fd.dataOffset
  inVolume : ∀ c ∈ chain, clusterAddr fd c + fd.clusterSize ≤ 2 ^ 31
  link : ∀ k c d, chain[k]? = some c → chain[k + 1]? = some d → fatEntryAt fd vol c = d

/-- The bytes of a cluster. -/
def clusterBytes (fd : FatData) (vol : Int → UInt8) (c : Nat) : List UInt8 :=
  loadAt vol (clusterAddr fd c) fd.clusterSize

/-- The clusters of a file, concatenated in chain order. -/
def fileContent (fd : FatData) (vol : Int → UInt8) (chain : List Nat) : List UInt8 :=
  (chain.map (clusterBytes fd vol)).flatten

/-- A non-empty regular file on the volume, whose chain is long enough. -/
structure FatFileOn (fd : FatData) (vol : Int → UInt8) (file : FatFile) (chain : List Nat) :
    Prop where
  regular : file.directory = false
  nonempty : 0 < file.size
  first : ∃ c, chain[0]? = some c ∧ file.firstCluster = clusterAddr fd c
  size_le : file.size ≤ chain.length * fd.clusterSize

/-- The read returned `sz`, and the buffer starts with these bytes. -/
def ReadsExactly (r : FatRet × (Int → UInt8) × FatState ι) (sz : Nat) (expected : List UInt8) :
    Prop :=
  r.1 = .ret sz ∧ loadAt r.2.1 0 sz = expected

/-- The file from the start of the cluster of `off` on agrees, byte by byte,
    with the file from `off` on; in the gap the old contents of the buffer
    do. -/
def Coincides (fd : FatData) (content : List UInt8) (buf : Int → UInt8) (off sz : Nat) : Prop :=
  ∀ j < sz,
    (if fd.clusterSize - off % fd.clusterSize ≤ j ∧ j < fd.clusterSize then buf j
      else content.getD (off - off % fd.clusterSize + j) 0) = content.getD (off + j) 0

section Read

variable {S : StorageHand ι} {fd : FatData} {vol : Int → UInt8} {chain : List Nat}

/-! ## The chain -/

namespace FatChain

/-- A chain without repetition is no longer than the FAT. -/
theorem length_le (h : FatChain fd vol chain) : chain.length ≤ 0xff1 := by
  have hsub : chain ⊆ List.range 0xff1 := fun c hc =>
    List.mem_range.mpr (Nat.lt_succ_of_le (h.range c hc).2)
  have hle := (h.nodup.subperm hsub).length_le
  rwa [List.length_range] at hle

/-- One step along the chain. -/
theorem next (h : FatChain fd vol chain) (hS : Delivers S vol) (hfd : Fat12Layout fd)
    {s : FatState ι} (hs : CacheMatches fd vol s.cache) {k c d : Nat} (hc : chain[k]? = some c)
    (hd : chain[k + 1]? = some d) :
    ∃ t, fatGetNextCluster S fd s (clusterAddr fd c) = (clusterAddr fd d, t) ∧
      CacheMatches fd vol t.cache ∧ clusterAddr fd d ≠ 0 := by
  have hcm := List.mem_of_getElem? hc
  have hdm := List.mem_of_getElem? hd
  have hpos := hfd.data_pos
  have hcs := hfd.cluster_pos
  have hvol := h.inVolume d hdm
  have hge : fd.dataOffset ≤ clusterAddr fd d := by
    rw [clusterAddr]
    omega
  have hfat := h.inFat c hcm
  obtain ⟨hcache, hval⟩ := fatGetNextCluster_spec hS hfd hs (h.range c hcm) (by omega)
    (h.range d hdm) (h.link k c d hc hd) (by omega)
  exact ⟨_, Prod.ext hval rfl, hcache, by omega⟩

end FatChain

theorem blocks_length (fd : FatData) (vol : Int → UInt8) (chain : List Nat) :
    ∀ bs ∈ chain.map (clusterBytes fd vol), bs.length = fd.clusterSize := by
  intro bs hbs
  obtain ⟨c, -, rfl⟩ := List.mem_map.mp hbs
  exact length_loadAt _ _ _

theorem fileContent_length (fd : FatData) (vol : Int → UInt8) (chain : List Nat) :
    (fileContent fd vol chain).length = chain.length * fd.clusterSize := by
  rw [fileContent, length_flatten_blocks (blocks_length fd vol chain), List.length_map]

/-- The file from cluster `k` on. -/
theorem fileContent_drop {k c : Nat} (hc : chain[k]? = some c) :
    (fileContent fd vol chain).drop (k * fd.clusterSize)
      = clusterBytes fd vol c ++ (fileContent fd vol chain).drop ((k + 1) * fd.clusterSize) := by
  apply drop_flatten_blocks (blocks_length fd vol chain)
  rw [List.getElem?_map, hc]
  rfl

/-! ## The two loops -/

/-- Behind a whole cluster there is another, if there is anything. -/
theorem succ_lt_of_mul_lt {k n size : Nat} (h : k * size + size < n * size) : k + 1 < n := by
  rw [← Nat.succ_mul] at h
  exact Nat.lt_of_mul_lt_mul_right h

/-- The first loop ends at the cluster that holds the byte at `off`. -/
theorem fatSkip_spec (hS : Delivers S vol) (hfd : Fat12Layout fd) (h : FatChain fd vol chain)
    {fuel : Nat} : ∀ {s : FatState ι} {off k c : Nat}, chain[k]? = some c →
      CacheMatches fd vol s.cache → off ≤ fuel → k * fd.clusterSize + off < chain.length * fd.clusterSize →
      ∃ t d, fatSkip S fd fuel s (clusterAddr fd c) off
          = (.ok (clusterAddr fd d, (off % fd.clusterSize : Nat)), t) ∧
        CacheMatches fd vol t.cache ∧ chain[k + off / fd.clusterSize]? = some d := by
  have hcs := hfd.cluster_pos
  induction fuel with
  | zero =>
      intro s off k c hc hs hfuel _
      obtain rfl : off = 0 := Nat.le_zero.mp hfuel
      refine ⟨s, c, ?_, hs, by rwa [Nat.zero_div, Nat.add_zero]⟩
      rw [fatSkip, if_neg (by omega), Nat.zero_mod]
  | succ fuel ih =>
      intro s off k c hc hs hfuel hlen
      by_cases hge : fd.clusterSize ≤ off
      · -- the next cluster exists, because the offset is inside the chain
        have hk : k + 1 < chain.length := @succ_lt_of_mul_lt k _ fd.clusterSize (by omega)
        obtain ⟨t, hnext, hcache, hne⟩ := h.next hS hfd hs hc (List.getElem?_eq_getElem hk)
        obtain ⟨t', d, hskip, hcache', hd⟩ := @ih t (off - fd.clusterSize) (k + 1) chain[k + 1]
          (List.getElem?_eq_getElem hk) hcache (by omega) (by rw [Nat.succ_mul]; omega)
        have hsplit : off = off - fd.clusterSize + fd.clusterSize := by omega
        refine ⟨t', d, ?_, hcache', ?_⟩
        · rw [fatSkip, if_pos (by omega), hnext]
          dsimp only
          rw [if_neg hne]
          have hcast : (off : Int) - fd.clusterSize = (off - fd.clusterSize : Nat) := by omega
          rw [hcast, hskip]
          conv_rhs => rw [hsplit, Nat.add_mod_right]
        · rw [hsplit, Nat.add_div_right _ hcs, Nat.add_succ, ← Nat.succ_add]
          exact hd
      · -- the offset lies in this cluster
        refine ⟨s, c, ?_, hs, ?_⟩
        · rw [fatSkip, if_neg (by omega), Nat.mod_eq_of_lt (by omega)]
        · rwa [Nat.div_eq_of_lt (by omega), Nat.add_zero]

/-- The second loop stops behind the last byte. -/
theorem fatCopy_done {sz pos : Nat} (h : sz ≤ pos) (fuel : Nat) (s : FatState ι)
    (buf : Int → UInt8) (cluster off : Int) :
    fatCopy S fd sz fuel s buf cluster off pos = (.ret sz, buf, s) := by
  cases fuel with
  | zero => rw [fatCopy, if_neg (by omega)]
  | succ fuel => rw [fatCopy, if_neg (by omega)]

/-- One iteration of the second loop, at the place `r` in cluster `c`. -/
theorem fatCopy_step (hS : Delivers S vol) (hfd : Fat12Layout fd) (h : FatChain fd vol chain)
    {s : FatState ι} {k c r sz pos : Nat} (hc : chain[k]? = some c)
    (hs : CacheMatches fd vol s.cache) (hr : r < fd.clusterSize) (hpos : pos < sz)
    (hsz : sz < 2 ^ 31) (fuel : Nat) (buf : Int → UInt8) :
    (sz - pos ≤ fd.clusterSize - r →
        ∃ t, fatCopy S fd sz (fuel + 1) s buf (clusterAddr fd c) r pos
          = (.ret sz, storeAt buf pos (((clusterBytes fd vol c).drop r).take (sz - pos)), t)) ∧
      (fd.clusterSize - r < sz - pos → ∀ d, chain[k + 1]? = some d →
        ∃ t, fatCopy S fd sz (fuel + 1) s buf (clusterAddr fd c) r pos
            = fatCopy S fd sz fuel t
              (storeAt buf pos ((clusterBytes fd vol c).take (fd.clusterSize - r)))
              (clusterAddr fd d) 0 (pos + fd.clusterSize) ∧
          CacheMatches fd vol t.cache) := by
  have hcs16 := hfd.cluster_lt
  have hread : (S.read s.dev (clusterAddr fd c) fd.clusterSize).1
      = (clusterBytes fd vol c, (fd.clusterSize : Int)) := hS _ _ _
  cases hres : S.read s.dev (clusterAddr fd c) fd.clusterSize with
  | mk res dev =>
      obtain ⟨bytes, ret⟩ := res
      rw [hres] at hread
      obtain ⟨rfl, rfl⟩ := Prod.mk.inj hread
      -- the cluster is in the scratch buffer
      have htmp := loadAt_storeAt s.tmp 0 (clusterBytes fd vol c)
      rw [clusterBytes, length_loadAt, ← clusterBytes] at htmp
      have hroom : toU32 ((fd.clusterSize : Int) - r) = fd.clusterSize - r := by
        rw [toU32_of_nonneg (by omega) (by omega)]
        omega
      have hnext : u32 (pos + fd.clusterSize) = pos + fd.clusterSize := u32_of_lt (by omega)
      rw [fatCopy, if_pos hpos, hres]
      simp only [ne_eq, not_true, if_false, hroom, hnext]
      constructor
      · intro hlast
        refine ⟨{ s with dev, tmp := storeAt s.tmp 0 (clusterBytes fd vol c) }, ?_⟩
        rw [if_pos hlast, fatCopy_done (by omega)]
        have hload : loadAt (storeAt s.tmp 0 (clusterBytes fd vol c)) r (sz - pos)
            = ((clusterBytes fd vol c).drop r).take (sz - pos) := by
          rw [← htmp, drop_loadAt _ _ (Nat.le_of_lt hr), take_loadAt _ _ (by omega), htmp,
            Int.zero_add]
        rw [← hload]
      · intro hmore d hd
        have hs' : CacheMatches fd vol ({ s with
            dev, tmp := storeAt s.tmp 0 (clusterBytes fd vol c) } : FatState ι).cache := hs
        obtain ⟨t, hnextc, hcache, hne⟩ := h.next hS hfd hs' hc hd
        refine ⟨t, ?_, hcache⟩
        have hload : loadAt (storeAt s.tmp 0 (clusterBytes fd vol c)) 0 (fd.clusterSize - r)
            = (clusterBytes fd vol c).take (fd.clusterSize - r) := by
          rw [← htmp, take_loadAt _ _ (by omega), htmp]
        rw [if_neg (by omega), ← hload]
        simp only [hnextc, hne, if_false]

/-- From the start of cluster `k` on, the second loop copies the file. -/
theorem fatCopy_spec (hS : Delivers S vol) (hfd : Fat12Layout fd) (h : FatChain fd vol chain)
    {sz : Nat} (hsz : sz < 2 ^ 31) {fuel : Nat} :
    ∀ {s : FatState ι} {buf : Int → UInt8} {k c pos : Nat}, chain[k]? = some c →
      CacheMatches fd vol s.cache → sz ≤ pos + fuel →
      k * fd.clusterSize + (sz - pos) ≤ chain.length * fd.clusterSize →
      ∃ t, fatCopy S fd sz fuel s buf (clusterAddr fd c) 0 pos
        = (.ret sz, storeAt buf pos
            (((fileContent fd vol chain).drop (k * fd.clusterSize)).take (sz - pos)), t) := by
  have hcs := hfd.cluster_pos
  induction fuel with
  | zero =>
      intro s buf k c pos _ _ hfuel _
      rw [Nat.add_zero] at hfuel
      refine ⟨s, ?_⟩
      rw [fatCopy_done hfuel, Nat.sub_eq_zero_of_le hfuel, List.take_zero, storeAt_nil]
  | succ fuel ih =>
      intro s buf k c pos hc hs hfuel hlen
      have hlenc : (clusterBytes fd vol c).length = fd.clusterSize := length_loadAt _ _ _
      rcases Nat.lt_or_ge pos sz with hpos | hpos
      · obtain ⟨hlast, hmore⟩ := @fatCopy_step _ S fd vol chain hS hfd h s k c 0 sz pos hc hs hcs
          hpos hsz fuel buf
        rw [Nat.sub_zero] at hlast hmore
        rcases Nat.lt_or_ge fd.clusterSize (sz - pos) with hlt | hge
        · -- a whole cluster, and on from the next
          have hk : k + 1 < chain.length := @succ_lt_of_mul_lt k _ fd.clusterSize (by omega)
          obtain ⟨t, hstep, hcache⟩ := hmore hlt chain[k + 1] (List.getElem?_eq_getElem hk)
          obtain ⟨t', hrest⟩ := @ih t (storeAt buf pos (clusterBytes fd vol c)) (k + 1)
            chain[k + 1] (pos + fd.clusterSize) (List.getElem?_eq_getElem hk) hcache (by omega)
            (by rw [Nat.succ_mul]; omega)
          refine ⟨t', ?_⟩
          rw [Nat.cast_zero] at hstep
          have hcast : ((pos + fd.clusterSize : Nat) : Int)
              = pos + (clusterBytes fd vol c).length := by
            rw [hlenc, Nat.cast_add]
          rw [hstep, List.take_of_length_le (Nat.le_of_eq hlenc), hrest, hcast, storeAt_append,
            fileContent_drop hc, List.take_append, hlenc, Nat.sub_sub,
            List.take_of_length_le (l := clusterBytes fd vol c) (by omega)]
        · -- the rest of the read lies in this cluster
          obtain ⟨t, hstep⟩ := hlast hge
          refine ⟨t, ?_⟩
          rw [Nat.cast_zero] at hstep
          rw [hstep, List.drop_zero, fileContent_drop hc, List.take_append_of_le_length (by omega)]
      · exact ⟨s, by rw [fatCopy_done hpos, Nat.sub_eq_zero_of_le hpos, List.take_zero,
          storeAt_nil]⟩

/-! ## The whole read -/

/-- A read that goes on behind its first cluster, starting at the place `r` in
    it, leaves the buffer as described: the file from the start of that
    cluster, and the old bytes where the first copy fell short. -/
def gappedBuf (fd : FatData) (content : List UInt8) (buf : Int → UInt8) (k r sz : Nat) :
    Int → UInt8 :=
  storeAt (storeAt buf 0 ((content.drop (k * fd.clusterSize)).take (fd.clusterSize - r)))
    fd.clusterSize ((content.drop ((k + 1) * fd.clusterSize)).take (sz - fd.clusterSize))

/-- The whole read, on both sides of the branch that goes wrong. -/
theorem fatFileRead_spec (hS : Delivers S vol) (hfd : Fat12Layout fd)
    (h : FatChain fd vol chain) {file : FatFile} (hfile : FatFileOn fd vol file chain)
    {s : FatState ι} (hs : CacheMatches fd vol s.cache) (buf : Int → UInt8) {sz off : Nat}
    (hsz : 1 ≤ sz) (hfit : off + sz ≤ file.size) :
    ∃ t, fatFileRead S fd file s buf sz off
      = (.ret sz, if off % fd.clusterSize + sz ≤ fd.clusterSize then
            storeAt buf 0 (((fileContent fd vol chain).drop off).take sz)
          else gappedBuf fd (fileContent fd vol chain) buf (off / fd.clusterSize)
            (off % fd.clusterSize) sz, t) := by
  have hcs := hfd.cluster_pos
  have hcs16 := hfd.cluster_lt
  have hsize := hfile.size_le
  have hmax : chain.length * fd.clusterSize ≤ 0xff1 * 2 ^ 16 :=
    Nat.mul_le_mul h.length_le (Nat.le_of_lt hcs16)
  have hr := Nat.mod_lt off hcs
  have hdiv := Nat.div_add_mod' off fd.clusterSize
  obtain ⟨c₀, hc₀, hfirst⟩ := hfile.first
  -- the read is inside the file, so it is not refused
  have hbound : ¬ (¬ file.directory = true ∧ toU32 ((off : Int) + sz) > file.size) := by
    rintro ⟨-, hgt⟩
    rw [toU32_of_nonneg (by omega) (by omega)] at hgt
    omega
  -- over the clusters in front, and the first round of the copy
  obtain ⟨t, c, hskip, hcache, hc⟩ := @fatSkip_spec _ S fd vol chain hS hfd h off s off 0 c₀ hc₀ hs
    (Nat.le_refl off) (by omega)
  rw [Nat.zero_add] at hc
  have hlenc : (clusterBytes fd vol c).length = fd.clusterSize := length_loadAt _ _ _
  obtain ⟨fuel, rfl⟩ : ∃ fuel, sz = fuel + 1 := ⟨sz - 1, by omega⟩
  obtain ⟨hlast, hmore⟩ := @fatCopy_step _ S fd vol chain hS hfd h t _ c (off % fd.clusterSize)
    (fuel + 1) 0 hc hcache hr (by omega) (by omega) fuel buf
  rw [fatFileRead, if_neg hbound, Int.toNat_natCast, hfirst, hskip]
  dsimp only
  rw [Nat.sub_zero, Nat.cast_zero] at hlast hmore
  by_cases hin : off % fd.clusterSize + (fuel + 1) ≤ fd.clusterSize
  · -- all of it lies in one cluster
    obtain ⟨t', hstep⟩ := hlast (by omega)
    refine ⟨t', ?_⟩
    have hslice : ((fileContent fd vol chain).drop off).take (fuel + 1)
        = ((clusterBytes fd vol c).drop (off % fd.clusterSize)).take (fuel + 1) := by
      conv_lhs => rw [← hdiv, ← List.drop_drop, fileContent_drop hc]
      rw [List.drop_append_of_le_length (by omega),
        List.take_append_of_le_length (by rw [List.length_drop]; omega)]
    rw [hstep, if_pos hin, hslice]
  · rw [if_neg hin]
    have hk : off / fd.clusterSize + 1 < chain.length := by
      by_contra hn
      have hmul : chain.length * fd.clusterSize ≤ (off / fd.clusterSize + 1) * fd.clusterSize :=
        Nat.mul_le_mul_right _ (by omega)
      rw [Nat.succ_mul] at hmul
      omega
    obtain ⟨t', hstep, hcache'⟩ := hmore (by omega) chain[off / fd.clusterSize + 1]
      (List.getElem?_eq_getElem hk)
    obtain ⟨t'', hrest⟩ := @fatCopy_spec _ S fd vol chain hS hfd h (fuel + 1) (by omega) fuel t'
      (storeAt buf 0 ((clusterBytes fd vol c).take (fd.clusterSize - off % fd.clusterSize)))
      (off / fd.clusterSize + 1) _ fd.clusterSize (List.getElem?_eq_getElem hk) hcache'
      (by omega) (by rw [Nat.succ_mul]; omega)
    refine ⟨t'', ?_⟩
    rw [hstep, Nat.zero_add, hrest, gappedBuf, fileContent_drop hc,
      List.take_append_of_le_length (by omega)]

/-- The bytes of the gapped buffer. -/
theorem gappedBuf_apply {content : List UInt8} {buf : Int → UInt8} {k r sz j : Nat}
    (hlen : k * fd.clusterSize + sz ≤ content.length) (hr : fd.clusterSize - r ≤ sz)
    (hj : j < sz) :
    gappedBuf fd content buf k r sz j
      = if fd.clusterSize - r ≤ j ∧ j < fd.clusterSize then buf j
        else content.getD (k * fd.clusterSize + j) 0 := by
  -- a byte of a block that is stored is a byte of the content
  have hstored : ∀ (m : Int → UInt8) (a n l i : Nat), n + l ≤ content.length → i < l →
      storeAt m a ((content.drop n).take l) (a + i : Nat) = content.getD (n + i) 0 := by
    intro m a n l i hnl hi
    have hlt : i < ((content.drop n).take l).length := by
      rw [List.length_take, List.length_drop]
      omega
    rw [Nat.cast_add, storeAt_of_inside hlt, List.getElem_take, List.getElem_drop,
      List.getD_eq_getElem _ _ (by omega)]
  rw [gappedBuf]
  rcases Nat.lt_or_ge j fd.clusterSize with hlt | hge
  · rw [storeAt_of_outside (Or.inl (by omega))]
    by_cases hgap : fd.clusterSize - r ≤ j
    · rw [if_pos ⟨hgap, hlt⟩]
      apply storeAt_of_outside
      right
      rw [List.length_take]
      omega
    · rw [if_neg (by omega)]
      have hfirst := hstored buf 0 (k * fd.clusterSize) (fd.clusterSize - r) j (by omega)
        (by omega)
      rwa [Nat.zero_add] at hfirst
  · rw [if_neg (by omega)]
    have hrest := hstored (storeAt buf 0 ((content.drop (k * fd.clusterSize)).take
      (fd.clusterSize - r))) fd.clusterSize ((k + 1) * fd.clusterSize) (sz - fd.clusterSize)
      (j - fd.clusterSize) (by rw [Nat.succ_mul]; omega) (by omega)
    rw [Nat.add_sub_cancel' hge, Nat.succ_mul, Nat.add_assoc, Nat.add_sub_cancel' hge] at hrest
    rw [Nat.succ_mul]
    exact hrest

/-- On every well-formed volume, with every cache that matches it and every
    non-empty regular file: a read inside the file returns `sz` and exactly
    the bytes asked for if and only if it starts at a cluster, or ends in the
    cluster it starts in, or the bytes put in the wrong place happen to be
    equal to the right ones. -/
theorem fatFileRead_exact_iff (hS : Delivers S vol) (hfd : Fat12Layout fd)
    (h : FatChain fd vol chain) (file : FatFile) (hfile : FatFileOn fd vol file chain)
    (s : FatState ι) (hs : CacheMatches fd vol s.cache) (buf : Int → UInt8) (sz off : Nat)
    (hsz : 1 ≤ sz) (hfit : off + sz ≤ file.size) :
    ReadsExactly (fatFileRead S fd file s buf sz off) sz
        (((fileContent fd vol chain).drop off).take sz) ↔
      off % fd.clusterSize = 0 ∨ off % fd.clusterSize + sz ≤ fd.clusterSize ∨
        Coincides fd (fileContent fd vol chain) buf off sz := by
  obtain ⟨t, hread⟩ := fatFileRead_spec hS hfd h hfile hs buf hsz hfit
  have hlen := fileContent_length fd vol chain
  have hsize := hfile.size_le
  have hdiv := Nat.div_add_mod' off fd.clusterSize
  have hr := Nat.mod_lt off hfd.cluster_pos
  have hslice : (((fileContent fd vol chain).drop off).take sz).length = sz := by
    rw [List.length_take, List.length_drop]
    omega
  rw [hread, ReadsExactly]
  by_cases hin : off % fd.clusterSize + sz ≤ fd.clusterSize
  · rw [if_pos hin]
    have hload := loadAt_storeAt buf 0 (((fileContent fd vol chain).drop off).take sz)
    rw [hslice] at hload
    exact ⟨fun _ => Or.inr (Or.inl hin), fun _ => ⟨rfl, hload⟩⟩
  · rw [if_neg hin, loadAt_eq_iff hslice]
    have hbytes : (∀ j < sz, (((fileContent fd vol chain).drop off).take sz)[j]?
          = some (gappedBuf fd (fileContent fd vol chain) buf (off / fd.clusterSize)
            (off % fd.clusterSize) sz (0 + (j : Int)))) ↔
        Coincides fd (fileContent fd vol chain) buf off sz := by
      have hstart : off - off % fd.clusterSize = off / fd.clusterSize * fd.clusterSize := by omega
      refine forall_congr' fun j => forall_congr' fun hj => ?_
      rw [Int.zero_add, gappedBuf_apply (by omega) (by omega) hj, hstart, List.getElem?_take_of_lt hj,
        List.getElem?_drop, List.getElem?_eq_getElem (by omega), Option.some.injEq,
        List.getD_eq_getElem (l := fileContent fd vol chain) (n := off + j) _ (by omega)]
      exact eq_comm
    rw [hbytes]
    constructor
    · exact fun hco => Or.inr (Or.inr hco.2)
    · rintro (hzero | hone | hco)
      · -- from the start of a cluster there is no gap
        refine ⟨rfl, fun j _ => ?_⟩
        rw [hzero, if_neg (by omega), Nat.sub_zero]
      · exact absurd hone hin
      · exact ⟨rfl, hco⟩

end Read

/-! ## A volume of two clusters -/

namespace TwoClusters

/-- Sectors and clusters of 512 bytes, one sector of FAT. -/
def fd : FatData := ⟨512, 512, 512, 1024, 1024⟩

/-- Cluster 2 is followed by cluster 3, the last one. -/
def vol (x : Int) : UInt8 :=
  if x = 515 then 0x03 else if x = 516 then 0xf0 else if x = 517 then 0xff
  else if 1024 ≤ x ∧ x < 2048 then UInt8.ofNat x.toNat else 0

def storage : StorageHand Unit := ⟨fun d off n => ((loadAt vol off n, n), d)⟩

/-- A file of both clusters. -/
def file : FatFile := ⟨false, 1024, 1024⟩

/-- No sector of the FAT is cached. -/
def start : FatState Unit := ⟨(), ⟨fun _ => 4096, fun _ => 0, fun _ => 0⟩, fun _ => 0⟩

theorem delivers : Delivers storage vol := fun _ _ _ => rfl

theorem layout : Fat12Layout fd where
  sector_pos := by decide
  cluster_pos := by decide
  cluster_lt := by decide
  sector_dvd := by decide
  fat_nonneg := by decide
  fat_le_data := by decide
  data_pos := by decide

theorem chain_two : FatChain fd vol [2, 3] where
  nodup := by decide
  range := by decide
  inFat := by decide
  inVolume := by decide
  link k c d hc hd := by
    match k with
    | 0 =>
        cases hc
        cases hd
        decide +kernel
    | 1 => cases hd
    | _ + 2 => cases hc

theorem file_two : FatFileOn fd vol file [2, 3] where
  regular := rfl
  nonempty := by decide
  first := ⟨2, rfl, rfl⟩
  size_le := by decide

theorem start_matches : CacheMatches fd vol start.cache := by
  -- behind the last cluster the volume is zero
  apply cacheMatches_const (y := 0) fun _ => rfl
  intro i j
  have hclust : start.cache.clust i = 4096 := rfl
  rw [hclust, vol, if_neg (by omega), if_neg (by omega), if_neg (by omega), if_neg (by omega)]

end TwoClusters

/-- The theorem on a read from the start of a file into its second cluster. -/
theorem fatFileRead_exact_iff_start :
    ReadsExactly (fatFileRead TwoClusters.storage TwoClusters.fd TwoClusters.file
        TwoClusters.start (fun _ => 0) 600 0) 600
      ((fileContent TwoClusters.fd TwoClusters.vol [2, 3]).take 600) :=
  (fatFileRead_exact_iff TwoClusters.delivers TwoClusters.layout TwoClusters.chain_two
    TwoClusters.file TwoClusters.file_two TwoClusters.start TwoClusters.start_matches _ 600 0
    (by decide) (by decide)).mpr (Or.inl rfl)

/-- The unconditional statement fails: two bytes across a cluster boundary,
    the first of which is taken from the start of its cluster. -/
theorem fatFileRead_misplaced :
    ¬ ∀ (S : StorageHand Unit) (fd : FatData) (vol : Int → UInt8) (chain : List Nat)
      (file : FatFile) (s : FatState Unit) (buf : Int → UInt8) (sz off : Nat),
      Delivers S vol → Fat12Layout fd → FatChain fd vol chain → FatFileOn fd vol file chain →
      CacheMatches fd vol s.cache → 1 ≤ sz → off + sz ≤ file.size →
        ReadsExactly (fatFileRead S fd file s buf sz off) sz
          (((fileContent fd vol chain).drop off).take sz) := by
  intro hall
  have hread := (hall _ _ _ _ _ _ (fun _ => 0) 2 511 TwoClusters.delivers TwoClusters.layout
    TwoClusters.chain_two TwoClusters.file_two TwoClusters.start_matches (by decide)
    (by decide)).2
  have hwrong : (loadAt (fatFileRead TwoClusters.storage TwoClusters.fd TwoClusters.file
      TwoClusters.start (fun _ => 0) 2 (511 : Nat)).2.1 0 2)[0]? = some 0 := by
    decide +kernel
  have hright : (((fileContent TwoClusters.fd TwoClusters.vol [2, 3]).drop 511).take 2)[0]?
      = some 255 := by
    decide +kernel
  rw [hread, hright] at hwrong
  exact absurd hwrong (by decide)

end LBoot.Storage
