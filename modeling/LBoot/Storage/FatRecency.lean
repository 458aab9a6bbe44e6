/-
  LBoot.Storage.FatRecency

  What the FAT cache keeps.

  The cache is meant to hold the sectors used last, and `rank` to say which of
  its slots was used longest ago.  That works as long as the ranks are spread:
  no more than `t` of them below `t`.  `fs_fat_init` does not set the ranks,
  and looking up sectors neither spreads them nor brings them together, so it
  is the bytes that happened to lie there that decide (`fat_cache_lru_iff`).
  In memory that was all zero every sector goes to the same slot
  (`fat_cache_zero_ranks`).
-/

import LBoot.Lib.Recency
import LBoot.Storage.FatCoherence
import Mathlib.Data.Fintype.EquivFin

namespace LBoot.Storage

open LBoot.Lib

variable {ι : Type*}

/-! ## Lookups that succeed -/

/-- The address of the sector a lookup is of. -/
def FatLookup.sector (fd : FatData) (l : FatLookup ι) : Int := l.off - l.off.tmod fd.sectorSize

/-- The cache behind lookups, if all of them succeed. -/
def fatLookupAll (S : StorageHand ι) (fd : FatData) :
    FatCache → List (FatLookup ι) → Option FatCache
  | c, [] => some c
  | c, l :: ls =>
      match fatFetch S fd ⟨l.dev, c, l.tmp⟩ (l.sector fd) with
      | (false, _) => none
      | (true, s) => fatLookupAll S fd s.cache ls

/-- The sectors used last, in the order of their use: as many as there are
    slots. -/
def lastSectors (fd : FatData) (ls : List (FatLookup ι)) : List Int :=
  (recent (ls.map (FatLookup.sector fd))).take fatCacheCnt

/-- The cache holds the sectors used last, and the ranks of their slots are
    distinct. -/
structure HoldsLast (fd : FatData) (c : FatCache) (sectors : List Int) : Prop where
  /-- looking one up again is a hit, and the storage is not read -/
  hit : ∀ a ∈ sectors, ∀ (κ : Type) (S : StorageHand κ) (s : FatState κ), s.cache = c →
    (fatFetch S fd s a).1 = true ∧ (fatFetch S fd s a).2.dev = s.dev
  rank_ne : ∀ a ∈ sectors, ∀ b ∈ sectors, a ≠ b → ∀ i j, fatCacheFind c a = some i →
    fatCacheFind c b = some j → c.rank i ≠ c.rank j

/-- From this cache memory on: whatever volume is initialised, and whatever is
    looked up successfully, the cache holds the sectors used last. -/
def KeepsLast (c : FatCache) : Prop :=
  ∀ (ι : Type) (S : StorageHand ι) (s : FatState ι) (off : Int) (fs : FsHand),
    s.cache = c → (fsFatInit S s off).1 = some fs →
    ∀ (ls : List (FatLookup ι)) (c' : FatCache),
      fatLookupAll S fs.fdata (fsFatInit S s off).2.cache ls = some c' →
        HoldsLast fs.fdata c' (lastSectors fs.fdata ls)

section Step

variable {S : StorageHand ι} {fd : FatData} {c : FatCache}

/-- A sector that is found needs no storage, and one that is not found cannot
    do without. -/
theorem fatFetch_found {a : Int} {i : Fin fatCacheCnt} (h : fatCacheFind c a = some i)
    (S : StorageHand ι) (dev : ι) (tmp : Int → UInt8) :
    (fatFetch S fd ⟨dev, c, tmp⟩ a).1 = true ∧ (fatFetch S fd ⟨dev, c, tmp⟩ a).2.dev = dev := by
  rw [fatFetch, fatTryCache, h]
  exact ⟨rfl, rfl⟩

/-- A device that always fails. -/
def noDev : StorageHand Unit := ⟨fun d _ _ => (([], -1), d)⟩

theorem fatFetch_noDev {a : Int} (h : (fatFetch noDev fd ⟨(), c, fun _ => 0⟩ a).1 = true) :
    (fatCacheFind c a).isSome := by
  cases hfind : fatCacheFind c a with
  | some i => rfl
  | none =>
      rw [fatFetch, fatTryCache, hfind] at h
      dsimp only [noDev] at h
      rw [if_pos (by omega)] at h
      cases h

theorem fatCacheTouch_rank (c : FatCache) (i : Fin fatCacheCnt) :
    (fatCacheTouch c i).rank = touchRank c.rank i := rfl

/-- A slot of rank zero is not touched; it would make no difference. -/
theorem fatCacheTouch_zero {i : Fin fatCacheCnt} (h : c.rank i = 0) : fatCacheTouch c i = c := by
  have hrank : (fatCacheTouch c i).rank = c.rank := by
    funext j
    rw [fatCacheTouch_rank, touchRank, h]
    split
    · next hj => rw [hj, h]
    · rw [if_neg (Nat.not_lt_zero _)]
  rw [fatCacheTouch] at hrank ⊢
  dsimp only at hrank
  rw [hrank]

theorem rank_le_oldest (c : FatCache) (i : Fin fatCacheCnt) :
    c.rank i ≤ c.rank (fatCacheOldest c) := by
  have hmax : c.rank 0 ≤ c.rank (fatCacheOldest c) ∧ c.rank 1 ≤ c.rank (fatCacheOldest c) ∧
      c.rank 2 ≤ c.rank (fatCacheOldest c) ∧ c.rank 3 ≤ c.rank (fatCacheOldest c) := by
    rw [fatCacheOldest]
    simp only [List.foldl_cons, List.foldl_nil]
    split_ifs <;> omega
  match i with
  | 0 => exact hmax.1
  | 1 => exact hmax.2.1
  | 2 => exact hmax.2.2.1
  | 3 => exact hmax.2.2.2

/-- The slot of a lookup, the tags behind it, and the ranks. -/
theorem fatFetch_step {a : Int} {dev : ι} {tmp : Int → UInt8} {s : FatState ι}
    (h : fatFetch S fd ⟨dev, c, tmp⟩ a = (true, s)) :
    (∃ i, fatCacheFind c a = some i ∧ s.cache.clust = c.clust ∧
        s.cache.rank = touchRank c.rank i) ∨
      (fatCacheFind c a = none ∧
        (s.cache.clust = fun i => if i = fatCacheOldest c then a else c.clust i) ∧
        s.cache.rank = touchRank c.rank (fatCacheOldest c)) := by
  rw [fatFetch, fatTryCache] at h
  cases hfind : fatCacheFind c a with
  | some i =>
      rw [hfind] at h
      obtain ⟨-, rfl⟩ := Prod.mk.inj h
      refine Or.inl ⟨i, rfl, ?_⟩
      dsimp only
      split
      · exact ⟨rfl, rfl⟩
      · next hzero =>
          rw [← fatCacheTouch_rank, fatCacheTouch_zero (not_not.mp hzero)]
          exact ⟨rfl, rfl⟩
  | none =>
      rw [hfind] at h
      dsimp only at h
      split at h
      · cases h
      · obtain ⟨-, rfl⟩ := Prod.mk.inj h
        exact Or.inr ⟨rfl, rfl, rfl⟩

/-! ## The slots used last -/

/-- The tags of the slots `l`, in the order of their use, are the sectors used
    last; each of them is the first slot with its tag. -/
structure LastUsed (c : FatCache) (l : List (Fin fatCacheCnt)) (sectors : List Int) : Prop where
  ranked : Ranked c.rank l
  spread : Spread c.rank
  tags : l.map c.clust = sectors
  first : ∀ i ∈ l, fatCacheFind c (c.clust i) = some i

/-- Fewer candidates, with the one found among them. -/
theorem find?_of_imp {β : Type*} {p q : β → Bool} {l : List β} {b : β} (h : l.find? p = some b)
    (hb : q b = true) (himp : ∀ x, q x = true → p x = true) : l.find? q = some b := by
  rw [List.find?_eq_some_iff_append] at h ⊢
  obtain ⟨-, as, bs, heq, has⟩ := h
  refine ⟨hb, as, bs, heq, fun x hx => ?_⟩
  have hp := has x hx
  rw [Bool.not_eq_true'] at hp ⊢
  by_contra hq
  rw [himp x (by simpa using hq)] at hp
  cases hp

theorem map_toFront {β γ : Type*} [DecidableEq β] [DecidableEq γ] {f : β → γ} {i : β} {l : List β}
    (h : ∀ j ∈ l, f j = f i → j = i) : (toFront i l).map f = toFront (f i) (l.map f) := by
  rw [toFront, toFront, List.map_cons]
  congr 1
  induction l with
  | nil => rfl
  | cons b l ih =>
      rw [List.map_cons, List.erase_cons, List.erase_cons]
      by_cases hb : b = i
      · rw [if_pos (beq_iff_eq.mpr hb), if_pos (beq_iff_eq.mpr (congrArg f hb))]
      · have hfb : f b ≠ f i := fun heq => hb (h b List.mem_cons_self heq)
        rw [if_neg (by rwa [beq_iff_eq]), if_neg (by rwa [beq_iff_eq]), List.map_cons,
          ih fun j hj => h j (List.mem_cons_of_mem b hj)]

theorem LastUsed.length_le {l : List (Fin fatCacheCnt)} {sectors : List Int}
    (h : LastUsed c l sectors) : l.length ≤ fatCacheCnt := by
  have hle := h.ranked.nodup.length_le_card
  rwa [Fintype.card_fin] at hle

/-- A hit. -/
theorem LastUsed.hit {l : List (Fin fatCacheCnt)} {hs : List Int}
    (h : LastUsed c l ((recent hs).take fatCacheCnt)) {a : Int} {i : Fin fatCacheCnt}
    (hfind : fatCacheFind c a = some i) {c' : FatCache} (hclust : c'.clust = c.clust)
    (hrank : c'.rank = touchRank c.rank i) :
    LastUsed c' (toFront i l) ((recent (hs ++ [a])).take fatCacheCnt) := by
  have ha := fatCacheFind_clust hfind
  have hfind' : ∀ b, fatCacheFind c' b = fatCacheFind c b := fun b => by
    rw [fatCacheFind, fatCacheFind, hclust]
  have htags : (toFront i l).map c'.clust = toFront a (l.map c.clust) := by
    rw [hclust, map_toFront, ha]
    intro j hj heq
    have hj' := h.first j hj
    rw [heq, ha, hfind] at hj'
    exact (Option.some.inj hj').symm
  have hnodup : Ranked c'.rank (toFront i l) := by
    rw [hrank]
    exact h.ranked.touch h.spread i
  refine ⟨hnodup, ?_, ?_, fun j hj => ?_⟩
  · rw [hrank]
    exact spread_touch_iff.mpr h.spread
  · have hlen := hnodup.nodup.length_le_card
    rw [Fintype.card_fin] at hlen
    rw [recent_append, ← take_toFront, ← h.tags, ← htags, List.take_of_length_le]
    rwa [List.length_map]
  · rw [hfind', hclust]
    rcases (mem_toFront h.ranked.nodup).mp hj with rfl | hj
    · rw [ha]
      exact hfind
    · exact h.first j hj

/-- A miss: the slot used longest ago gets the sector. -/
theorem LastUsed.miss {l : List (Fin fatCacheCnt)} {hs : List Int}
    (h : LastUsed c l ((recent hs).take fatCacheCnt)) {a : Int} (hfind : fatCacheFind c a = none)
    {c' : FatCache} (hclust : c'.clust = fun i => if i = fatCacheOldest c then a else c.clust i)
    (hrank : c'.rank = touchRank c.rank (fatCacheOldest c)) :
    LastUsed c' (toFront (fatCacheOldest c) l) ((recent (hs ++ [a])).take fatCacheCnt) := by
  -- no slot has the tag yet
  have hno : ∀ i, c.clust i ≠ a := by
    intro i heq
    rw [fatCacheFind, List.find?_eq_none] at hfind
    exact hfind i (List.mem_finRange i) (by simpa using heq)
  have hold := h.ranked.oldest h.spread (rank_le_oldest c)
  generalize fatCacheOldest c = e at hclust hrank hold
  -- the slots in front of the one given up keep theirs
  have hkept : ∀ i ∈ l.erase e, c'.clust i = c.clust i := by
    intro i hi
    rw [hclust]
    exact if_neg (h.ranked.nodup.mem_erase_iff.mp hi).1
  refine ⟨?_, ?_, ?_, fun j hj => ?_⟩
  · rw [hrank]
    exact h.ranked.touch h.spread e
  · rw [hrank]
    exact spread_touch_iff.mpr h.spread
  · have hnew : a ∉ l.map c.clust := by
      intro hmem
      obtain ⟨i, -, hi⟩ := List.mem_map.mp hmem
      exact hno i hi
    have he : c'.clust e = a := by
      rw [hclust]
      exact if_pos rfl
    rw [recent_append, ← take_toFront, ← h.tags, toFront, toFront, List.map_cons, he,
      List.erase_of_not_mem hnew, List.map_congr_left hkept]
    rcases hold with ⟨hout, hlen⟩ | ⟨hin, hlen, hlast⟩
    · rw [Fintype.card_fin] at hlen
      rw [List.erase_of_not_mem hout, List.take_of_length_le]
      rw [List.length_cons, List.length_map]
      exact hlen
    · -- all slots are in use, and `e` is the last of them
      replace hlen : l.length = 4 := hlen.trans (Fintype.card_fin 4)
      have hidx : l.idxOf e = 3 := by omega
      rw [← List.eraseIdx_idxOf_eq_erase, hidx, List.eraseIdx_eq_take_drop_succ,
        List.drop_of_length_le (by omega), List.append_nil, List.take_succ_cons, List.map_take]
  · have htag (i : Fin fatCacheCnt) : c'.clust i = if i = e then a else c.clust i := by rw [hclust]
    -- a lookup finds the slot first that the list has first
    by_cases hje : j = e
    · subst hje
      rw [htag, if_pos rfl, fatCacheFind]
      cases hf : (List.finRange fatCacheCnt).find? fun i => c'.clust i = a with
      | none =>
          rw [List.find?_eq_none] at hf
          exact absurd (by simp [htag]) (hf j (List.mem_finRange j))
      | some x =>
          have hx : c'.clust x = a := by simpa using List.find?_some hf
          rw [htag] at hx
          split at hx
          · next hxe => rw [hxe]
          · exact absurd hx (hno x)
    · have hjl := ((mem_toFront h.ranked.nodup).mp hj).resolve_left hje
      rw [htag, if_neg hje]
      refine find?_of_imp (h.first j hjl) ?_ fun x hx => ?_
      · simp [htag, hje]
      · have hx : c'.clust x = c.clust j := by simpa using hx
        rw [htag] at hx
        split at hx
        · exact absurd hx.symm (hno j)
        · simpa using hx

/-- One lookup. -/
theorem LastUsed.step {l : List (Fin fatCacheCnt)} {hs : List Int}
    (h : LastUsed c l ((recent hs).take fatCacheCnt)) {a : Int} {dev : ι} {tmp : Int → UInt8}
    {s : FatState ι} (hfetch : fatFetch S fd ⟨dev, c, tmp⟩ a = (true, s)) :
    ∃ l', LastUsed s.cache l' ((recent (hs ++ [a])).take fatCacheCnt) := by
  rcases fatFetch_step hfetch with ⟨i, hfind, hclust, hrank⟩ | ⟨hfind, hclust, hrank⟩
  · exact ⟨_, h.hit hfind hclust hrank⟩
  · exact ⟨_, h.miss hfind hclust hrank⟩

/-- The first lookup of a run. -/
theorem fatLookupAll_cons {k : FatLookup ι} {ls : List (FatLookup ι)} {c' : FatCache}
    (hrun : fatLookupAll S fd c (k :: ls) = some c') :
    ∃ s, fatFetch S fd ⟨k.dev, c, k.tmp⟩ (k.sector fd) = (true, s) ∧
      fatLookupAll S fd s.cache ls = some c' := by
  rw [fatLookupAll] at hrun
  cases hfetch : fatFetch S fd ⟨k.dev, c, k.tmp⟩ (k.sector fd) with
  | mk ok s =>
      rw [hfetch] at hrun
      cases ok with
      | false => cases hrun
      | true => exact ⟨s, rfl, hrun⟩

/-- A run of lookups. -/
theorem LastUsed.run {ls : List (FatLookup ι)} {hs : List Int} {l : List (Fin fatCacheCnt)}
    {c' : FatCache} (h : LastUsed c l ((recent hs).take fatCacheCnt))
    (hrun : fatLookupAll S fd c ls = some c') :
    ∃ l', LastUsed c' l' ((recent (hs ++ ls.map (FatLookup.sector fd))).take fatCacheCnt) := by
  induction ls generalizing c l hs with
  | nil =>
      obtain rfl := Option.some.inj hrun
      rw [List.map_nil, List.append_nil]
      exact ⟨l, h⟩
  | cons k ls ih =>
      obtain ⟨s, hfetch, hrest⟩ := fatLookupAll_cons hrun
      obtain ⟨l', h'⟩ := h.step hfetch
      obtain ⟨l'', h''⟩ := ih h' hrest
      rw [List.append_assoc] at h''
      exact ⟨l'', h''⟩

theorem LastUsed.holdsLast {l : List (Fin fatCacheCnt)} {sectors : List Int}
    (h : LastUsed c l sectors) : HoldsLast fd c sectors := by
  have hslot : ∀ a ∈ sectors, ∃ i ∈ l, c.clust i = a ∧ fatCacheFind c a = some i := by
    intro a ha
    rw [← h.tags] at ha
    obtain ⟨i, hi, rfl⟩ := List.mem_map.mp ha
    exact ⟨i, hi, rfl, h.first i hi⟩
  constructor
  · rintro a ha κ S ⟨dev, cache, tmp⟩ rfl
    obtain ⟨i, -, -, hfind⟩ := hslot a ha
    exact fatFetch_found hfind S dev tmp
  · intro a ha b hb hne i j hi hj heq
    obtain ⟨i', hil, hia, hi'⟩ := hslot a ha
    obtain ⟨j', hjl, hjb, hj'⟩ := hslot b hb
    obtain rfl := Option.some.inj (hi.symm.trans hi')
    obtain rfl := Option.some.inj (hj.symm.trans hj')
    rw [h.ranked.rank_eq i hil, h.ranked.rank_eq j hjl] at heq
    obtain rfl := (List.idxOf_inj hil).mp heq
    exact hne (hia.symm.trans hjb)

/-! ## The bytes that happened to lie there -/

/-- Whether the ranks are spread is decided before the first lookup. -/
theorem fatLookupAll_spread {ls : List (FatLookup ι)} {c' : FatCache}
    (hrun : fatLookupAll S fd c ls = some c') : Spread c'.rank ↔ Spread c.rank := by
  induction ls generalizing c with
  | nil =>
      obtain rfl := Option.some.inj hrun
      rfl
  | cons k ls ih =>
      obtain ⟨s, hfetch, hrest⟩ := fatLookupAll_cons hrun
      rw [ih hrest]
      rcases fatFetch_step hfetch with ⟨i, -, -, hrank⟩ | ⟨-, -, hrank⟩
      · rw [hrank, spread_touch_iff]
      · rw [hrank, spread_touch_iff]

/-- As many sectors as there are slots leave no slot over. -/
theorem HoldsLast.spread {sectors : List Int} (h : HoldsLast fd c sectors)
    (hnodup : sectors.Nodup) (hlen : sectors.length = fatCacheCnt) : Spread c.rank := by
  have hslot : ∀ k : Fin fatCacheCnt, ∃ i,
      fatCacheFind c (sectors.get (k.cast hlen.symm)) = some i := fun k =>
    Option.isSome_iff_exists.mp
      (fatFetch_noDev (h.hit _ (List.get_mem _ _) Unit noDev ⟨(), c, fun _ => 0⟩ rfl).1)
  choose slot hslot using hslot
  have hinj : Function.Injective slot := by
    intro k k' heq
    have ha := fatCacheFind_clust (hslot k)
    rw [heq, fatCacheFind_clust (hslot k'), hnodup.get_inj_iff] at ha
    exact (Fin.cast_injective _ ha).symm
  have hsurj := Finite.injective_iff_surjective.mp hinj
  apply spread_of_injective
  intro i j heq
  obtain ⟨k, rfl⟩ := hsurj i
  obtain ⟨k', rfl⟩ := hsurj j
  by_contra hne
  have hsec : sectors.get (k.cast hlen.symm) ≠ sectors.get (k'.cast hlen.symm) := by
    rw [ne_eq, hnodup.get_inj_iff]
    exact fun hk => hne (congrArg slot (Fin.cast_injective _ hk))
  exact h.rank_ne _ (List.get_mem _ _) _ (List.get_mem _ _) hsec _ _ (hslot k) (hslot k') heq

end Step

/-! ## A volume with more sectors than slots -/

/-- A boot sector that announces nine sectors of FAT. -/
def nineSectors (x : Int) : UInt8 :=
  if x = 12 then 2 else if x = 13 ∨ x = 14 ∨ x = 16 then 1 else if x = 17 then 16
  else if x = 22 then 9 else 0

def nineStorage : StorageHand Unit := ⟨fun d off n => ((loadAt nineSectors off n, n), d)⟩

theorem nineStorage_init (c : FatCache) :
    (fsFatInit nineStorage ⟨(), c, fun _ => 0⟩ 0).1
      = some (fatPopulate 0 ⟨512, 1, 1, 1, 16, 0, 9⟩) := by
  have hboot : fatBootsector nineSectors = ⟨512, 1, 1, 1, 16, 0, 9⟩ := by decide +kernel
  rw [← hboot, ← fatBootsector_read nineSectors fun _ => 0]
  rfl

/-- Its reads succeed, so lookups do. -/
theorem nineStorage_lookups (fd : FatData) (c : FatCache) (ls : List (FatLookup Unit)) :
    ∃ c', fatLookupAll nineStorage fd c ls = some c' := by
  induction ls generalizing c with
  | nil => exact ⟨c, rfl⟩
  | cons l ls ih =>
      have hok : (fatFetch nineStorage fd ⟨l.dev, c, l.tmp⟩ (l.sector fd)).1 = true := by
        rw [fatFetch, fatTryCache]
        cases fatCacheFind c (l.sector fd) with
        | some i => rfl
        | none =>
            dsimp only [nineStorage]
            rw [if_neg (not_not.mpr rfl)]
      rw [fatLookupAll]
      generalize fatFetch nineStorage fd ⟨l.dev, c, l.tmp⟩ (l.sector fd) = r at hok
      obtain ⟨ok, s⟩ := r
      obtain rfl : ok = true := hok
      exact ih s.cache

/-- Lookups in four sectors of its FAT. -/
def fourLookups : List (FatLookup Unit) :=
  [512, 1024, 1536, 2048].map fun off => ⟨off, 1, (), fun _ => 0⟩

theorem KeepsLast.spread {c : FatCache} (h : KeepsLast c) : Spread c.rank := by
  have hcache := fsFatInit_cache nineStorage ⟨(), c, fun _ => 0⟩ 0
  obtain ⟨c', hrun⟩ := nineStorage_lookups (fatPopulate 0 ⟨512, 1, 1, 1, 16, 0, 9⟩).fdata
    (fsFatInit nineStorage ⟨(), c, fun _ => 0⟩ 0).2.cache fourLookups
  have hlast := h Unit nineStorage ⟨(), c, fun _ => 0⟩ 0 _ rfl (nineStorage_init c) fourLookups c'
    hrun
  have hspread := hlast.spread (nodup_recent _).take (by decide +kernel)
  rwa [fatLookupAll_spread hrun, hcache] at hspread

/-- **The FAT cache** keeps the sectors used last exactly if, in the memory
    that `fs_fat_init` is given for it, no more than `t` of the ranks are
    below `t`. -/
theorem fat_cache_lru_iff (c : FatCache) : KeepsLast c ↔ Spread c.rank := by
  refine ⟨KeepsLast.spread, fun hspread ι S s off fs hs hinit ls c' hrun => ?_⟩
  rw [fsFatInit_cache, hs] at hrun
  have hstart : LastUsed c [] ((recent []).take fatCacheCnt) :=
    ⟨⟨List.nodup_nil, fun i hi => absurd hi List.not_mem_nil⟩, hspread, rfl,
      fun i hi => absurd hi List.not_mem_nil⟩
  obtain ⟨l, hl⟩ := hstart.run hrun
  exact hl.holdsLast

/-- Ranks that are all zero are not spread. -/
theorem fat_cache_zero_ranks : ¬ ∀ c, KeepsLast c := by
  intro hall
  have hspread := (hall ⟨fun _ => 0, fun _ => 0, fun _ => 0⟩).spread
  exact absurd (hspread 1) (by decide)

end LBoot.Storage
