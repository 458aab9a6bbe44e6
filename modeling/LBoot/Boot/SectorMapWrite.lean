/-
  LBoot.Boot.SectorMapWrite

  What the tool leaves in the image.

  The chunks, laid end to end, are the runs of the sector list and then zeros
  (`round1_spec`): the loop extends the last run or opens the next slot, and
  the count made beforehand is exactly the number of slots it opens.  Linking
  the chunks changes nothing in front of their links.  So the boot sector
  finds, in the first chunk, the first 127 runs, and behind them a link if
  and only if there are more (`MapHead`).
-/

import LBoot.Boot.SectorMap
import LBoot.Lib.Runs
import LBoot.Lib.Slots

namespace LBoot.Boot

open LBoot.Lib

/-- The entry for a run. -/
def runEntry (e : Nat × Nat) : SectorMapEntry := ⟨e.1, e.2⟩

/-- The entries of all chunks. -/
def mapEntries (chunks : List SectorMapChunk) : List SectorMapEntry :=
  chunks.flatMap fun c => c.entries.toList

/-- The part of a chunk behind its entries. -/
def SectorMapChunk.tail (c : SectorMapChunk) : Nat × Nat := (c.nextChunk, c.reserved)

variable {fat : FatHandle} {f : MapFill}

/-! ## Filling the chunks -/

/-- The number of the slot the loop is at. -/
def MapFill.slot (f : MapFill) : Nat := sectorMapEntries * f.cChunk + f.cMap

theorem MapFill.put_entries (hf : f.cMap < sectorMapEntries) (e : SectorMapEntry) :
    mapEntries (f.put e).chunks = (mapEntries f.chunks).set f.slot e := by
  have hdiv : f.slot / sectorMapEntries = f.cChunk := by
    rw [MapFill.slot, Nat.mul_add_div (by decide), Nat.div_eq_of_lt hf, Nat.add_zero]
  have hmod : f.slot % sectorMapEntries = f.cMap := by
    rw [MapFill.slot, Nat.mul_add_mod, Nat.mod_eq_of_lt hf]
  rw [mapEntries, MapFill.put]
  dsimp only
  rw [← hdiv]
  apply flatMap_modify _ (by decide) (fun c => Vector.length_toList)
  intro c _
  rw [hmod]
  exact Vector.toList_setIfInBounds

/-- Counting up writes the same slot again. -/
theorem MapFill.bump_entries (hf : f.cMap < sectorMapEntries) {e : SectorMapEntry}
    (he : (mapEntries f.chunks)[f.slot]? = some e) :
    mapEntries f.bump.chunks
      = (mapEntries f.chunks).set f.slot ⟨e.sector, (e.count + 1) % 2 ^ 16⟩ := by
  have hdiv : f.slot / sectorMapEntries = f.cChunk := by
    rw [MapFill.slot, Nat.mul_add_div (by decide), Nat.div_eq_of_lt hf, Nat.add_zero]
  have hmod : f.slot % sectorMapEntries = f.cMap := by
    rw [MapFill.slot, Nat.mul_add_mod, Nat.mod_eq_of_lt hf]
  rw [mapEntries, getElem?_flatMap_blocks _ (by decide) (fun c => Vector.length_toList), hmod]
    at he
  rw [mapEntries, MapFill.bump]
  dsimp only
  rw [← hdiv]
  apply flatMap_modify _ (by decide) (fun c => Vector.length_toList)
  intro c hc
  rw [hc, Option.bind_some, Vector.getElem?_toList] at he
  rw [hmod, he]
  exact Vector.toList_setIfInBounds

theorem MapFill.put_tails (f : MapFill) (e : SectorMapEntry) :
    (f.put e).chunks.map SectorMapChunk.tail = f.chunks.map SectorMapChunk.tail := by
  apply map_modify_of_eq
  intro c
  rfl

theorem MapFill.bump_tails (f : MapFill) :
    f.bump.chunks.map SectorMapChunk.tail = f.chunks.map SectorMapChunk.tail := by
  apply map_modify_of_eq
  intro c
  rfl

/-- Links are not touched. -/
theorem mapFillLoop_tails (cs : List Nat) (f : MapFill) (prev : Nat) :
    (mapFillLoop fat f prev cs).chunks.map SectorMapChunk.tail
      = f.chunks.map SectorMapChunk.tail := by
  induction cs generalizing f prev with
  | nil => rfl
  | cons c cs ih =>
      rw [mapFillLoop, ih, mapFillStep]
      split
      · dsimp only
        rw [MapFill.put_tails]
        split <;> rfl
      · exact MapFill.bump_tails f

/-- The next slot is opened, in the next chunk if need be. -/
theorem mapFillStep_break (hfat : fat = ⟨512, 1⟩) {prev x : Nat} (hx : x < 2 ^ 16)
    (hbreak : 512 * x ≠ prev + 512) (hmap : f.cMap < sectorMapEntries) :
    (mapFillStep fat f prev (512 * x)).cMap < sectorMapEntries ∧
      (mapFillStep fat f prev (512 * x)).slot = f.slot + 1 ∧
      mapEntries (mapFillStep fat f prev (512 * x)).chunks
        = (mapEntries f.chunks).set (f.slot + 1) ⟨x, 1⟩ := by
  have hsector : fat.sector (512 * x) = x := by
    rw [hfat, FatHandle.sector]
    dsimp only
    omega
  have hsize : fat.clusterSize = 512 := by rw [hfat]
  rw [mapFillStep, hsize, if_pos hbreak, hsector]
  dsimp only
  -- in either case the slot is the next one, counted over all chunks
  by_cases hfull : f.cMap + 1 ≥ sectorMapEntries
  · rw [if_pos hfull]
    have hmap' : f.cMap + 1 = sectorMapEntries := Nat.le_antisymm hmap hfull
    have hslot : MapFill.slot ⟨f.chunks, f.cChunk + 1, 0⟩ = f.slot + 1 := by
      rw [MapFill.slot, MapFill.slot]
      dsimp only
      rw [Nat.mul_succ, Nat.add_zero, Nat.add_assoc, hmap']
    have hzero : MapFill.cMap ⟨f.chunks, f.cChunk + 1, 0⟩ < sectorMapEntries := Nat.zero_lt_succ _
    refine ⟨hzero, hslot, ?_⟩
    rw [MapFill.put_entries hzero, hslot]
  · rw [if_neg hfull]
    refine ⟨Nat.lt_of_not_ge hfull, rfl, ?_⟩
    rw [MapFill.put_entries (Nat.lt_of_not_ge hfull)]
    rfl

/-- The slots counted are those of the runs. -/
theorem runsFrom_length (hfat : fat.clusterSize = 512) {s n : Nat} (hn : 0 < n) (xs : List Nat) :
    (runsFrom s n xs).length
      = 1 + countBreaks fat (512 * (s + (n - 1))) (xs.map (512 * ·)) := by
  induction xs generalizing s n with
  | nil => rfl
  | cons x xs ih =>
      rw [runsFrom, List.map_cons, countBreaks, hfat]
      by_cases hx : x = s + n
      · have hprev : 512 * x = 512 * (s + (n - 1)) + 512 := by omega
        have hnext : s + (n + 1 - 1) = x := by omega
        rw [if_pos hx, ih (Nat.succ_pos n), hnext, if_neg (not_not.mpr hprev), Nat.zero_add]
      · have hprev : 512 * x ≠ 512 * (s + (n - 1)) + 512 := by omega
        have hone : x + (1 - 1) = x := rfl
        rw [if_neg hx, List.length_cons, ih Nat.one_pos, if_pos hprev, hone, Nat.add_comm]

/-- The loop in the middle: the slots in front of the open one hold the runs
    that are done, and there are slots enough for those to come. -/
theorem mapFillLoop_spec (hfat : fat = ⟨512, 1⟩) {xs : List Nat}
    (hxs : ∀ x ∈ xs, 0 < x ∧ x < 2 ^ 16) :
    ∀ {f : MapFill} {done : List (Nat × Nat)} {s n z : Nat},
      0 < s → 0 < n → s + (n - 1) < 2 ^ 16 → f.cMap < sectorMapEntries → f.slot = done.length →
      mapEntries f.chunks = (done ++ [(s, n)]).map runEntry ++ List.replicate z ⟨0, 0⟩ →
      countBreaks fat (512 * (s + (n - 1))) (xs.map (512 * ·)) ≤ z →
      ∃ z', mapEntries (mapFillLoop fat f (512 * (s + (n - 1))) (xs.map (512 * ·))).chunks
        = (done ++ runsFrom s n xs).map runEntry ++ List.replicate z' ⟨0, 0⟩ := by
  induction xs with
  | nil =>
      intro f done s n z _ _ _ _ _ hflat _
      exact ⟨z, hflat⟩
  | cons x xs ih =>
      intro f done s n z hs hn hlast hmap hslot hflat hz
      obtain ⟨hx0, hx16⟩ := hxs x List.mem_cons_self
      have hxs' : ∀ y ∈ xs, 0 < y ∧ y < 2 ^ 16 := fun y hy => hxs y (List.mem_cons_of_mem _ hy)
      have hsize : fat.clusterSize = 512 := by rw [hfat]
      rw [List.map_cons, countBreaks, hsize] at hz
      rw [List.map_append, List.append_assoc] at hflat
      have hdone : f.slot = (done.map runEntry).length := by rw [hslot, List.length_map]
      rw [List.map_cons, mapFillLoop, runsFrom]
      by_cases hx : x = s + n
      · -- the open run goes on
        have hprev : 512 * x = 512 * (s + (n - 1)) + 512 := by omega
        have hnext : x = s + (n + 1 - 1) := by omega
        -- its entry is the one the fill is at
        have hopen : (mapEntries f.chunks)[f.slot]? = some (runEntry (s, n)) := by
          rw [hflat, hdone, List.getElem?_append_right (Nat.le_refl _), Nat.sub_self]
          rfl
        have hcount : (n + 1) % 2 ^ 16 = n + 1 := Nat.mod_eq_of_lt (by omega)
        rw [if_neg (not_not.mpr hprev), Nat.zero_add, hnext] at hz
        rw [mapFillStep, hsize, if_neg (not_not.mpr hprev), if_pos hx, hnext]
        refine ih hxs' hs (Nat.succ_pos n) (by omega) hmap hslot ?_ hz
        rw [MapFill.bump_entries hmap hopen, hflat, hdone, List.map_append, List.append_assoc]
        show (done.map runEntry ++ runEntry (s, n) :: _).set _ _ = _
        rw [set_append_cons, runEntry]
        dsimp only
        rw [hcount]
        rfl
      · -- a new run, in the next slot
        have hprev : 512 * x ≠ 512 * (s + (n - 1)) + 512 := by omega
        obtain ⟨hmap', hslot', hentries⟩ := mapFillStep_break hfat hx16 hprev hmap
        rw [if_pos hprev] at hz
        obtain ⟨z, rfl⟩ : ∃ z', z = z' + 1 := ⟨z - 1, by omega⟩
        rw [if_neg hx, ← List.singleton_append, ← List.append_assoc]
        have hone : x + (1 - 1) = x := rfl
        have hz' : countBreaks fat (512 * x) (xs.map (512 * ·)) ≤ z := by omega
        rw [← hone] at hz'
        refine ih hxs' hx0 Nat.one_pos hx16 hmap' ?_ ?_ hz'
        · rw [hslot', hslot, List.length_append, List.length_singleton]
        · have hlen : f.slot + 1 = ((done ++ [(s, n)]).map runEntry).length := by
            rw [hdone, List.map_append, List.length_append]
            rfl
          have happ : (done ++ [(s, n)] ++ [(x, 1)]).map runEntry
              = (done ++ [(s, n)]).map runEntry ++ [⟨x, 1⟩] := List.map_append
          rw [hentries, hflat, ← List.append_assoc, ← List.map_append, List.replicate_succ, hlen,
            set_append_cons, happ, List.append_assoc]
          rfl

/-- `_round1` writes the runs, and chunks enough for them. -/
theorem round1_spec (hfat : fat = ⟨512, 1⟩) {cs : List Nat} (hne : cs ≠ [])
    (hcs : ∀ c ∈ cs, 0 < c ∧ c < 2 ^ 16) :
    ∃ chunks z, round1 fat (cs.map (512 * ·)) = some chunks ∧
      mapEntries chunks = (runs cs).map runEntry ++ List.replicate z ⟨0, 0⟩ ∧
      (∀ c ∈ chunks, c.tail = (0, 0)) ∧
      chunks.length = (runs cs).length / sectorMapEntries +
        if (runs cs).length % sectorMapEntries ≠ 0 then 1 else 0 := by
  cases cs with
  | nil => exact absurd rfl hne
  | cons x xs =>
      obtain ⟨hx0, hx16⟩ := hcs x List.mem_cons_self
      have hsize : fat.clusterSize = 512 := by rw [hfat]
      have hsector : fat.sector (512 * x) = x := by
        rw [hfat, FatHandle.sector]
        dsimp only
        omega
      have hcount : (runs (x :: xs)).length = 1 + countBreaks fat (512 * x) (xs.map (512 * ·)) :=
        runsFrom_length hsize Nat.one_pos xs
      rw [List.map_cons, round1, if_neg (not_not.mpr hsize), hsector, ← hcount]
      dsimp only
      generalize hn : (runs (x :: xs)).length / sectorMapEntries +
        (if (runs (x :: xs)).length % sectorMapEntries ≠ 0 then 1 else 0) = nChunks
      have hentries : sectorMapEntries = 127 := rfl
      have henough : (runs (x :: xs)).length ≤ nChunks * sectorMapEntries := by
        rw [← hn, hentries]
        split <;> omega
      obtain ⟨z, hz⟩ : ∃ z, nChunks * sectorMapEntries = z + 1 :=
        ⟨nChunks * sectorMapEntries - 1, by omega⟩
      -- the first slot is the open one
      have hzero : mapEntries (List.replicate nChunks zeroChunk)
          = List.replicate (z + 1) ⟨0, 0⟩ := by
        rw [mapEntries, List.flatMap_replicate, zeroChunk, Vector.toList_replicate,
          List.flatten_replicate_replicate, hz]
      have hopen : mapEntries (MapFill.put ⟨List.replicate nChunks zeroChunk, 0, 0⟩ ⟨x, 1⟩).chunks
          = ([] ++ [(x, 1)]).map runEntry ++ List.replicate z ⟨0, 0⟩ := by
        rw [MapFill.put_entries (Nat.zero_lt_succ _), hzero]
        rfl
      obtain ⟨z', hloop⟩ := mapFillLoop_spec hfat
        (fun y hy => hcs y (List.mem_cons_of_mem x hy)) hx0 Nat.one_pos hx16
        (Nat.zero_lt_succ _) rfl hopen (by
          have hone : x + (1 - 1) = x := rfl
          rw [hone]
          omega)
      have htails := @mapFillLoop_tails fat (xs.map (512 * ·))
        (MapFill.put ⟨List.replicate nChunks zeroChunk, 0, 0⟩ ⟨x, 1⟩) (512 * x)
      rw [MapFill.put_tails, List.map_replicate] at htails
      refine ⟨_, z', rfl, hloop, fun c hc => ?_, ?_⟩
      · have hmem := List.mem_map_of_mem (f := SectorMapChunk.tail) hc
        rw [htails] at hmem
        exact (List.mem_replicate.mp hmem).2
      · have hlen := congrArg List.length htails
        rwa [List.length_map, List.length_replicate] at hlen

/-! ## The image -/

/-- A word of a sector. -/
def sectorWord (img : Int → UInt8) (sector off : Nat) : Nat :=
  leNat (loadAt img (512 * sector + off : Nat) 2)

variable {img : Int → UInt8} {m : Nat} {chunk : SectorMapChunk}

theorem entryBytes_length (c : SectorMapChunk) :
    ∀ bs ∈ c.entries.toList.map SectorMapEntry.bytes, bs.length = 4 := by
  intro bs hbs
  obtain ⟨e, -, rfl⟩ := List.mem_map.mp hbs
  rw [SectorMapEntry.bytes, List.length_append, length_toLe, length_toLe]

theorem SectorMapChunk.entries_length (c : SectorMapChunk) :
    (c.entries.toList.map SectorMapEntry.bytes).flatten.length = nextChunkOffset := by
  rw [length_flatten_blocks (entryBytes_length c), List.length_map, Vector.length_toList]
  rfl

/-- The words of an entry. -/
theorem sectorWord_of_entries (h : loadAt img (512 * m : Nat) nextChunkOffset
      = (chunk.entries.toList.map SectorMapEntry.bytes).flatten)
    {j : Nat} {e : SectorMapEntry} (hj : j < sectorMapEntries)
    (he : chunk.entries.toList[j]? = some e) :
    sectorWord img m (4 * j) = e.sector % 2 ^ 16 ∧
      sectorWord img m (4 * j + 2) = e.count % 2 ^ 16 := by
  have hlen := entryBytes_length chunk
  have hdrop := @drop_flatten_blocks _ _ _ hlen j e.bytes
    (by rw [List.getElem?_map, he]; rfl)
  rw [Nat.mul_comm] at hdrop
  have hfit : 4 * j + 4 ≤ nextChunkOffset := by
    have hentries : sectorMapEntries = 127 := rfl
    have hoffset : nextChunkOffset = 508 := rfl
    omega
  -- the entry's four bytes are its sector number and its count
  have hfour : loadAt img (512 * m + 4 * j : Nat) 4 = toLe 2 e.sector ++ toLe 2 e.count := by
    rw [Nat.cast_add, loadAt_inside h hfit, hdrop]
    exact List.take_left' (hlen _ (List.mem_map_of_mem (List.mem_of_getElem? he)))
  constructor
  · rw [sectorWord, ← take_loadAt _ _ (show 2 ≤ 4 by omega), hfour,
      List.take_left' (length_toLe 2 _), leNat_toLe]
    rfl
  · have hsecond := drop_loadAt img (512 * m + 4 * j : Nat) (show 2 ≤ 4 by omega)
    rw [hfour, List.drop_left' (length_toLe 2 _)] at hsecond
    have haddr : ((512 * m + (4 * j + 2) : Nat) : Int) = (512 * m + 4 * j : Nat) + (2 : Nat) := by
      push_cast
      omega
    rw [sectorWord, haddr, ← hsecond, leNat_toLe]
    rfl

/-- The image holds the chunks of the map in these sectors. -/
structure MapStored (img : Int → UInt8) (chunks : List SectorMapChunk) (ms : List Nat) : Prop where
  length_eq : ms.length = chunks.length
  nodup : ms.Nodup
  range : ∀ m ∈ ms, 0 < m ∧ m < 2 ^ 16
  content : ∀ (i m : Nat) (c : SectorMapChunk), ms[i]? = some m → chunks[i]? = some c →
    loadAt img (512 * m : Nat) 512 = c.bytes

/-- What the boot sector finds in the sector `m` where the map starts. -/
structure MapHead (img : Int → UInt8) (m : Nat) (es : List (Nat × Nat)) : Prop where
  entry : ∀ j e, j < sectorMapEntries → es[j]? = some e →
    sectorWord img m (4 * j) = e.1 ∧ sectorWord img m (4 * j + 2) = e.2
  stop : es.length < sectorMapEntries → sectorWord img m (4 * es.length) = 0
  last : es.length ≤ sectorMapEntries → sectorWord img m nextChunkOffset = 0
  link : sectorMapEntries < es.length → sectorWord img m nextChunkOffset ≠ 0
  reserved : sectorWord img m (nextChunkOffset + 2) = 0

/-- Cells that hold no link are not changed. -/
theorem round2Loop_outside {x : Int} (ms : List Nat) :
    ∀ (a : Nat) (img : Int → UInt8), (x < a ∨ (a + 2 : Nat) ≤ x) →
      (∀ m ∈ ms, x < (512 * m + nextChunkOffset : Nat) ∨ (512 * m + nextChunkOffset + 2 : Nat) ≤ x) →
      round2Loop fat a img (ms.map (512 * ·)) x = img x := by
  induction ms with
  | nil => exact fun _ _ _ _ => rfl
  | cons m ms ih =>
      intro a img ha hms
      rw [List.map_cons, round2Loop, ih _ _ (hms m List.mem_cons_self)
        fun m' hm' => hms m' (List.mem_cons_of_mem m hm')]
      apply storeAt_of_outside
      rw [length_toLe]
      omega

/-- The first sector number written stays where it was put. -/
theorem round2Loop_first (hfat : fat = ⟨512, 1⟩) {a : Nat} {ms : List Nat} (hm : m < 2 ^ 16)
    (hms : ∀ m' ∈ m :: ms, a + 2 ≤ 512 * m' + nextChunkOffset ∨ 512 * m' + nextChunkOffset + 2 ≤ a)
    (img : Int → UInt8) :
    loadAt (round2Loop fat a img ((m :: ms).map (512 * ·))) a 2 = toLe 2 m := by
  have hsector : fat.sector (512 * m) = m := by
    rw [hfat, FatHandle.sector]
    dsimp only
    omega
  have hstore := loadAt_storeAt img a (toLe 2 m)
  rw [length_toLe] at hstore
  rw [List.map_cons, round2Loop, hsector]
  refine Eq.trans (loadAt_congr fun x hlo hhi => ?_) hstore
  apply round2Loop_outside
  · have hfirst := hms m List.mem_cons_self
    omega
  · intro m' hm'
    have hrest := hms m' (List.mem_cons_of_mem m hm')
    omega

/-- Linking the chunks leaves the first one as it is, but for its link. -/
theorem round2Loop_first_sector (hm : 0 < m) (ms : List Nat) (img : Int → UInt8) {x : Int}
    (hlo : (512 * m : Nat) ≤ x) (hhi : x < (512 * m + 512 : Nat))
    (hlink : x < (512 * m + nextChunkOffset : Nat) ∨ (512 * m + nextChunkOffset + 2 : Nat) ≤ x) :
    round2Loop fat stage2MapSector img ((m :: ms).map (512 * ·)) x = img x := by
  have hboot : stage2MapSector = 506 := rfl
  have hoffset : nextChunkOffset = 508 := rfl
  apply round2Loop_outside
  · -- the boot sector is not a sector of the map
    right
    omega
  · intro m' hm'
    rcases Nat.lt_trichotomy m' m with hlt | rfl | hgt
    · omega
    · exact hlink
    · omega

/-- What `_round2` makes of the boot sector and of the first chunk, which is in
    the sector `m` of the image `img'`. -/
structure FirstChunk (img' : Int → UInt8) (m : Nat) (chunk : SectorMapChunk) (ms : List Nat) :
    Prop where
  start : sectorWord img' 0 stage2MapSector = m
  entries : loadAt img' (512 * m : Nat) nextChunkOffset
    = (chunk.entries.toList.map SectorMapEntry.bytes).flatten
  next : sectorWord img' m nextChunkOffset = ms.head?.getD (chunk.nextChunk % 2 ^ 16)
  reserved : sectorWord img' m (nextChunkOffset + 2) = chunk.reserved % 2 ^ 16

theorem round2Loop_first_chunk (hfat : fat = ⟨512, 1⟩) {ms : List Nat}
    (hrange : ∀ m' ∈ m :: ms, 0 < m' ∧ m' < 2 ^ 16) (hnodup : (m :: ms).Nodup)
    (hcontent : loadAt img (512 * m : Nat) 512 = chunk.bytes) :
    FirstChunk (round2Loop fat stage2MapSector img ((m :: ms).map (512 * ·))) m chunk ms := by
  have hboot : stage2MapSector = 506 := rfl
  have hoffset : nextChunkOffset = 508 := rfl
  obtain ⟨hm0, hm16⟩ := hrange m List.mem_cons_self
  have hbehind : ∀ k, k + 2 ≤ 4 → loadAt img (512 * m + (nextChunkOffset + k) : Nat) 2
      = ((toLe 2 chunk.nextChunk ++ toLe 2 chunk.reserved).drop k).take 2 := by
    intro k hk
    rw [Nat.cast_add, loadAt_inside hcontent (by omega), SectorMapChunk.bytes, ← List.drop_drop,
      List.drop_left' chunk.entries_length]
  constructor
  · have happart : ∀ m' ∈ m :: ms, stage2MapSector + 2 ≤ 512 * m' + nextChunkOffset ∨
        512 * m' + nextChunkOffset + 2 ≤ stage2MapSector := by
      intro m' hm'
      have hm'0 := (hrange m' hm').1
      omega
    rw [sectorWord, Nat.mul_zero, Nat.zero_add, round2Loop_first hfat hm16 happart,
      leNat_toLe_of_lt hm16]
  · have hfirst := loadAt_inside hcontent (show 0 + nextChunkOffset ≤ 512 by omega)
    rw [Nat.cast_zero, Int.add_zero, List.drop_zero, SectorMapChunk.bytes,
      List.take_left' chunk.entries_length] at hfirst
    rw [← hfirst]
    apply loadAt_congr
    intro x hlo hhi
    exact round2Loop_first_sector hm0 ms img hlo (by omega) (Or.inl (by omega))
  · cases ms with
    | nil =>
        have hlink := hbehind 0 (by omega)
        rw [sectorWord, List.map_singleton, round2Loop, round2Loop, loadAt_storeAt_disjoint,
          ← Nat.add_zero nextChunkOffset, hlink, List.drop_zero,
          List.take_left' (length_toLe 2 _), leNat_toLe]
        · rfl
        · right
          rw [length_toLe]
          omega
    | cons m₁ ms =>
        -- the second sector number is the first one written behind the boot sector
        obtain ⟨-, hm₁16⟩ := hrange m₁ (List.mem_cons_of_mem m List.mem_cons_self)
        have happart : ∀ m' ∈ m₁ :: ms,
            512 * m + nextChunkOffset + 2 ≤ 512 * m' + nextChunkOffset ∨
              512 * m' + nextChunkOffset + 2 ≤ 512 * m + nextChunkOffset := by
          intro m' hm'
          have hne : m' ≠ m := by
            rintro rfl
            exact (List.nodup_cons.mp hnodup).1 hm'
          omega
        rw [sectorWord, List.map_cons, round2Loop, round2Loop_first hfat hm₁16 happart,
          leNat_toLe_of_lt hm₁16]
        rfl
  · have hlink := hbehind 2 (by omega)
    have hcells : loadAt (round2Loop fat stage2MapSector img ((m :: ms).map (512 * ·)))
        (512 * m + (nextChunkOffset + 2) : Nat) 2
          = loadAt img (512 * m + (nextChunkOffset + 2) : Nat) 2 := by
      apply loadAt_congr
      intro x hlo hhi
      exact round2Loop_first_sector hm0 ms img (by omega) (by omega) (Or.inr (by omega))
    rw [sectorWord, hcells, hlink, List.drop_left' (length_toLe 2 _),
      List.take_of_length_le (by rw [length_toLe]), leNat_toLe]
    rfl

/-- The entries of the first chunk come first. -/
theorem mapEntries_head (chunk : SectorMapChunk) (rest : List SectorMapChunk) {j : Nat}
    (hj : j < sectorMapEntries) :
    chunk.entries.toList[j]? = (mapEntries (chunk :: rest))[j]? := by
  rw [mapEntries, getElem?_flatMap_blocks _ (by decide) (fun c => Vector.length_toList),
    Nat.div_eq_of_lt hj, Nat.mod_eq_of_lt hj]
  rfl

/-- Behind `_round2` the boot sector points to the first chunk, which holds
    the first runs and the link that follows them. -/
theorem sectorMap_head (hfat : fat = ⟨512, 1⟩) {cs ms : List Nat} (hne : cs ≠ [])
    (hcs : ∀ c ∈ cs, 0 < c ∧ c < 2 ^ 16) {chunks : List SectorMapChunk} {img' : Int → UInt8}
    (hround1 : round1 fat (cs.map (512 * ·)) = some chunks) (hstored : MapStored img chunks ms)
    (hround2 : round2 fat img (ms.map (512 * ·)) = some img') :
    ∃ m, m < 2 ^ 16 ∧ sectorWord img' 0 stage2MapSector = m ∧ MapHead img' m (runs cs) := by
  obtain ⟨chunks', z, hround1', hflat, htail, hlen⟩ := round1_spec hfat hne hcs
  obtain rfl := Option.some.inj (hround1.symm.trans hround1')
  have hentries : sectorMapEntries = 127 := rfl
  have hsize : fat.clusterSize = 512 := by rw [hfat]
  rw [round2, if_neg (not_not.mpr hsize), Option.some.injEq] at hround2
  -- there is a first chunk, and a sector for it
  have hpos := length_runs_pos hne
  obtain ⟨chunk, rest, rfl⟩ : ∃ chunk rest, chunks = chunk :: rest := by
    cases chunks with
    | nil =>
        rw [List.length_nil, hentries] at hlen
        split at hlen <;> omega
    | cons chunk rest => exact ⟨chunk, rest, rfl⟩
  obtain ⟨m, ms, rfl⟩ : ∃ m ms', ms = m :: ms' := by
    cases ms with
    | nil => exact absurd hstored.length_eq (Nat.succ_ne_zero _).symm
    | cons m ms => exact ⟨m, ms, rfl⟩
  obtain ⟨hnext, hres⟩ := Prod.mk.inj (htail chunk List.mem_cons_self)
  have hfirst := round2Loop_first_chunk hfat hstored.range hstored.nodup
    (hstored.content 0 m chunk rfl rfl)
  rw [hround2] at hfirst
  have hms := hstored.length_eq
  rw [hlen, List.length_cons, hentries] at hms
  refine ⟨m, (hstored.range m List.mem_cons_self).2, hfirst.start, ?_, ?_, ?_, ?_, ?_⟩
  · intro j e hj he
    have hfound : chunk.entries.toList[j]? = some (runEntry e) := by
      rw [mapEntries_head chunk rest hj, hflat, List.getElem?_append_left, List.getElem?_map, he]
      · rfl
      · rw [List.length_map]
        exact (List.getElem?_eq_some_iff.mp he).1
    obtain ⟨hpos', hstart, hend⟩ := mem_runs (List.mem_of_getElem? he)
    have hlt := (hcs _ hend).2
    have hgt := (hcs _ hstart).1
    have hword := sectorWord_of_entries hfirst.entries hj hfound
    rw [runEntry] at hword
    dsimp only at hword
    rwa [Nat.mod_eq_of_lt (by omega), Nat.mod_eq_of_lt (by omega)] at hword
  · intro hlt
    -- the slot behind the runs is a zero one
    obtain ⟨e, he⟩ : ∃ e, chunk.entries.toList[(runs cs).length]? = some e :=
      ⟨_, List.getElem?_eq_getElem (by rw [Vector.length_toList]; exact hlt)⟩
    have hzero : e = ⟨0, 0⟩ := by
      have hflat' := mapEntries_head chunk rest hlt
      rw [he, hflat, List.getElem?_append_right (by rw [List.length_map])] at hflat'
      exact (List.mem_replicate.mp (List.mem_of_getElem? hflat'.symm)).2
    rw [(sectorWord_of_entries hfirst.entries hlt he).1, hzero]
    rfl
  · intro hle
    -- one chunk is enough
    obtain rfl : ms = [] := by
      rw [← List.length_eq_zero_iff]
      split at hms <;> omega
    rw [hfirst.next, hnext]
    rfl
  · intro hgt
    obtain ⟨m₁, ms, rfl⟩ : ∃ m₁ ms', ms = m₁ :: ms' := by
      cases ms with
      | nil =>
          rw [List.length_nil] at hms
          split at hms <;> omega
      | cons m₁ ms => exact ⟨m₁, ms, rfl⟩
    rw [hfirst.next]
    exact Nat.ne_of_gt (hstored.range m₁ (List.mem_cons_of_mem m List.mem_cons_self)).1
  · rw [hfirst.reserved, hres]
    rfl

end LBoot.Boot
