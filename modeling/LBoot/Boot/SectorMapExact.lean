/-
  LBoot.Boot.SectorMapExact

  `_round1` and its arrays (tools/sector_mapper/src/main.c).

  The two loops are taken here as they stand, over the indices of `clusters`;
  what each of them reads of that array, and which entries of `chunks` are
  written, is kept beside it.  A round of the second loop opens the next entry
  exactly where a round of the first one counts one, so the entries opened are
  those counted, one after the other (`fillLoop_slots`).  The map is then that
  of `round1`, the runs of the sector list.

  Before its loop `_round1` sets up the first entry, from the first cluster.
  An empty file has none (`round1_exact_iff`).
-/

import LBoot.Boot.SectorMapWrite
import LBoot.Tools.FatClusters

namespace LBoot.Boot

open LBoot.Lib

/-! ## The two loops -/

/-- A round of the loop that counts: the entries counted, and the clusters
    read. -/
def countStep (fat : FatHandle) (clusters : Nat → Nat) (p : Nat × List Nat) (i : Nat) :
    Nat × List Nat :=
  (if clusters i ≠ clusters (i - 1) + fat.clusterSize then p.1 + 1 else p.1, p.2 ++ [i, i - 1])

/-- The state of the loop that fills the chunks, with the entries it has set
    up, those it has counted up, and the clusters read. -/
structure FillLog where
  fill : MapFill
  puts : List (Nat × Nat)
  bumps : List (Nat × Nat)
  reads : List Nat
  deriving DecidableEq

/-- Set up the entry the loop is at, for cluster `i`. -/
def FillLog.put (fat : FatHandle) (clusters : Nat → Nat) (l : FillLog) (i : Nat) : FillLog where
  fill := l.fill.put ⟨fat.sector (clusters i), 1⟩
  puts := l.puts ++ [(l.fill.cChunk, l.fill.cMap)]
  bumps := l.bumps
  reads := l.reads ++ [i]

/-- A round of the loop that fills. -/
def fillStep (fat : FatHandle) (clusters : Nat → Nat) (l : FillLog) (i : Nat) : FillLog :=
  let l := { l with reads := l.reads ++ [i, i - 1] }
  if clusters i ≠ clusters (i - 1) + fat.clusterSize then
    let f := { l.fill with cMap := l.fill.cMap + 1 }
    let f := if f.cMap ≥ sectorMapEntries then { f with cMap := 0, cChunk := f.cChunk + 1 } else f
    FillLog.put fat clusters { l with fill := f } i
  else
    { l with fill := l.fill.bump, bumps := l.bumps ++ [(l.fill.cChunk, l.fill.cMap)] }

/-- What `_round1` has at its end. -/
structure Round1 where
  chunks : List SectorMapChunk
  nMapEntries : Nat
  nChunks : Nat
  puts : List (Nat × Nat)
  bumps : List (Nat × Nat)
  reads : List Nat
  deriving DecidableEq

/-- `_round1` on `n` clusters; `clusters` is what lies at each index of the
    array, also behind its end. -/
def round1Log (fat : FatHandle) (clusters : Nat → Nat) (n : Nat) : Round1 :=
  let (nMapEntries, reads) := (List.range' 1 (n - 1)).foldl (countStep fat clusters) (1, [])
  let nChunks := nMapEntries / sectorMapEntries +
    if nMapEntries % sectorMapEntries ≠ 0 then 1 else 0
  let l := FillLog.put fat clusters ⟨⟨List.replicate nChunks zeroChunk, 0, 0⟩, [], [], reads⟩ 0
  let l := (List.range' 1 (n - 1)).foldl (fillStep fat clusters) l
  ⟨l.fill.chunks, nMapEntries, nChunks, l.puts, l.bumps, l.reads⟩

/-- The map is exact, and nothing outside the arrays is touched. -/
structure MapExact (clusters : Nat → Nat) (n : Nat) (r : Round1) : Prop where
  /-- the entries written are those counted -/
  counted : r.puts.Nodup ∧ r.puts.length = r.nMapEntries ∧ ∀ w ∈ r.bumps, w ∈ r.puts
  /-- they lie in the array of chunks -/
  inside : ∀ w ∈ r.puts ++ r.bumps, w.1 < r.nChunks ∧ w.2 < sectorMapEntries
  length : r.chunks.length = r.nChunks
  /-- only elements of the array of clusters are read -/
  reads : ∀ i ∈ r.reads, i < n
  expands : (mapEntries r.chunks).flatMap (fun e => List.range' e.sector e.count)
    = (List.range n).map fun i => clusters i / 512
  maximal : ((mapEntries r.chunks).take r.nMapEntries).IsChain
    fun a b => b.sector ≠ a.sector + a.count
  unused : ∀ e ∈ (mapEntries r.chunks).drop r.nMapEntries, e = ⟨0, 0⟩
  links : ∀ c ∈ r.chunks, c.nextChunk = 0

/-! ## What the loops do -/

section Loops

variable (fat : FatHandle) (clusters : Nat → Nat)

/-- The number of an entry, over all chunks. -/
def slotNumber (w : Nat × Nat) : Nat := sectorMapEntries * w.1 + w.2

/-- The first loop counts the breaks, and reads the elements it goes over. -/
theorem countLoop_spec (i k : Nat) (hi : 0 < i) (p : Nat × List Nat) :
    ((List.range' i k).foldl (countStep fat clusters) p).1
        = p.1 + countBreaks fat (clusters (i - 1)) ((List.range' i k).map clusters) ∧
      ∀ j ∈ ((List.range' i k).foldl (countStep fat clusters) p).2, j ∈ p.2 ∨ j < i + k := by
  induction k generalizing i p with
  | zero => exact ⟨rfl, fun j hj => Or.inl hj⟩
  | succ k ih =>
      obtain ⟨hcount, hreads⟩ := ih (i + 1) (Nat.succ_pos i) (countStep fat clusters p i)
      rw [List.range'_succ, List.foldl_cons, List.map_cons, countBreaks]
      refine ⟨?_, fun j hj => ?_⟩
      · rw [hcount, Nat.add_sub_cancel, countStep, ← Nat.add_assoc]
        dsimp only
        split <;> rfl
      · rcases hreads j hj with hold | hlt
        · rw [countStep, List.mem_append] at hold
          rcases hold with hold | hnew
          · exact Or.inl hold
          · right
            simp only [List.mem_cons, List.not_mem_nil, or_false] at hnew
            omega
        · right
          omega

/-- The entries set up so far are the first ones, up to where the loop is. -/
structure FillInv (l : FillLog) : Prop where
  puts : l.puts.map slotNumber = List.range (l.fill.slot + 1)
  range : ∀ w ∈ l.puts, w.2 < sectorMapEntries
  bumps : ∀ w ∈ l.bumps, w ∈ l.puts
  current : (l.fill.cChunk, l.fill.cMap) ∈ l.puts

/-- Opening the next entry. -/
theorem FillInv.put {l : FillLog} {f : MapFill} {i : Nat} (h : FillInv l)
    (hslot : f.slot = l.fill.slot + 1) (hmap : f.cMap < sectorMapEntries) :
    FillInv (FillLog.put fat clusters { l with fill := f } i) where
  puts := by
    show (l.puts ++ [(f.cChunk, f.cMap)]).map slotNumber = List.range (f.slot + 1)
    have hnumber : slotNumber (f.cChunk, f.cMap) = f.slot := rfl
    rw [List.map_append, h.puts, List.map_singleton, hnumber, hslot]
    exact List.range_succ.symm
  range w hw := by
    rcases List.mem_append.mp hw with hw | hw
    · exact h.range w hw
    · rw [List.mem_singleton.mp hw]
      exact hmap
  bumps w hw := List.mem_append_left _ (h.bumps w hw)
  current := List.mem_append_right _ (List.mem_singleton_self _)

theorem fillStep_fill (l : FillLog) (i : Nat) :
    (fillStep fat clusters l i).fill = mapFillStep fat l.fill (clusters (i - 1)) (clusters i) := by
  rw [fillStep, mapFillStep]
  dsimp only
  split <;> rfl

/-- One round: the entry it is at stays, or the next one is opened. -/
theorem fillStep_inv {l : FillLog} (h : FillInv l) (i : Nat) : FillInv (fillStep fat clusters l i) := by
  have hmap : l.fill.cMap < sectorMapEntries := h.range _ h.current
  have hreads : FillInv { l with reads := l.reads ++ [i, i - 1] } :=
    ⟨h.puts, h.range, h.bumps, h.current⟩
  rw [fillStep]
  dsimp only
  split
  · by_cases hfull : l.fill.cMap + 1 ≥ sectorMapEntries
    · rw [if_pos hfull]
      refine FillInv.put fat clusters hreads ?_ (Nat.zero_lt_succ _)
      rw [MapFill.slot, MapFill.slot]
      dsimp only
      rw [Nat.mul_succ]
      omega
    · rw [if_neg hfull]
      exact FillInv.put fat clusters hreads rfl (Nat.lt_of_not_ge hfull)
  · refine ⟨h.puts, h.range, fun w hw => ?_, h.current⟩
    rcases List.mem_append.mp hw with hw | hw
    · exact h.bumps w hw
    · rw [List.mem_singleton.mp hw]
      exact h.current

/-- The slot of the step of `round1`, counted over all chunks. -/
theorem mapFillStep_slot {f : MapFill} (hmap : f.cMap < sectorMapEntries) (prev c : Nat) :
    (mapFillStep fat f prev c).slot
      = f.slot + if c ≠ prev + fat.clusterSize then 1 else 0 := by
  rw [mapFillStep]
  split
  · dsimp only
    show MapFill.slot (if f.cMap + 1 ≥ sectorMapEntries then _ else _) = _
    split
    · rw [MapFill.slot, MapFill.slot]
      dsimp only
      rw [Nat.mul_succ]
      omega
    · rfl
  · rfl

/-- The second loop: it does what `round1` does, and opens an entry at each
    break. -/
theorem fillLoop_slots (i k : Nat) (hi : 0 < i) {l : FillLog} (h : FillInv l) :
    FillInv ((List.range' i k).foldl (fillStep fat clusters) l) ∧
      ((List.range' i k).foldl (fillStep fat clusters) l).fill
        = mapFillLoop fat l.fill (clusters (i - 1)) ((List.range' i k).map clusters) ∧
      ((List.range' i k).foldl (fillStep fat clusters) l).fill.slot
        = l.fill.slot + countBreaks fat (clusters (i - 1)) ((List.range' i k).map clusters) ∧
      ∀ j ∈ ((List.range' i k).foldl (fillStep fat clusters) l).reads, j ∈ l.reads ∨ j < i + k := by
  induction k generalizing i l with
  | zero => exact ⟨h, rfl, rfl, fun j hj => Or.inl hj⟩
  | succ k ih =>
      have hmap : l.fill.cMap < sectorMapEntries := h.range _ h.current
      obtain ⟨hinv, hfill, hslot, hreads⟩ := ih (i + 1) (Nat.succ_pos i)
        (fillStep_inv fat clusters h i)
      rw [Nat.add_sub_cancel, fillStep_fill] at hfill hslot
      rw [List.range'_succ, List.foldl_cons, List.map_cons, mapFillLoop, countBreaks]
      refine ⟨hinv, hfill, ?_, fun j hj => ?_⟩
      · rw [hslot, mapFillStep_slot fat hmap, Nat.add_assoc]
      · rcases hreads j hj with hold | hlt
        · -- the round reads `i`, the one before, and `i` again
          have hround : j ∈ l.reads ∨ j = i ∨ j = i - 1 := by
            rw [fillStep] at hold
            dsimp only at hold
            split at hold
            · simp only [FillLog.put, List.mem_append, List.mem_cons, List.not_mem_nil,
                or_false] at hold
              tauto
            · simp only [List.mem_append, List.mem_cons, List.not_mem_nil, or_false] at hold
              tauto
          rcases hround with hold | rfl | rfl
          · exact Or.inl hold
          · right
            omega
          · right
            omega
        · right
          omega

end Loops

/-! ## The map -/

/-- The entries set up are different ones, as many as the loop has come past. -/
theorem FillInv.counted {l : FillLog} (h : FillInv l) :
    l.puts.Nodup ∧ l.puts.length = l.fill.slot + 1 := by
  constructor
  · apply List.Nodup.of_map slotNumber
    rw [h.puts]
    exact List.nodup_range
  · rw [← List.length_map slotNumber, h.puts, List.length_range]

/-- All entries written lie in the chunks it takes for so many. -/
theorem FillInv.inside {l : FillLog} (h : FillInv l) {w : Nat × Nat} (hw : w ∈ l.puts ++ l.bumps) :
    w.1 < (l.fill.slot + 1) / sectorMapEntries +
        (if (l.fill.slot + 1) % sectorMapEntries ≠ 0 then 1 else 0) ∧ w.2 < sectorMapEntries := by
  have hmem : w ∈ l.puts := (List.mem_append.mp hw).elim id (h.bumps w)
  have hnumber := List.mem_map_of_mem (f := slotNumber) hmem
  rw [h.puts, List.mem_range, slotNumber] at hnumber
  refine ⟨?_, h.range w hmem⟩
  have hentries : sectorMapEntries = 127 := rfl
  rw [hentries] at hnumber ⊢
  split <;> omega

/-- The clusters behind the first, as the loops go over them. -/
theorem map_range'_clusters {x : Nat} {ys : List Nat} {clusters : Nat → Nat}
    (hclusters : ∀ i (hi : i < (x :: ys).length), clusters i = 512 * (x :: ys)[i]) :
    (List.range' 1 ys.length).map clusters = ys.map (512 * ·) := by
  apply List.ext_getElem
  · simp
  · intro i _ hi
    rw [List.length_map] at hi
    have hnext := hclusters (i + 1) (by rw [List.length_cons]; omega)
    have hindex : 1 + 1 * i = i + 1 := by omega
    rw [List.getElem_map, List.getElem_map, List.getElem_range', hindex, hnext]
    rfl

/-- Entries that are the runs of the sectors, with zeros behind them, expand to
    the sectors. -/
theorem runEntries_expand {xs : List Nat} (z : Nat) {clusters : Nat → Nat}
    (hclusters : ∀ i (hi : i < xs.length), clusters i = 512 * xs[i]) :
    ((runs xs).map runEntry ++ List.replicate z (⟨0, 0⟩ : SectorMapEntry)).flatMap
        (fun e => List.range' e.sector e.count)
      = (List.range xs.length).map fun i => clusters i / 512 := by
  have hzeros : (List.replicate z (⟨0, 0⟩ : SectorMapEntry)).flatMap
      (fun e => List.range' e.sector e.count) = [] := by
    simp
  have hexpand := expand_runs xs
  rw [expand] at hexpand
  rw [List.flatMap_append, hzeros, List.append_nil, List.flatMap_map]
  refine hexpand.trans (List.ext_getElem (by simp) fun i hi _ => ?_)
  rw [List.getElem_map, List.getElem_range, hclusters i hi]
  omega

/-- A list of sectors that is not empty is encoded exactly. -/
theorem round1Log_exact {xs : List Nat} (hne : xs ≠ []) (hxs : ∀ x ∈ xs, 0 < x ∧ x < 2 ^ 16)
    (clusters : Nat → Nat) (hclusters : ∀ i (hi : i < xs.length), clusters i = 512 * xs[i]) :
    MapExact clusters xs.length (round1Log ⟨512, 1⟩ clusters xs.length) := by
  obtain ⟨chunks, z, hround, hentries, htails, hlength⟩ := round1_spec rfl hne hxs
  cases xs with
  | nil => exact absurd rfl hne
  | cons x ys =>
      have hfirst : clusters 0 = 512 * x := hclusters 0 (Nat.zero_lt_succ _)
      have hrest := map_range'_clusters hclusters
      have hcount : (runs (x :: ys)).length
          = 1 + countBreaks ⟨512, 1⟩ (512 * x) (ys.map (512 * ·)) :=
        runsFrom_length rfl Nat.one_pos ys
      obtain ⟨hc, hcreads⟩ := countLoop_spec ⟨512, 1⟩ clusters 1 ys.length Nat.one_pos
         (1, [])
      rw [Nat.sub_self, hfirst, hrest, ← hcount] at hc
      rw [round1Log, List.length_cons, Nat.add_sub_cancel]
      generalize (List.range' 1 ys.length).foldl (countStep ⟨512, 1⟩ clusters) (1, []) = p at hc hcreads
      obtain ⟨m, reads⟩ := p
      obtain rfl : m = (runs (x :: ys)).length := hc
      dsimp only
      rw [← hlength]
      -- the first entry is set up, and the loop goes on from there
      have hstart : FillInv (FillLog.put ⟨512, 1⟩ clusters
          ⟨⟨List.replicate chunks.length zeroChunk, 0, 0⟩, [], [], reads⟩ 0) :=
        ⟨rfl, by simp [FillLog.put], by simp [FillLog.put], by simp [FillLog.put, MapFill.put]⟩
      obtain ⟨hinv, hfill, hslot, hreads⟩ := fillLoop_slots ⟨512, 1⟩ clusters 1
        ys.length Nat.one_pos hstart
      have hzero : MapFill.slot (FillLog.put ⟨512, 1⟩ clusters
          ⟨⟨List.replicate chunks.length zeroChunk, 0, 0⟩, [], [], reads⟩ 0).fill = 0 := rfl
      rw [Nat.sub_self, hfirst, hrest] at hfill hslot
      rw [hzero, Nat.zero_add] at hslot
      generalize (List.range' 1 ys.length).foldl (fillStep ⟨512, 1⟩ clusters) _ = l
        at hinv hfill hslot hreads ⊢
      have hchunks : l.fill.chunks = chunks := by
        rw [List.map_cons, round1, if_neg (by simp), ← hcount] at hround
        dsimp only at hround
        rw [← hlength] at hround
        rw [hfill, FillLog.put, hfirst]
        exact Option.some.inj hround
      have hall : l.fill.slot + 1 = (runs (x :: ys)).length := by
        rw [hslot, hcount, Nat.add_comm]
      obtain ⟨hnodup, hlen⟩ := hinv.counted
      rw [hall] at hlen
      rw [hchunks]
      refine ⟨⟨hnodup, hlen, hinv.bumps⟩, fun w hw => ?_, rfl, fun i hi => ?_, ?_, ?_, fun e he => ?_,
        fun c hc => ?_⟩
      · have hin := hinv.inside hw
        rwa [hall, ← hlength] at hin
      · rcases hreads i hi with hold | hlt
        · rcases List.mem_append.mp hold with hold | hnew
          · rcases hcreads i hold with hnil | hlt
            · exact absurd hnil List.not_mem_nil
            · omega
          · rw [List.mem_singleton.mp hnew]
            exact Nat.zero_lt_succ _
        · omega
      · rw [hentries]
        exact runEntries_expand z hclusters
      · rw [hentries, List.take_left' (List.length_map _)]
        exact (List.isChain_map _).mpr (runs_maximal (x :: ys))
      · rw [hentries, List.drop_left' (List.length_map _)] at he
        exact (List.mem_replicate.mp he).2
      · exact congrArg Prod.fst (htails c hc)

/-- Without clusters the first one is read all the same. -/
theorem round1Log_empty (clusters : Nat → Nat) :
    ¬ MapExact clusters 0 (round1Log ⟨512, 1⟩ clusters 0) := by
  intro h
  have hread := h.reads 0 (by simp [round1Log, FillLog.put])
  exact Nat.lt_irrefl 0 hread

/-- For every image, and every file whose clusters are sectors with numbers
    of 16 bits: the map `_round1` makes of it is exact, and nothing outside the
    arrays is touched, exactly if the file is not empty. -/
theorem round1_exact_iff (pread : Tools.Pread) (hand : Tools.FatHandle) (hcs : hand.clusterSize = 512)
    (file : Tools.FatFileHandle) (cs : List Int)
    (hget : Tools.fatGetFileClusters pread hand file = some cs)
    (hsectors : ∀ c ∈ cs, ∃ x < 2 ^ 16, c = (512 * x : Nat)) (clusters : Nat → Nat)
    (hclusters : ∀ i (hi : i < cs.length), clusters i = toU32 cs[i]) :
    MapExact clusters (Tools.fileClusterCount hand file)
      (round1Log ⟨512, 1⟩ clusters (Tools.fileClusterCount hand file)) ↔ file.size ≠ 0 := by
  have hlen := Tools.length_fatGetFileClusters (by omega) hget
  have hnonzero : ∀ c ∈ cs, c ≠ 0 := Tools.mem_fileClustersFrom hget
  rw [← hlen]
  constructor
  · intro h hzero
    rw [Tools.fileClusterCount, hzero, Nat.zero_div, Nat.zero_mod] at hlen
    rw [hlen] at h
    exact round1Log_empty clusters h
  · intro hsize
    -- the sectors, none of which is the first one of the disk
    have hxs : ∀ x ∈ cs.map fun c => c.toNat / 512, 0 < x ∧ x < 2 ^ 16 := by
      intro x hx
      obtain ⟨c, hc, rfl⟩ := List.mem_map.mp hx
      obtain ⟨x, hx16, rfl⟩ := hsectors c hc
      have hne := hnonzero _ hc
      rw [Int.toNat_natCast, Nat.mul_div_cancel_left x (by decide)]
      omega
    have hne : (cs.map fun c => c.toNat / 512) ≠ [] := by
      intro hnil
      rw [List.map_eq_nil_iff.mp hnil, Tools.fileClusterCount, hcs] at hlen
      have hzero : [].length = 0 := @List.length_nil Int
      split at hlen <;> omega
    have hexact := round1Log_exact hne hxs clusters fun i hi => by
      rw [List.length_map] at hi
      obtain ⟨x, hx16, hx⟩ := hsectors cs[i] (List.getElem_mem hi)
      rw [List.getElem_map, hclusters i hi, hx, Int.toNat_natCast, toU32_of_nonneg (by omega) (by omega),
        Int.toNat_natCast, Nat.mul_div_cancel_left x (by decide)]
    rwa [List.length_map] at hexact

/-- A volume with its data behind 33 sectors. -/
def smallHand : Tools.FatHandle := ⟨512, 512, 4608, 16896, ⟨7168, 9728, 0⟩⟩

/-- An image whose cluster 2 is followed by cluster 3, and that by cluster 8. -/
def splitImage (n : Nat) (off : Int) : List UInt8 :=
  loadAt (fun x => if x = 515 then 3 else if x = 516 then 0x80 else 0) off n

/-- Their places. -/
def splitClusters (i : Nat) : Nat := [16896, 17408, 19968].getD i 0

/-- A file of two runs, one of two sectors and one of one. -/
theorem round1_exact_iff_two : MapExact splitClusters 3 (round1Log ⟨512, 1⟩ splitClusters 3) := by
  have hget : Tools.fatGetFileClusters splitImage smallHand ⟨1400, 16896, 0⟩
      = some [16896, 17408, 19968] := by decide +kernel
  refine (round1_exact_iff splitImage smallHand rfl ⟨1400, 16896, 0⟩ _ hget ?_ splitClusters
    ?_).mpr (by decide)
  · intro c hc
    refine ⟨c.toNat / 512, ?_⟩
    revert c
    decide
  · intro i hi
    have hall : ∀ i (hi : i < 3), splitClusters i = toU32 ([16896, 17408, 19968] : List Int)[i] := by
      decide
    exact hall i hi

/-- The unconditional statement fails: an empty file has no cluster, and
    `clusters[0]` is read. -/
theorem round1_exact_empty : Tools.fatGetFileClusters (fun _ _ => []) smallHand ⟨0, 16896, 0⟩ = some [] ∧
    Tools.fileClusterCount smallHand ⟨0, 16896, 0⟩ = 0 ∧
    ¬ MapExact (fun _ => 0) 0 (round1Log ⟨512, 1⟩ (fun _ => 0) 0) :=
  ⟨by decide, by decide, round1Log_empty _⟩

end LBoot.Boot
