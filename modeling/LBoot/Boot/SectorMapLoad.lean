/-
  LBoot.Boot.SectorMapLoad

  Which data sectors `read_sector_map` reads.

  The routine compares DX where it means SI.  If DX is less than the address
  of the link (as a signed number), the end of a chunk is never noticed: one
  chunk is read correctly, because a zero follows its runs, but a link is
  taken for an entry of 65536 sectors.  Otherwise every chunk counts as ended
  behind its first entry, and the start of the next run is followed as if it
  were a link: from there on the routine reads the second stage itself as a
  map (`Spells`).
-/

import LBoot.Boot.SectorMapWrite

namespace LBoot.Boot

open LBoot.Lib StateTransition

/-- These sectors, loaded one behind the other from `a` on. -/
def dataLoads (a : BitVec 16) (cs : List (BitVec 16)) : List (BitVec 16 × BitVec 16) :=
  cs.mapIdx fun k c => (c, a + BitVec.ofNat 16 (512 * k))

/-- The routine returns, and has read exactly these sectors. -/
def Loads (img : Int → UInt8) (s : MapLoader) (cs : List (BitVec 16)) : Prop :=
  ∃ t, t ∈ eval (mapLoaderStep img) s ∧ t.pc = .returned ∧
    t.reads = s.reads ++ dataLoads s.stage2Addr cs

/-- So many sectors from `c` on. -/
def sectorRun (c : BitVec 16) : Nat → List (BitVec 16)
  | 0 => []
  | n + 1 => c :: sectorRun (c + 1) n

/-- How often the loop that counts CX down to zero is run. -/
def mapIterations (count : Nat) : Nat := if count = 0 then 2 ^ 16 else count

/-- The sectors listed by a chain of sectors, each of which holds one entry
    and behind it the number of the next sector. -/
inductive Spells (img : Int → UInt8) : Nat → List (BitVec 16) → Prop where
  | stop {m : Nat} : sectorWord img m 0 = 0 → Spells img m []
  | last {m : Nat} : sectorWord img m 0 ≠ 0 → sectorWord img m 4 = 0 →
      Spells img m (sectorRun (BitVec.ofNat 16 (sectorWord img m 0))
        (mapIterations (sectorWord img m 2)))
  | next {m : Nat} {cs : List (BitVec 16)} : sectorWord img m 0 ≠ 0 → sectorWord img m 4 ≠ 0 →
      Spells img (sectorWord img m 4) cs →
      Spells img m (sectorRun (BitVec.ofNat 16 (sectorWord img m 0))
        (mapIterations (sectorWord img m 2)) ++ cs)

variable {img : Int → UInt8} {s t : MapLoader}

/-! ## Loads -/

theorem dataLoads_cons (a c : BitVec 16) (cs : List (BitVec 16)) :
    dataLoads a (c :: cs) = (c, a) :: dataLoads (a + 512) cs := by
  have hnext : ∀ k, a + BitVec.ofNat 16 (512 * (k + 1)) = a + 512 + BitVec.ofNat 16 (512 * k) := by
    intro k
    rw [Nat.mul_succ, Nat.add_comm, BitVec.ofNat_add, BitVec.add_assoc]
    rfl
  rw [dataLoads, List.mapIdx_cons, dataLoads, Nat.mul_zero, BitVec.add_zero]
  simp only [hnext]

theorem dataLoads_append (a : BitVec 16) (cs ds : List (BitVec 16)) :
    dataLoads a (cs ++ ds)
      = dataLoads a cs ++ dataLoads (a + BitVec.ofNat 16 (512 * cs.length)) ds := by
  induction cs generalizing a with
  | nil => rw [List.nil_append, List.length_nil, Nat.mul_zero, BitVec.add_zero]; rfl
  | cons c cs ih =>
      rw [List.cons_append, dataLoads_cons, ih, dataLoads_cons, List.cons_append,
        List.length_cons, Nat.mul_succ, Nat.add_comm (512 * cs.length), BitVec.ofNat_add,
        BitVec.add_assoc]
      rfl

theorem dataLoads_fst (a : BitVec 16) (cs : List (BitVec 16)) :
    (dataLoads a cs).map Prod.fst = cs := by
  induction cs generalizing a with
  | nil => rfl
  | cons c cs ih => rw [dataLoads_cons, List.map_cons, ih]

theorem sectorRun_eq (c n : Nat) :
    sectorRun (BitVec.ofNat 16 c) n = (List.range' c n).map (BitVec.ofNat 16) := by
  induction n generalizing c with
  | zero => rfl
  | succ n ih =>
      rw [sectorRun, List.range'_succ, List.map_cons, ← ih (c + 1), BitVec.ofNat_add]
      rfl

@[simp] theorem sectorRun_length (c : BitVec 16) (n : Nat) : (sectorRun c n).length = n := by
  induction n generalizing c with
  | zero => rfl
  | succ n ih => rw [sectorRun, List.length_cons, ih]

/-- A run of 65536 sectors comes through sector zero. -/
theorem zero_mem_sectorRun (c : BitVec 16) : 0 ∈ sectorRun c (2 ^ 16) := by
  have hc : c = BitVec.ofNat 16 c.toNat := BitVec.eq_of_toNat_eq (by simp)
  rw [hc, sectorRun_eq]
  have hlt := c.isLt
  rcases Nat.eq_zero_or_pos c.toNat with hzero | hpos
  · refine List.mem_map.mpr ⟨0, ?_, rfl⟩
    rw [List.mem_range'_1]
    omega
  · refine List.mem_map.mpr ⟨2 ^ 16, ?_, rfl⟩
    rw [List.mem_range'_1]
    omega

/-! ## Steps -/

/-- Reads are only added. -/
theorem reads_prefix (h : Reaches (mapLoaderStep img) s t) : s.reads <+: t.reads := by
  induction h with
  | refl => exact List.prefix_refl _
  | tail _ hstep ih =>
      apply ih.trans
      rw [Option.mem_def, mapLoaderStep] at hstep
      dsimp only at hstep
      split at hstep
      · cases hstep
        exact List.prefix_refl _
      · split at hstep <;> cases hstep <;> exact List.prefix_refl _
      · split at hstep
        · cases hstep
          exact List.prefix_append _ _
        · split at hstep <;> cases hstep <;> exact List.prefix_append _ _
      · split at hstep <;> cases hstep <;> exact List.prefix_refl _
      · cases hstep
        exact List.prefix_refl _
      · cases hstep

/-- A word of the chunk that was read. -/
theorem memWord_readChunk (m : BitVec 16) (mem : BitVec 16 → UInt8) {off : Nat}
    (hoff : off + 2 ≤ 512) :
    memWord (readChunk img m mem) (mapTempAddr + BitVec.ofNat 16 off)
      = BitVec.ofNat 16 (sectorWord img m.toNat off) := by
  have htemp : mapTempAddr.toNat = 4096 := rfl
  have hcell : ∀ k, k < 512 → readChunk img m mem (mapTempAddr + BitVec.ofNat 16 k)
      = img (512 * m.toNat + k : Nat) := by
    intro k hk
    have haddr : (mapTempAddr + BitVec.ofNat 16 k).toNat = 4096 + k := by
      rw [BitVec.toNat_add, BitVec.toNat_ofNat, htemp]
      omega
    rw [readChunk, haddr, htemp, if_pos (by omega), Nat.add_sub_cancel_left]
    push_cast
    rfl
  have hnext : mapTempAddr + BitVec.ofNat 16 off + 1 = mapTempAddr + BitVec.ofNat 16 (off + 1) := by
    rw [BitVec.ofNat_add, BitVec.add_assoc]
    rfl
  rw [memWord, hnext, hcell off (by omega), hcell (off + 1) (by omega), sectorWord]
  rfl

/-- The state behind the run of one entry, which starts at sector `c`. -/
structure AfterRun (s : MapLoader) (c : BitVec 16) (n : Nat) (t : MapLoader) : Prop where
  pc : t.pc = if s.regs.dx.slt mapNextAddr then .handleMapEntry else .mapEnd
  reads : t.reads = s.reads ++ dataLoads s.regs.bx (sectorRun c n)
  bx : t.regs.bx = s.regs.bx + BitVec.ofNat 16 (512 * n)
  si : t.regs.si = s.regs.si + 4
  dx : t.regs.dx = s.regs.dx
  mem : t.mem = s.mem
  saved : t.saved = s.saved

/-- One turn of the loop that reads a run. -/
def MapLoader.turn (s : MapLoader) : MapLoader :=
  { s with
    reads := s.reads ++ [(s.regs.ax, s.regs.bx)]
    regs := { s.regs with
      ax := s.regs.ax + 1, bx := s.regs.bx + 512, cx := s.regs.cx - 1 } }

theorem doMapRead_more (hpc : s.pc = .doMapRead) (hcx : s.regs.cx - 1 ≠ 0) :
    mapLoaderStep img s = some s.turn := by
  rw [mapLoaderStep, hpc]
  dsimp only
  rw [if_pos hcx, MapLoader.turn, hpc]

theorem doMapRead_last (hpc : s.pc = .doMapRead) (hcx : s.regs.cx - 1 = 0) :
    ∃ t, mapLoaderStep img s = some t ∧ AfterRun s s.regs.ax 1 t := by
  have hone : dataLoads s.regs.bx (sectorRun s.regs.ax 1) = [(s.regs.ax, s.regs.bx)] := by
    rw [sectorRun, dataLoads_cons]
    rfl
  rw [mapLoaderStep, hpc]
  dsimp only
  rw [if_neg (not_not.mpr hcx)]
  split
  · next hlow => exact ⟨_, rfl, (if_pos hlow).symm, by rw [hone], rfl, rfl, rfl, rfl, rfl⟩
  · next hhigh => exact ⟨_, rfl, (if_neg hhigh).symm, by rw [hone], rfl, rfl, rfl, rfl, rfl⟩

/-- Runs behind a turn are runs with one sector more. -/
theorem AfterRun.turn {c : BitVec 16} {n : Nat} (hc : s.regs.ax = c)
    (h : AfterRun s.turn (c + 1) n t) : AfterRun s c (n + 1) t where
  pc := h.pc
  reads := by
    rw [h.reads, MapLoader.turn, sectorRun, dataLoads_cons, ← hc]
    exact List.append_assoc _ _ _
  bx := by
    rw [h.bx, MapLoader.turn, Nat.mul_succ, Nat.add_comm, BitVec.ofNat_add]
    exact BitVec.add_assoc _ _ _
  si := h.si
  dx := h.dx
  mem := h.mem
  saved := h.saved

/-- The loop reads as many sectors as CX says, or 65536. -/
theorem doMapRead_run {n : Nat} (hn : n < 2 ^ 16) :
    ∀ {s : MapLoader}, s.pc = .doMapRead → s.regs.cx = BitVec.ofNat 16 (n + 1) →
      ∃ t, Reaches (mapLoaderStep img) s t ∧ AfterRun s s.regs.ax (n + 1) t := by
  induction n with
  | zero =>
      intro s hpc hcx
      have hzero : s.regs.cx - 1 = 0 := by
        rw [hcx]
        rfl
      obtain ⟨t, hstep, hafter⟩ := @doMapRead_last img s hpc hzero
      exact ⟨t, Relation.ReflTransGen.single hstep, hafter⟩
  | succ n ih =>
      intro s hpc hcx
      have hprev : s.regs.cx - 1 = BitVec.ofNat 16 (n + 1) := by
        rw [hcx, BitVec.ofNat_add (n + 1) 1]
        exact BitVec.add_sub_cancel _ _
      -- CX does not wrap: `n + 1` is below 2^16
      have hmore : s.regs.cx - 1 ≠ 0 := by
        rw [hprev]
        intro hzero
        have hnat := congrArg BitVec.toNat hzero
        rw [BitVec.toNat_ofNat, Nat.mod_eq_of_lt hn] at hnat
        exact Nat.succ_ne_zero n hnat
      obtain ⟨t, hreach, hafter⟩ := @ih (by omega) s.turn hpc hprev
      exact ⟨t, Relation.ReflTransGen.head (doMapRead_more hpc hmore) hreach, hafter.turn rfl⟩

/-- An entry is read to the end of its run. -/
theorem handleMapEntry_run {c k : Nat} (hpc : s.pc = .handleMapEntry)
    (hc : memWord s.mem s.regs.si = BitVec.ofNat 16 c) (hc0 : c ≠ 0) (hc16 : c < 2 ^ 16)
    (hk : memWord s.mem (s.regs.si + 2) = BitVec.ofNat 16 k) (hk16 : k < 2 ^ 16) :
    ∃ t, Reaches (mapLoaderStep img) s t ∧
      AfterRun s (BitVec.ofNat 16 c) (mapIterations k) t := by
  have hne : ¬ memWord s.mem s.regs.si = 0 := by
    rw [hc]
    intro hzero
    have hnat := congrArg BitVec.toNat hzero
    rw [BitVec.toNat_ofNat, Nat.mod_eq_of_lt hc16] at hnat
    exact hc0 hnat
  have hstep : mapLoaderStep img s = some { s with
      pc := .doMapRead
      regs := { s.regs with
        ax := memWord s.mem s.regs.si, cx := memWord s.mem (s.regs.si + 2) } } := by
    rw [mapLoaderStep, hpc]
    dsimp only
    rw [if_neg hne]
  obtain ⟨n, hn, hn16⟩ : ∃ n, mapIterations k = n + 1 ∧ n < 2 ^ 16 := by
    rw [mapIterations]
    split
    · exact ⟨2 ^ 16 - 1, rfl, by decide⟩
    · exact ⟨k - 1, by omega, by omega⟩
  -- counting down from zero is counting down from 65536
  have hcx : memWord s.mem (s.regs.si + 2) = BitVec.ofNat 16 (n + 1) := by
    rw [hk, ← hn, mapIterations]
    split
    · next hzero =>
      rw [hzero]
      rfl
    · rfl
  obtain ⟨t, hreach, hafter⟩ := @doMapRead_run img n hn16 { s with
    pc := .doMapRead
    regs := { s.regs with
      ax := memWord s.mem s.regs.si, cx := memWord s.mem (s.regs.si + 2) } } rfl hcx
  rw [hn]
  refine ⟨t, Relation.ReflTransGen.head hstep hreach, hafter.pc, ?_, hafter.bx, hafter.si,
    hafter.dx, hafter.mem, hafter.saved⟩
  rw [hafter.reads, hc]

/-- A zero in place of an entry ends the map. -/
theorem handleMapEntry_stop (hpc : s.pc = .handleMapEntry) (hzero : memWord s.mem s.regs.si = 0) :
    ∃ t, Reaches (mapLoaderStep img) s t ∧ t.pc = .returned ∧ t.reads = s.reads := by
  have hstep : mapLoaderStep img s = some { s with
      pc := .mapChainEnd, regs := { s.regs with ax := memWord s.mem s.regs.si } } := by
    rw [mapLoaderStep, hpc]
    dsimp only
    rw [if_pos hzero]
  exact ⟨_, Relation.ReflTransGen.head hstep (Relation.ReflTransGen.single rfl), rfl, rfl⟩

/-! ## A chunk -/

/-- In front of entry `j` of the chunk in sector `m`. -/
structure AtEntry (img : Int → UInt8) (m j : Nat) (s : MapLoader) : Prop where
  pc : s.pc = .handleMapEntry
  si : s.regs.si = mapTempAddr + BitVec.ofNat 16 (4 * j)
  mem : ∀ off, off + 2 ≤ 512 →
    memWord s.mem (mapTempAddr + BitVec.ofNat 16 off) = BitVec.ofNat 16 (sectorWord img m off)

theorem sectorWord_lt (img : Int → UInt8) (m off : Nat) : sectorWord img m off < 2 ^ 16 := by
  have hlt := leNat_lt (loadAt img (512 * m + off : Nat) 2)
  rw [length_loadAt] at hlt
  exact hlt

/-- The words of the entry. -/
theorem AtEntry.words {m j : Nat} (h : AtEntry img m j s) (hj : 4 * j + 4 ≤ 512) :
    memWord s.mem s.regs.si = BitVec.ofNat 16 (sectorWord img m (4 * j)) ∧
      memWord s.mem (s.regs.si + 2) = BitVec.ofNat 16 (sectorWord img m (4 * j + 2)) := by
  have hcount : s.regs.si + 2 = mapTempAddr + BitVec.ofNat 16 (4 * j + 2) := by
    rw [h.si, BitVec.ofNat_add, BitVec.add_assoc]
    rfl
  rw [hcount, h.si]
  exact ⟨h.mem _ (by omega), h.mem _ (by omega)⟩

/-- A chunk is read into the buffer. -/
theorem readSectorMap_run (hpc : s.pc = .readSectorMap) :
    ∃ t, Reaches (mapLoaderStep img) s t ∧ AtEntry img s.mapSector.toNat 0 t ∧
      t.reads = s.reads ∧ t.regs.bx = s.stage2Addr ∧ t.regs.dx = s.regs.dx ∧
      t.saved.dx = s.regs.dx := by
  have hstep : ∃ t, mapLoaderStep img s = some t ∧ AtEntry img s.mapSector.toNat 0 t ∧
      t.reads = s.reads ∧ t.regs.bx = s.stage2Addr ∧ t.regs.dx = s.regs.dx ∧
      t.saved.dx = s.regs.dx := by
    rw [mapLoaderStep, hpc]
    exact ⟨_, rfl, ⟨rfl, rfl, fun _ hoff => memWord_readChunk _ _ hoff⟩, rfl, rfl, rfl, rfl⟩
  obtain ⟨t, ht, hrest⟩ := hstep
  exact ⟨t, Relation.ReflTransGen.single ht, hrest⟩

/-- The state behind entry `j`. -/
theorem AtEntry.run {m j : Nat} (h : AtEntry img m j s) (hj : 4 * j + 4 ≤ 512)
    (hne : sectorWord img m (4 * j) ≠ 0) :
    ∃ t, Reaches (mapLoaderStep img) s t ∧
      AfterRun s (BitVec.ofNat 16 (sectorWord img m (4 * j)))
        (mapIterations (sectorWord img m (4 * j + 2))) t := by
  obtain ⟨hsector, hcount⟩ := h.words hj
  exact handleMapEntry_run h.pc hsector hne (sectorWord_lt img m _) hcount (sectorWord_lt img m _)

theorem AtEntry.stop {m j : Nat} (h : AtEntry img m j s) (hj : 4 * j + 4 ≤ 512)
    (hzero : sectorWord img m (4 * j) = 0) :
    ∃ t, Reaches (mapLoaderStep img) s t ∧ t.pc = .returned ∧ t.reads = s.reads := by
  apply handleMapEntry_stop h.pc
  rw [(h.words hj).1, hzero]
  rfl

/-- What a run that has returned has read. -/
theorem loads_of_reaches (h : Reaches (mapLoaderStep img) s t) (hpc : t.pc = .returned)
    {cs : List (BitVec 16)} (hreads : t.reads = s.reads ++ dataLoads s.stage2Addr cs) :
    Loads img s cs :=
  ⟨t, mem_eval.mpr ⟨h, by rw [mapLoaderStep, hpc]⟩, hpc, hreads⟩

/-- Whatever is read on the way to the end is among what was to be read. -/
theorem Loads.initial {cs ds : List (BitVec 16)} (h : Loads img s cs)
    (ht : Reaches (mapLoaderStep img) s t) (hreads : t.reads = s.reads ++ dataLoads s.stage2Addr ds) :
    ds <+: cs := by
  obtain ⟨u, hu, -, hend⟩ := h
  rw [reaches_eval ht] at hu
  have hpre := reads_prefix (mem_eval.mp hu).1
  rw [hreads, hend] at hpre
  have hmap := ((List.prefix_append_right_inj _).mp hpre).map Prod.fst
  rwa [dataLoads_fst, dataLoads_fst] at hmap

/-! ## DX below the link -/

/-- Entry by entry through the chunk. -/
theorem AtEntry.entries {m : Nat} {es : List (Nat × Nat)}
    (hes : ∀ e ∈ es, 0 < e.1 ∧ 0 < e.2) :
    ∀ {j : Nat} {s : MapLoader}, AtEntry img m j s → s.regs.dx.slt mapNextAddr = true →
      j + es.length ≤ sectorMapEntries →
      (∀ i e, es[i]? = some e →
        sectorWord img m (4 * (j + i)) = e.1 ∧ sectorWord img m (4 * (j + i) + 2) = e.2) →
      ∃ t, Reaches (mapLoaderStep img) s t ∧ AtEntry img m (j + es.length) t ∧
        t.reads = s.reads ++ dataLoads s.regs.bx ((expand es).map (BitVec.ofNat 16)) ∧
        t.regs.bx = s.regs.bx + BitVec.ofNat 16 (512 * (expand es).length) ∧
        t.regs.dx.slt mapNextAddr = true := by
  have hentries : sectorMapEntries = 127 := rfl
  induction es with
  | nil =>
      intro j s hs hlow _ _
      refine ⟨s, Relation.ReflTransGen.refl, hs, ?_, ?_, hlow⟩
      · exact (List.append_nil _).symm
      · exact (BitVec.add_zero _).symm
  | cons e es ih =>
      intro j s hs hlow hfit hwords
      rw [List.length_cons] at hfit
      obtain ⟨hsector, hcount⟩ := hwords 0 e rfl
      have hj : j + 0 = j := rfl
      rw [hj] at hsector hcount
      obtain ⟨he1, he2⟩ := hes e List.mem_cons_self
      -- this entry's run leaves SI at the next entry
      obtain ⟨u, hreach, hafter⟩ := hs.run (by omega) (by omega)
      rw [hsector, hcount, mapIterations, if_neg (Nat.pos_iff_ne_zero.mp he2)] at hafter
      have hnext : AtEntry img m (j + 1) u := by
        refine ⟨by rw [hafter.pc, if_pos hlow], ?_, fun off hoff => ?_⟩
        · rw [hafter.si, hs.si, Nat.mul_succ, BitVec.ofNat_add, ← BitVec.add_assoc]
          rfl
        · rw [hafter.mem]
          exact hs.mem off hoff
      obtain ⟨t, hreach', hend, hreads, hbx, hlow'⟩ := ih
        (fun e' he' => hes e' (List.mem_cons_of_mem e he')) hnext (by rw [hafter.dx, hlow])
        (by omega) (fun i e' hi => by
          rw [Nat.add_assoc, Nat.add_comm 1]
          exact hwords (i + 1) e' hi)
      refine ⟨t, hreach.trans hreach', ?_, ?_, ?_, hlow'⟩
      · rw [List.length_cons, Nat.add_comm es.length, ← Nat.add_assoc]
        exact hend
      · rw [hreads, hafter.reads, hafter.bx, expand_cons, List.map_append, dataLoads_append,
          List.append_assoc, sectorRun_eq, List.length_map, List.length_range']
      · rw [hbx, hafter.bx, expand_cons, List.length_append, List.length_range', Nat.mul_add,
          BitVec.ofNat_add, BitVec.add_assoc]

/-- With DX below the link, the map is followed if and only if it fits one
    chunk. -/
theorem loads_low_iff {cs : List Nat} (hcs : ∀ c ∈ cs, 0 < c ∧ c < 2 ^ 16)
    (hpc : s.pc = .readSectorMap) (hhead : MapHead img s.mapSector.toNat (runs cs))
    (hlow : s.regs.dx.slt mapNextAddr = true) :
    Loads img s (cs.map (BitVec.ofNat 16)) ↔ (runs cs).length ≤ sectorMapEntries := by
  have hentries : sectorMapEntries = 127 := rfl
  have hpos : ∀ e ∈ runs cs, 0 < e.1 ∧ 0 < e.2 := fun e he =>
    ⟨(hcs _ (mem_runs he).2.1).1, (mem_runs he).1⟩
  obtain ⟨u, hu, hstart, hureads, hubx, hudx, -⟩ := @readSectorMap_run img s hpc
  -- the entries of the chunk, as many as there are
  obtain ⟨t, ht, hend, htreads, htbx, -⟩ := @AtEntry.entries img _ ((runs cs).take sectorMapEntries)
    (fun e he => hpos e (List.mem_of_mem_take he)) _ _ hstart (by rw [hudx, hlow])
    (by rw [Nat.zero_add, List.length_take]; omega) (fun j e he => by
      have hj := (List.getElem?_eq_some_iff.mp he).1
      rw [List.length_take] at hj
      rw [List.getElem?_take_of_lt (by omega)] at he
      rw [Nat.zero_add]
      exact hhead.entry j e (by omega) he)
  rw [Nat.zero_add] at hend
  rw [hureads, hubx] at htreads
  constructor
  · intro hloads
    by_contra hgt
    have hmany : ((runs cs).take sectorMapEntries).length = sectorMapEntries := by
      rw [List.length_take]
      omega
    rw [hmany] at hend
    -- the link is taken for an entry, its count is the reserved word
    obtain ⟨v, hv, hafter⟩ := hend.run (by omega) (hhead.link (by omega))
    have hcount : sectorWord img s.mapSector.toNat (4 * sectorMapEntries + 2) = 0 := hhead.reserved
    rw [hcount, mapIterations, if_pos rfl] at hafter
    have hreads := hafter.reads
    rw [htreads, htbx, hubx, List.append_assoc] at hreads
    rw [← List.length_map (BitVec.ofNat 16), ← dataLoads_append] at hreads
    have hpre := hloads.initial ((hu.trans ht).trans hv) hreads
    have hzero := hpre.subset (List.mem_append_right _ (zero_mem_sectorRun _))
    obtain ⟨c, hc, hc0⟩ := List.mem_map.mp hzero
    have hnat := congrArg BitVec.toNat hc0
    rw [BitVec.toNat_ofNat, Nat.mod_eq_of_lt (hcs c hc).2] at hnat
    exact absurd hnat (Nat.pos_iff_ne_zero.mp (hcs c hc).1)
  · intro hle
    rw [List.take_of_length_le hle] at hend htreads
    have hstop : sectorWord img s.mapSector.toNat (4 * (runs cs).length) = 0 := by
      rcases Nat.lt_or_ge (runs cs).length sectorMapEntries with hlt | hge
      · exact hhead.stop hlt
      · have hfull : 4 * (runs cs).length = nextChunkOffset := by
          have hoffset : nextChunkOffset = 508 := rfl
          omega
        rw [hfull]
        exact hhead.last hle
    obtain ⟨v, hv, hret, hvreads⟩ := hend.stop (by omega) hstop
    apply loads_of_reaches ((hu.trans ht).trans hv) hret
    rw [hvreads, htreads, expand_runs]

/-! ## DX not below the link -/

/-- One chunk: the routine stops, or goes on with the word behind the first
    entry as the next map sector. -/
theorem chunk_high (hpc : s.pc = .readSectorMap) (hhigh : s.regs.dx.slt mapNextAddr = false)
    (hne : sectorWord img s.mapSector.toNat 0 ≠ 0) :
    ∃ t, Reaches (mapLoaderStep img) s t ∧
      t.reads = s.reads ++ dataLoads s.stage2Addr
        (sectorRun (BitVec.ofNat 16 (sectorWord img s.mapSector.toNat 0))
          (mapIterations (sectorWord img s.mapSector.toNat 2))) ∧
      (sectorWord img s.mapSector.toNat 4 = 0 → t.pc = .returned) ∧
      (sectorWord img s.mapSector.toNat 4 ≠ 0 → t.pc = .readSectorMap ∧
        t.mapSector.toNat = sectorWord img s.mapSector.toNat 4 ∧
        t.stage2Addr = s.stage2Addr
          + BitVec.ofNat 16 (512 * mapIterations (sectorWord img s.mapSector.toNat 2)) ∧
        t.regs.dx = s.regs.dx) := by
  obtain ⟨u, hu, hstart, hureads, hubx, hudx, husaved⟩ := @readSectorMap_run img s hpc
  obtain ⟨v, hv, hafter⟩ := hstart.run (by omega) hne
  -- with DX not below the address of the link the chunk is left after one
  -- entry, and SI points behind that entry, not at the link
  have hvpc : v.pc = .mapEnd := by rw [hafter.pc, hudx, hhigh]; rfl
  have hlink : memWord v.mem v.regs.si
      = BitVec.ofNat 16 (sectorWord img s.mapSector.toNat 4) := by
    rw [hafter.mem, hafter.si, hstart.si]
    exact hstart.mem 4 (by omega)
  have hreads := hafter.reads
  rw [hureads, hubx] at hreads
  -- the word found there is taken for the link
  by_cases hzero : sectorWord img s.mapSector.toNat 4 = 0
  · have hlink' : memWord v.mem v.regs.si = 0 := by
      rw [hlink, hzero]
      rfl
    have hstep : mapLoaderStep img v = some { v with
        pc := .mapChainEnd, regs := { v.regs with si := memWord v.mem v.regs.si } } := by
      rw [mapLoaderStep, hvpc]
      dsimp only
      rw [if_pos hlink']
    refine ⟨_, (hu.trans hv).trans (Relation.ReflTransGen.head hstep
      (Relation.ReflTransGen.single rfl)), hreads, fun _ => rfl, fun hn => absurd hzero hn⟩
  · have hlink' : ¬ memWord v.mem v.regs.si = 0 := by
      rw [hlink]
      intro h0
      have hnat := congrArg BitVec.toNat h0
      rw [BitVec.toNat_ofNat, Nat.mod_eq_of_lt (sectorWord_lt img _ _)] at hnat
      exact hzero hnat
    have hstep : mapLoaderStep img v = some { v with
        pc := .readSectorMap
        mapSector := memWord v.mem v.regs.si
        stage2Addr := v.regs.bx
        regs := v.saved } := by
      rw [mapLoaderStep, hvpc]
      dsimp only
      rw [if_neg hlink']
    refine ⟨_, (hu.trans hv).trans (Relation.ReflTransGen.single hstep), hreads,
      fun hz => absurd hz hzero, fun _ => ⟨rfl, ?_, ?_, ?_⟩⟩
    · dsimp only
      rw [hlink, BitVec.toNat_ofNat, Nat.mod_eq_of_lt (sectorWord_lt img _ _)]
    · dsimp only
      rw [hafter.bx, hubx]
    · dsimp only
      rw [hafter.saved, husaved]

/-- The reads of a run that returns are determined. -/
theorem Loads.unique {cs ds : List (BitVec 16)} (h : Loads img s cs) (h' : Loads img s ds) :
    cs = ds := by
  obtain ⟨t, ht, -, hreads⟩ := h
  obtain ⟨t', ht', -, hreads'⟩ := h'
  obtain rfl := Part.mem_unique ht ht'
  have heq := congrArg (List.map Prod.fst) (List.append_cancel_left (hreads.symm.trans hreads'))
  rwa [dataLoads_fst, dataLoads_fst] at heq

/-- Reads behind an intermediate state. -/
theorem loads_append_iff {cs ds : List (BitVec 16)} (ht : Reaches (mapLoaderStep img) s t)
    (hreads : t.reads = s.reads ++ dataLoads s.stage2Addr cs)
    (haddr : t.stage2Addr = s.stage2Addr + BitVec.ofNat 16 (512 * cs.length)) :
    Loads img s (cs ++ ds) ↔ Loads img t ds := by
  rw [Loads, Loads, reaches_eval ht, hreads, haddr, dataLoads_append, List.append_assoc]

/-- A zero at the start of a chunk ends the map. -/
theorem loads_nil (hpc : s.pc = .readSectorMap)
    (hzero : sectorWord img s.mapSector.toNat 0 = 0) : Loads img s [] := by
  obtain ⟨u, hu, hstart, hureads, -⟩ := @readSectorMap_run img s hpc
  obtain ⟨t, ht, hret, hreads⟩ := hstart.stop (by omega) hzero
  apply loads_of_reaches (hu.trans ht) hret
  rw [hreads, hureads]
  exact (List.append_nil _).symm

theorem loads_of_spells {m : Nat} {cs : List (BitVec 16)} (h : Spells img m cs) :
    ∀ {s : MapLoader}, s.pc = .readSectorMap → s.regs.dx.slt mapNextAddr = false →
      s.mapSector.toNat = m → Loads img s cs := by
  induction h with
  | stop hzero =>
      rintro s hpc - rfl
      exact loads_nil hpc hzero
  | last hne hlast =>
      rintro s hpc hhigh rfl
      obtain ⟨t, ht, hreads, hret, -⟩ := chunk_high hpc hhigh hne
      exact loads_of_reaches ht (hret hlast) hreads
  | next hne hlink _ ih =>
      rintro s hpc hhigh rfl
      obtain ⟨t, ht, hreads, -, hnext⟩ := chunk_high hpc hhigh hne
      obtain ⟨htpc, hsector, haddr, hdx⟩ := hnext hlink
      rw [loads_append_iff ht hreads (by rw [haddr, sectorRun_length])]
      exact ih htpc (by rw [hdx, hhigh]) hsector

theorem spells_of_loads {n : Nat} : ∀ {s : MapLoader} {cs : List (BitVec 16)}, cs.length < n →
    s.pc = .readSectorMap → s.regs.dx.slt mapNextAddr = false → Loads img s cs →
      Spells img s.mapSector.toNat cs := by
  -- every chunk that goes on reads a sector, so the sectors left get fewer
  induction n with
  | zero => exact fun h => absurd h (Nat.not_lt_zero _)
  | succ n ih =>
      intro s cs hlen hpc hhigh hloads
      by_cases hzero : sectorWord img s.mapSector.toNat 0 = 0
      · rw [hloads.unique (loads_nil hpc hzero)]
        exact Spells.stop hzero
      · obtain ⟨t, ht, hreads, hret, hnext⟩ := chunk_high hpc hhigh hzero
        by_cases hlast : sectorWord img s.mapSector.toNat 4 = 0
        · rw [hloads.unique (loads_of_reaches ht (hret hlast) hreads)]
          exact Spells.last hzero hlast
        · obtain ⟨htpc, hsector, haddr, hdx⟩ := hnext hlast
          obtain ⟨rest, rfl⟩ := hloads.initial ht hreads
          rw [loads_append_iff ht hreads (by rw [haddr, sectorRun_length])] at hloads
          have hpos : 0 < mapIterations (sectorWord img s.mapSector.toNat 2) := by
            rw [mapIterations]
            split <;> omega
          rw [List.length_append, sectorRun_length] at hlen
          have hrest := ih (by omega) htpc (by rw [hdx, hhigh]) hloads
          rw [hsector] at hrest
          exact Spells.next hzero hlast hrest

/-- With DX not below the link, a map of several runs is followed if and only
    if the sector of the second one spells the rest. -/
theorem loads_high_iff {cs : List Nat} (hne : cs ≠ []) (hcs : ∀ c ∈ cs, 0 < c ∧ c < 2 ^ 16)
    (hpc : s.pc = .readSectorMap) (hhead : MapHead img s.mapSector.toNat (runs cs))
    (hhigh : s.regs.dx.slt mapNextAddr = false) :
    Loads img s (cs.map (BitVec.ofNat 16)) ↔
      (runs cs).length = 1 ∨ ∃ e e' es, runs cs = e :: e' :: es ∧
        Spells img e'.1 ((expand (e' :: es)).map (BitVec.ofNat 16)) := by
  have hexpand := expand_runs cs
  have hpos : ∀ e ∈ runs cs, 0 < e.1 ∧ 0 < e.2 := fun e he =>
    ⟨(hcs _ (mem_runs he).2.1).1, (mem_runs he).1⟩
  have hspells : Loads img s (cs.map (BitVec.ofNat 16)) ↔
      Spells img s.mapSector.toNat (cs.map (BitVec.ofNat 16)) :=
    ⟨spells_of_loads (Nat.lt_succ_self _) hpc hhigh, fun h => loads_of_spells h hpc hhigh rfl⟩
  rw [hspells]
  cases hruns : runs cs with
  | nil =>
      rw [hruns] at hexpand
      exact absurd hexpand.symm hne
  | cons e es =>
      rw [hruns] at hexpand hhead hpos
      obtain ⟨he1, he2⟩ := hpos e List.mem_cons_self
      obtain ⟨hword0, hword2⟩ := hhead.entry 0 e (by decide) rfl
      rw [Nat.mul_zero] at hword0
      rw [Nat.mul_zero, Nat.zero_add] at hword2
      have hfirst : sectorRun (BitVec.ofNat 16 (sectorWord img s.mapSector.toNat 0))
          (mapIterations (sectorWord img s.mapSector.toNat 2))
          = (List.range' e.1 e.2).map (BitVec.ofNat 16) := by
        rw [hword0, hword2, mapIterations, if_neg (Nat.pos_iff_ne_zero.mp he2), sectorRun_eq]
      have hsplit : cs.map (BitVec.ofNat 16)
          = (List.range' e.1 e.2).map (BitVec.ofNat 16) ++ (expand es).map (BitVec.ofNat 16) := by
        rw [← List.map_append, ← expand_cons, hexpand]
      have hne0 : sectorWord img s.mapSector.toNat 0 ≠ 0 := by omega
      cases es with
      | nil =>
          -- behind the only entry there is a zero
          have hword4 : sectorWord img s.mapSector.toNat 4 = 0 :=
            hhead.stop (show 1 < sectorMapEntries by decide)
          refine iff_of_true ?_ (Or.inl rfl)
          have hlast := Spells.last hne0 hword4
          rw [hfirst] at hlast
          rw [hsplit]
          exact (List.append_nil _).symm ▸ hlast
      | cons e' es =>
          obtain ⟨he1', -⟩ := hpos e' (List.mem_cons_of_mem e List.mem_cons_self)
          obtain ⟨hword4, -⟩ := hhead.entry 1 e' (by decide) rfl
          have hne4 : sectorWord img s.mapSector.toNat 4 ≠ 0 := by
            rw [hword4]
            omega
          constructor
          · intro h
            refine Or.inr ⟨e, e', es, rfl, ?_⟩
            rw [hsplit] at h
            generalize hall : (List.range' e.1 e.2).map (BitVec.ofNat 16)
              ++ (expand (e' :: es)).map (BitVec.ofNat 16) = all at h
            cases h with
            | stop hzero => exact absurd hzero hne0
            | last _ hzero => exact absurd hzero hne4
            | next _ _ hrest =>
                rw [hfirst] at hall
                rw [List.append_cancel_left hall, ← hword4]
                exact hrest
          · rintro (hone | ⟨f, f', fs, heq, hrest⟩)
            · exact absurd hone (by simp)
            · cases heq
              have hnext := Spells.next hne0 hne4 (by rw [hword4]; exact hrest)
              rw [hfirst, ← hsplit] at hnext
              exact hnext

/-! ## The round trip -/

/-- The routine as the boot sector of this image calls it. -/
structure Booted (img : Int → UInt8) (s : MapLoader) : Prop where
  pc : s.pc = .readSectorMap
  mapSector : s.mapSector = BitVec.ofNat 16 (sectorWord img 0 stage2MapSector)
  reads : s.reads = []

/-- For every list of sectors of the second stage, every place of the map in
    the image and every value of the registers: the routine reads exactly
    those sectors and returns, if and only if DX is less than the address of
    the link and the map fits one chunk, or DX is not less and the map has one
    entry, or happens to be spelled by the sector of its second entry. -/
theorem sectorMap_round_trip_iff (fat : FatHandle) (hfat : fat = ⟨512, 1⟩) (cs : List Nat)
    (hne : cs ≠ []) (hcs : ∀ c ∈ cs, 0 < c ∧ c < 2 ^ 16) (chunks : List SectorMapChunk)
    (hround1 : round1 fat (cs.map (512 * ·)) = some chunks) (img : Int → UInt8) (ms : List Nat)
    (hstored : MapStored img chunks ms) (img' : Int → UInt8)
    (hround2 : round2 fat img (ms.map (512 * ·)) = some img') (s : MapLoader)
    (hbooted : Booted img' s) :
    Loads img' s (cs.map (BitVec.ofNat 16)) ↔
      (s.regs.dx.slt mapNextAddr = true ∧ (runs cs).length ≤ sectorMapEntries) ∨
      (s.regs.dx.slt mapNextAddr = false ∧ ((runs cs).length = 1 ∨
        ∃ e e' es, runs cs = e :: e' :: es ∧
          Spells img' e'.1 ((expand (e' :: es)).map (BitVec.ofNat 16)))) := by
  obtain ⟨m, hm16, hm, hhead⟩ := sectorMap_head hfat hne hcs hround1 hstored hround2
  have hsector : s.mapSector.toNat = m := by
    rw [hbooted.mapSector, hm, BitVec.toNat_ofNat, Nat.mod_eq_of_lt hm16]
  rw [← hsector] at hhead
  cases hdx : s.regs.dx.slt mapNextAddr with
  | true =>
      rw [loads_low_iff hcs hbooted.pc hhead hdx]
      simp
  | false =>
      rw [loads_high_iff hne hcs hbooted.pc hhead hdx]
      simp

/-! ## A map of two runs -/

namespace TwoRuns

def fat : FatHandle := ⟨512, 1⟩

/-- Sectors 5 and 6, and sector 9. -/
def chunk : SectorMapChunk :=
  ⟨(Vector.replicate sectorMapEntries ⟨0, 0⟩).set 0 ⟨5, 2⟩ |>.set 1 ⟨9, 1⟩, 0, 0⟩

/-- The map lies in sector 20; all else is zero. -/
def image : Int → UInt8 := storeAt (fun _ => 0) (512 * 20 : Nat) chunk.bytes

def linked : Int → UInt8 := round2Loop fat stage2MapSector image ([20].map (512 * ·))

def start (dx : BitVec 16) : MapLoader :=
  ⟨.readSectorMap, ⟨0, 0, 0, dx, 0⟩, ⟨0, 0, 0, 0, 0⟩, 20, 0x7e00, fun _ => 0, []⟩

theorem round1_chunk : round1 fat ([5, 6, 9].map (512 * ·)) = some [chunk] := by decide +kernel

theorem stored : MapStored image [chunk] [20] where
  length_eq := rfl
  nodup := by decide
  range := by decide
  content := by
    intro i m c hm hc
    cases i with
    | zero =>
        cases hm
        cases hc
        have hlen : chunk.bytes.length = 512 := by decide +kernel
        have hload := loadAt_storeAt (fun _ => (0 : UInt8)) (512 * 20 : Nat) chunk.bytes
        rwa [hlen] at hload
    | succ i => cases hm

theorem booted (dx : BitVec 16) : Booted linked (start dx) where
  pc := rfl
  mapSector := by
    show 20 = BitVec.ofNat 16 (sectorWord linked 0 stage2MapSector)
    decide +kernel
  reads := rfl

end TwoRuns

/-- The theorem on the first floppy drive, with DX zero. -/
theorem sectorMap_round_trip_iff_two_runs :
    Loads TwoRuns.linked (TwoRuns.start 0) ([5, 6, 9].map (BitVec.ofNat 16)) :=
  (sectorMap_round_trip_iff TwoRuns.fat rfl [5, 6, 9] (by decide) (by decide) _
    TwoRuns.round1_chunk TwoRuns.image [20] TwoRuns.stored TwoRuns.linked rfl (TwoRuns.start 0)
    (TwoRuns.booted 0)).mpr (Or.inl ⟨by decide, by decide⟩)

/-- The unconditional statement fails: with DH above 0x11 the routine takes
    the start of the second run for a link. -/
theorem sectorMap_misread :
    ¬ ∀ (cs : List Nat) (chunks : List SectorMapChunk) (img img' : Int → UInt8) (ms : List Nat)
      (s : MapLoader), cs ≠ [] → (∀ c ∈ cs, 0 < c ∧ c < 2 ^ 16) →
      round1 ⟨512, 1⟩ (cs.map (512 * ·)) = some chunks → MapStored img chunks ms →
      round2 ⟨512, 1⟩ img (ms.map (512 * ·)) = some img' → Booted img' s →
        Loads img' s (cs.map (BitVec.ofNat 16)) := by
  intro hall
  have hloads := hall [5, 6, 9] _ _ _ [20] (TwoRuns.start 0x2000) (by decide) (by decide)
    TwoRuns.round1_chunk TwoRuns.stored rfl (TwoRuns.booted 0x2000)
  -- sector 9 is zero, so the map seems to end there
  have hspells : Spells TwoRuns.linked 20 ([5, 6].map (BitVec.ofNat 16)) :=
    Spells.next (by decide +kernel) (by decide +kernel) (Spells.stop (by decide +kernel))
  have hshort := loads_of_spells hspells (show (TwoRuns.start 0x2000).pc = .readSectorMap from rfl)
    (by decide) rfl
  have hlen := congrArg List.length (hloads.unique hshort)
  exact absurd hlen (by decide)

end LBoot.Boot
