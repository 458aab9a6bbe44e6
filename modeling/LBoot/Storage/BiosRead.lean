/-
  LBoot.Storage.BiosRead

  Floppy reads are exact or fail.

  The registers of a read address the sector in the standard numbering, as
  long as the numbers fit their registers (`floppyCall_chs`).  A sector is
  tried three times (`floppyReadSector_spec`), one sector after the other
  (`biosReadLoop_spec`).
-/

import LBoot.Storage.Bios

namespace LBoot.Storage

open LBoot.Lib

/-! ## The numbering of the sectors -/

/-- The address of a sector in the standard numbering. -/
def linearChs (sectorsPerTrack heads lba : Nat) : Chs :=
  ⟨lba / (heads * sectorsPerTrack), lba / sectorsPerTrack % heads, lba % sectorsPerTrack + 1⟩

/-- The number of a sector is read off its address. -/
theorem linearChs_lba (sectorsPerTrack heads lba : Nat) :
    ((linearChs sectorsPerTrack heads lba).cylinder * heads +
      (linearChs sectorsPerTrack heads lba).head) * sectorsPerTrack +
      ((linearChs sectorsPerTrack heads lba).sector - 1) = lba := by
  show (lba / (heads * sectorsPerTrack) * heads + lba / sectorsPerTrack % heads) *
    sectorsPerTrack + lba % sectorsPerTrack = lba
  rw [Nat.mul_comm heads, ← Nat.div_div_eq_div_mul, Nat.div_add_mod', Nat.div_add_mod']

/-- A geometry of floppy disks. -/
structure FloppyGeometry (bdata : StorageBiosData) : Prop where
  sectors_pos : 1 ≤ bdata.sectorsPerTrack.toNat
  sectors_le : bdata.sectorsPerTrack.toNat ≤ 63
  heads_pos : 1 ≤ bdata.nHeads.toNat
  heads_le : bdata.nHeads.toNat ≤ 255

theorem FloppyGeometry.sectors_ne {bdata : StorageBiosData} (hg : FloppyGeometry bdata) :
    bdata.sectorsPerTrack ≠ 0 := by
  intro h
  have hpos := hg.sectors_pos
  rw [h] at hpos
  exact absurd hpos (by decide)

theorem FloppyGeometry.heads_ne {bdata : StorageBiosData} (hg : FloppyGeometry bdata) :
    bdata.nHeads ≠ 0 := by
  intro h
  have hpos := hg.heads_pos
  rw [h] at hpos
  exact absurd hpos (by decide)

/-- A byte of a disk. -/
def diskByte (bios : Bios) (bdata : StorageBiosData) (x : Nat) : UInt8 :=
  (bios.disks bdata.biosId
    (linearChs bdata.sectorsPerTrack.toNat bdata.nHeads.toNat (x / 512))).get
      ⟨x % 512, Nat.mod_lt x (by decide)⟩

section

theorem toNat_ofInt16 {n : Nat} (h : n < 2 ^ 16) : (UInt16.ofInt n).toNat = n := by
  have hmod : ((n : Int) % 2 ^ 16).toNat = n := by omega
  rw [UInt16.ofInt, hmod, UInt16.toNat_ofNat', Nat.mod_eq_of_lt h]

theorem toNat_ofInt8 {n : Nat} (h : n < 2 ^ 8) : (UInt8.ofInt n).toNat = n := by
  have hmod : ((n : Int) % 2 ^ 8).toNat = n := by omega
  rw [UInt8.ofInt, hmod, UInt8.toNat_ofNat', Nat.mod_eq_of_lt h]

/-- No bits of the cylinder are in CL. -/
theorem chs_sector {cl : UInt8} (h : cl.toNat < 64) :
    (cl >>> 6).toNat = 0 ∧ (cl &&& 0x3f).toNat = cl.toNat := by
  constructor
  · rw [UInt8.toNat_shiftRight]
    show cl.toNat >>> 6 = 0
    rw [Nat.shiftRight_eq_div_pow]
    omega
  · rw [UInt8.toNat_and]
    show cl.toNat &&& (2 ^ 6 - 1) = cl.toNat
    rw [Nat.and_two_pow_sub_one_eq_mod]
    omega

variable {bdata : StorageBiosData} {lba : Nat}

/-- A sector whose cylinder fits into a byte. -/
theorem FloppyGeometry.track_lt (hg : FloppyGeometry bdata)
    (hcyl : (linearChs bdata.sectorsPerTrack.toNat bdata.nHeads.toNat lba).cylinder < 256) :
    lba / bdata.sectorsPerTrack.toNat < 256 * bdata.nHeads.toNat := by
  have hdiv : lba / (bdata.nHeads.toNat * bdata.sectorsPerTrack.toNat) < 256 := hcyl
  rw [Nat.mul_comm, ← Nat.div_div_eq_div_mul] at hdiv
  exact (Nat.div_lt_iff_lt_mul hg.heads_pos).mp hdiv

/-- The registers hold the address. -/
theorem floppyCall_chs (hg : FloppyGeometry bdata)
    (hcyl : (linearChs bdata.sectorsPerTrack.toNat bdata.nHeads.toNat lba).cylinder < 256)
    (buff : Nat) (call : BiosCall) :
    (floppyCall bdata buff lba call).chs =
      linearChs bdata.sectorsPerTrack.toNat bdata.nHeads.toNat lba := by
  have hheads := hg.heads_le
  have hsectors := hg.sectors_le
  have hmod : lba % bdata.sectorsPerTrack.toNat < bdata.sectorsPerTrack.toNat :=
    Nat.mod_lt _ hg.sectors_pos
  have hhead : lba / bdata.sectorsPerTrack.toNat % bdata.nHeads.toNat < bdata.nHeads.toNat :=
    Nat.mod_lt _ hg.heads_pos
  have htrack := hg.track_lt hcyl
  have hcyl' : lba / bdata.sectorsPerTrack.toNat / bdata.nHeads.toNat < 256 :=
    (Nat.div_lt_iff_lt_mul hg.heads_pos).mpr htrack
  have htrack16 :
      (UInt16.ofInt ((lba : Int).tdiv bdata.sectorsPerTrack.toNat)).toNat =
        lba / bdata.sectorsPerTrack.toNat := by
    rw [← Int.ofNat_tdiv]
    exact toNat_ofInt16 (by omega)
  have hsector : (UInt8.ofInt ((lba : Int).tmod bdata.sectorsPerTrack.toNat + 1)).toNat =
      lba % bdata.sectorsPerTrack.toNat + 1 := by
    have hcast : ((lba % bdata.sectorsPerTrack.toNat : Nat) : Int) + 1 =
        (lba % bdata.sectorsPerTrack.toNat + 1 : Nat) := by omega
    rw [← Int.ofNat_tmod, hcast]
    exact toNat_ofInt8 (by omega)
  obtain ⟨hhigh, hlow⟩ := chs_sector (by rw [hsector]; omega)
  rw [BiosCall.chs, linearChs, Nat.mul_comm bdata.nHeads.toNat, ← Nat.div_div_eq_div_mul]
  simp only [floppyCall, floppyChs, hhigh, hlow, hsector, Nat.zero_mul, Nat.add_zero,
    UInt16.toNat_toUInt8, UInt16.toNat_mod, UInt16.toNat_div, htrack16, Chs.mk.injEq, and_true]
  exact ⟨Nat.mod_eq_of_lt (by omega), Nat.mod_eq_of_lt (by omega)⟩

end

/-! ## One sector -/

/-- Outside a block, memory stays what it was. -/
def KeepsOutside (m m' : Int → UInt8) (buff n : Nat) : Prop :=
  ∀ x : Int, x < buff ∨ buff + n ≤ x → m' x = m x

theorem KeepsOutside.trans {m m' m'' : Int → UInt8} {buff n : Nat}
    (h : KeepsOutside m m' buff n) (h' : KeepsOutside m' m'' buff n) :
    KeepsOutside m m'' buff n :=
  fun x hx => (h' x hx).trans (h x hx)

theorem KeepsOutside.mono {m m' : Int → UInt8} {buff n buff' n' : Nat}
    (h : KeepsOutside m m' buff n) (hlo : buff' ≤ buff) (hhi : buff + n ≤ buff' + n') :
    KeepsOutside m m' buff' n' :=
  fun x hx => h x (by omega)

section

variable {bios : Bios} {bdata : StorageBiosData} {buff : Nat} {offset : Int}

/-- The outcome of an attempt. -/
abbrev Bios.Ok (bios : Bios) (i : Nat) : Prop := (bios.outcomes i).Ok

/-- A reset leaves memory and outcomes alone. -/
theorem floppyReset_eq (st : BiosState) :
    floppyReset bios bdata.biosId st =
      { st with calls := st.calls ++ [⟨0x13, 0x00, 0, 0, 0, bdata.biosId, 0, 0⟩] } := by
  have hax : (0x00 : UInt16) ≠ 0x0201 := by decide
  rw [floppyReset, biosCall, if_neg fun h => hax h.2]

/-- What a read leaves. -/
def afterRead (bios : Bios) (bdata : StorageBiosData) (buff : Nat) (offset : Int) (call : BiosCall)
    (st : BiosState) : BiosState where
  mem := storeAt st.mem buff (if bios.Ok st.reads
    then (bios.disks bdata.biosId (floppyCall bdata buff offset call).chs).toList
    else (bios.outcomes st.reads).junk.take 512)
  calls := st.calls ++ [floppyCall bdata buff offset call]
  reads := st.reads + 1

theorem afterRead_keeps (call : BiosCall) (st : BiosState) :
    KeepsOutside st.mem (afterRead bios bdata buff offset call st).mem buff 512 := by
  intro x hx
  apply storeAt_of_outside
  split_ifs
  · rwa [Vector.length_toList]
  · have hlen : ((bios.outcomes st.reads).junk.take 512).length ≤ 512 := List.length_take_le _ _
    omega

/-- One turn of the loop. -/
theorem floppyAttempts_succ (hbuff : buff < 2 ^ 16) (n : Nat) (call : BiosCall)
    (st : BiosState) :
    floppyAttempts bios bdata buff offset (n + 1) call st =
      if bios.Ok st.reads then (n + 1, afterRead bios bdata buff offset call st)
      else floppyAttempts bios bdata buff offset n (bios.outcomes st.reads).call
        (floppyReset bios bdata.biosId (afterRead bios bdata buff offset call st)) := by
  have hbx : (UInt16.ofNat buff).toNat = buff := by
    rw [UInt16.toNat_ofNat', Nat.mod_eq_of_lt hbuff]
  have hcall : (floppyCall bdata buff offset call).bx.toNat = buff := hbx
  rw [floppyAttempts, biosCall, if_pos ⟨rfl, rfl⟩, hcall]
  rfl

/-- The loop ends with the first success, or when all attempts have failed. -/
theorem floppyAttempts_spec (hbuff : buff < 2 ^ 16) (n : Nat) (call : BiosCall)
    (st : BiosState) :
    (∃ k < n, ∃ st', FirstSuccess bios.Ok st.reads k ∧
      floppyAttempts bios bdata buff offset n call st = (n - k, st') ∧
      st'.reads = st.reads + k + 1 ∧
      loadAt st'.mem buff 512 =
        (bios.disks bdata.biosId (floppyCall bdata buff offset call).chs).toList ∧
      KeepsOutside st.mem st'.mem buff 512) ∨
    (∀ k < n, ¬ bios.Ok (st.reads + k)) ∧
      ∃ st', floppyAttempts bios bdata buff offset n call st = (0, st') ∧
        KeepsOutside st.mem st'.mem buff 512 := by
  induction n generalizing call st with
  | zero =>
      right
      exact ⟨fun k hk => absurd hk (Nat.not_lt_zero k), st, rfl, fun _ _ => rfl⟩
  | succ n ih =>
      rw [floppyAttempts_succ hbuff]
      have hkeep := @afterRead_keeps bios bdata buff offset call st
      by_cases hok : bios.Ok st.reads
      · -- this attempt is the first success
        left
        rw [if_pos hok]
        refine ⟨0, Nat.succ_pos n, _, firstSuccess_zero hok, rfl, rfl, ?_, hkeep⟩
        rw [afterRead, if_pos hok]
        have hload := loadAt_storeAt st.mem buff
          (bios.disks bdata.biosId (floppyCall bdata buff offset call).chs).toList
        rwa [Vector.length_toList] at hload
      · -- the controller is reset, and the others follow
        rw [if_neg hok, floppyReset_eq]
        obtain ⟨k, hk, st', hfirst, hrun, hreads, hload, hrest⟩ | ⟨hall, st', hrun, hrest⟩ :=
          ih (bios.outcomes st.reads).call
            { afterRead bios bdata buff offset call st with
              calls := (afterRead bios bdata buff offset call st).calls ++
                [⟨0x13, 0x00, 0, 0, 0, bdata.biosId, 0, 0⟩] }
        · left
          refine ⟨k + 1, Nat.succ_lt_succ hk, st', hfirst.succ hok, ?_, ?_, hload,
            hkeep.trans hrest⟩
          · rw [Nat.succ_sub_succ]
            exact hrun
          · rw [hreads]
            show st.reads + 1 + k + 1 = st.reads + (k + 1) + 1
            omega
        · right
          exact ⟨failures_succ hok hall, st', hrun, hkeep.trans hrest⟩

theorem toList_getElem?_diskByte (lba : Nat) {i : Nat} (hi : i < 512) :
    (bios.disks bdata.biosId
      (linearChs bdata.sectorsPerTrack.toNat bdata.nHeads.toNat lba)).toList[i]? =
        some (diskByte bios bdata (512 * lba + i)) := by
  have hdiv : (512 * lba + i) / 512 = lba := by omega
  have hmod : (512 * lba + i) % 512 = i := by omega
  simp only [diskByte, hdiv, hmod]
  rw [List.getElem?_eq_getElem (by rwa [Vector.length_toList])]
  rfl

/-- The loop, and what its result is made into. -/
theorem floppyReadSector_eq (hsectors : bdata.sectorsPerTrack ≠ 0) (hheads : bdata.nHeads ≠ 0)
    (hbuff : buff < 2 ^ 16) (lba : Nat) (st : BiosState) :
    floppyReadSector bios bdata buff (512 * lba : Nat) st =
      .ok (if (floppyAttempts bios bdata buff lba 3 ⟨0, 0, 0, 0, 0, 0, 0, 0⟩ st).1 = 0 then -1
        else 0, (floppyAttempts bios bdata buff lba 3 ⟨0, 0, 0, 0, 0, 0, 0, 0⟩ st).2) := by
  have hdiv : ((512 * lba : Nat) : Int).tdiv 512 = lba := by
    show ((512 * lba : Nat) : Int).tdiv (512 : Nat) = lba
    rw [← Int.ofNat_tdiv, Nat.mul_div_cancel_left lba (by decide)]
  rw [floppyReadSector, if_neg (by omega), if_neg (not_or.mpr ⟨hsectors, hheads⟩), hdiv]
  simp only [Nat.reduceSub]
  split_ifs <;> rfl

/-- Three attempts at a sector. -/
theorem floppyReadSector_spec (hg : FloppyGeometry bdata) {lba : Nat}
    (hcyl : (linearChs bdata.sectorsPerTrack.toNat bdata.nHeads.toNat lba).cylinder < 256)
    (hbuff : buff < 2 ^ 16) (st : BiosState) :
    (∃ k < 3, ∃ st', FirstSuccess bios.Ok st.reads k ∧
      floppyReadSector bios bdata buff (512 * lba : Nat) st = .ok (0, st') ∧
      st'.reads = st.reads + k + 1 ∧
      (∀ i < 512, st'.mem (buff + i : Nat) = diskByte bios bdata (512 * lba + i)) ∧
      KeepsOutside st.mem st'.mem buff 512) ∨
    (∀ k < 3, ¬ bios.Ok (st.reads + k)) ∧
      ∃ st', floppyReadSector bios bdata buff (512 * lba : Nat) st = .ok (-1, st') ∧
        KeepsOutside st.mem st'.mem buff 512 := by
  rw [floppyReadSector_eq hg.sectors_ne hg.heads_ne hbuff]
  obtain ⟨k, hk, st', hfirst, hloop, hreads, hload, hkeep⟩ | ⟨hall, st', hloop, hkeep⟩ :=
    @floppyAttempts_spec bios bdata buff lba hbuff 3 ⟨0, 0, 0, 0, 0, 0, 0, 0⟩ st
  · left
    refine ⟨k, hk, st', hfirst, ?_, hreads, fun i hi => ?_, hkeep⟩
    · rw [hloop, if_neg (by omega)]
    · rw [floppyCall_chs hg hcyl] at hload
      have hbyte := (loadAt_eq_iff Vector.length_toList).mp hload i hi
      rw [toList_getElem?_diskByte lba hi] at hbyte
      exact (Option.some.inj hbyte).symm
  · right
    refine ⟨hall, st', ?_, hkeep⟩
    rw [hloop, if_pos rfl]

/-! ## All sectors -/

/-- The byte address of such a sector fits into an `off_t`. -/
theorem FloppyGeometry.lba_lt (hg : FloppyGeometry bdata) {lba : Nat}
    (hcyl : (linearChs bdata.sectorsPerTrack.toNat bdata.nHeads.toNat lba).cylinder < 256) :
    512 * lba < 2 ^ 31 - 2 ^ 16 := by
  have htrack := hg.track_lt hcyl
  rw [Nat.div_lt_iff_lt_mul hg.sectors_pos] at htrack
  have hall : 256 * bdata.nHeads.toNat * bdata.sectorsPerTrack.toNat ≤ 256 * 255 * 63 :=
    Nat.mul_le_mul (Nat.mul_le_mul_left 256 hg.heads_le) hg.sectors_le
  omega

/-- The loop of `_read`, with `n` sectors to go. -/
theorem biosReadLoop_spec (hg : FloppyGeometry bdata) {first total n j : Nat} (hj : j + n = total)
    (hcyl : ∀ k < total,
      (linearChs bdata.sectorsPerTrack.toNat bdata.nHeads.toNat (first + k)).cylinder < 256)
    (hbuff : buff + 512 * total ≤ 2 ^ 16) (st : BiosState) :
    ∃ ret st', biosReadLoop bios bdata buff (512 * first : Nat) (512 * total) (512 * j) st =
        .ok (ret, st') ∧
      KeepsOutside st.mem st'.mem (buff + 512 * j) (512 * n) ∧
      (Served bios.Ok 3 n st.reads ∧ ret = (512 * total : Nat) ∧
          (∀ i, 512 * j ≤ i → i < 512 * total →
            st'.mem (buff + i : Nat) = diskByte bios bdata (512 * first + i)) ∨
        ¬ Served bios.Ok 3 n st.reads ∧ ret = -1) := by
  induction n generalizing j st with
  | zero =>
      obtain rfl : j = total := hj
      rw [biosReadLoop, if_neg (Nat.lt_irrefl _), s32_of_range (by omega) (by omega)]
      exact ⟨_, st, rfl, fun _ _ => rfl, Or.inl ⟨trivial, rfl, fun i _ _ => by omega⟩⟩
  | succ n ih =>
      have hlba := hg.lba_lt (hcyl j (by omega))
      have haddr : s32 ((512 * first : Nat) + (512 * j : Nat)) = (512 * (first + j) : Nat) := by
        rw [s32_of_range (by omega) (by omega)]
        omega
      rw [biosReadLoop, if_pos (by omega), haddr, u32_of_lt (by omega)]
      obtain ⟨k, hk, st₁, hfirst, hrun, hreads, hbytes, hkeep⟩ | ⟨hall, st₁, hrun, hkeep⟩ :=
        @floppyReadSector_spec bios bdata (buff + 512 * j) hg (first + j) (hcyl j (by omega))
          (by omega) st
      · rw [hrun]
        obtain ⟨ret, st', hloop, hrest, hres⟩ := @ih (j + 1) (by omega) st₁
        refine ⟨ret, st', hloop, ?_, ?_⟩
        · exact (hkeep.mono (by omega) (by omega)).trans (hrest.mono (by omega) (by omega))
        · rw [hreads, ← hfirst.served_succ_iff hk] at hres
          refine hres.imp_left ?_
          rintro ⟨hserved, hret, hlater⟩
          refine ⟨hserved, hret, fun i hlo hhi => ?_⟩
          -- the bytes of this sector are not touched by the later ones
          by_cases hthis : i < 512 * (j + 1)
          · obtain ⟨d, rfl⟩ := Nat.exists_eq_add_of_le hlo
            have hbyte := hbytes d (by omega)
            have hsector : 512 * (first + j) + d = 512 * first + (512 * j + d) := by omega
            rw [hrest _ (Or.inl (by omega)), ← Nat.add_assoc, hbyte, hsector]
          · exact hlater i (by omega) hhi
      · rw [hrun]
        exact ⟨-1, st₁, rfl, hkeep.mono (by omega) (by omega), Or.inr ⟨not_served_succ hall, rfl⟩⟩

end

/-- A floppy read returns the size exactly if every sector is read within
    three attempts, and then the buffer holds the bytes of the disk; otherwise
    it returns -1. -/
theorem biosRead_exact (bios : Bios) (bdata : StorageBiosData) (buff offset size : Nat)
    (st : BiosState) (hid : bdata.biosId < 0x80) (hg : FloppyGeometry bdata)
    (hoffset : 512 ∣ offset) (hsize : 512 ∣ size)
    (hcyl : ∀ lba, offset / 512 ≤ lba → lba < (offset + size) / 512 →
      (linearChs bdata.sectorsPerTrack.toNat bdata.nHeads.toNat lba).cylinder < 256)
    (hbuff : buff + size ≤ 0x10000) :
    ∃ ret st', biosRead bios bdata buff offset size st = .ok (ret, st') ∧
      (ret = size ↔ Served bios.Ok 3 (size / 512) st.reads) ∧
      (ret = size → ∀ i < size, st'.mem (buff + i : Nat) = diskByte bios bdata (offset + i)) ∧
      (ret ≠ size → ret = -1) ∧ KeepsOutside st.mem st'.mem buff size := by
  obtain ⟨first, rfl⟩ := hoffset
  obtain ⟨total, rfl⟩ := hsize
  obtain ⟨ret, st', hloop, hkeep, hres⟩ :=
    @biosReadLoop_spec bios bdata buff hg first total total 0 (Nat.zero_add total)
      (fun k hk => hcyl (first + k) (by omega) (by omega)) hbuff st
  have haligned : ¬ (((512 * first : Nat) : Int).tmod 512 ≠ 0 ∨ 512 * total % 512 ≠ 0) := by
    have htmod : ((512 * first : Nat) : Int).tmod 512 = 0 := by
      show ((512 * first : Nat) : Int).tmod (512 : Nat) = 0
      rw [← Int.ofNat_tmod, Nat.mul_mod_right]
      rfl
    omega
  refine ⟨ret, st', ?_, ?_⟩
  · rw [biosRead, if_neg haligned, if_neg (by omega), if_pos hid]
    exact hloop
  · have hn : 512 * total / 512 = total := Nat.mul_div_cancel_left total (by decide)
    rw [hn]
    obtain ⟨hserved, hret, hbytes⟩ | ⟨hserved, hret⟩ := hres
    · exact ⟨iff_of_true hret hserved, fun _ i hi => hbytes i (Nat.zero_le i) hi,
        fun h => absurd hret h, hkeep⟩
    · have hne : ret ≠ (512 * total : Nat) := by omega
      exact ⟨iff_of_false hne hserved, fun h => absurd h hne, fun _ => hret, hkeep⟩

/-- Two sectors of a 1.44 MB disk, the first of which fails once. -/
theorem biosRead_exact_two :
    ∃ ret st', biosRead
        ⟨fun _ chs => Vector.replicate 512 (UInt8.ofNat chs.sector),
          fun i => ⟨⟨0x13, 0, 0, 0, 0, 0, 0, if i = 0 then 1 else 0⟩, []⟩⟩
        ⟨0, 18, 2⟩ 0x7e00 (512 * 17 : Nat) 1024 ⟨fun _ => 0, [], 0⟩ = .ok (ret, st') ∧
      (ret = (1024 : Nat) → st'.mem (0x7e00 + 512 : Nat) = 1) := by
  have hcyl : ∀ lba, 512 * 17 / 512 ≤ lba → lba < (512 * 17 + 1024) / 512 →
      (linearChs 18 2 lba).cylinder < 256 := by
    intro lba _ hlt
    show lba / (2 * 18) < 256
    omega
  obtain ⟨ret, st', hrun, -, hbytes, -⟩ := biosRead_exact
    ⟨fun _ chs => Vector.replicate 512 (UInt8.ofNat chs.sector),
      fun i => ⟨⟨0x13, 0, 0, 0, 0, 0, 0, if i = 0 then 1 else 0⟩, []⟩⟩
    ⟨0, 18, 2⟩ 0x7e00 (512 * 17) 1024 ⟨fun _ => 0, [], 0⟩ (by decide)
    ⟨by decide, by decide, by decide, by decide⟩ (Nat.dvd_mul_right 512 17) (by omega)
    hcyl (by decide)
  refine ⟨ret, st', hrun, fun hret => (hbytes hret 512 (by decide)).trans ?_⟩
  rfl

end LBoot.Storage
