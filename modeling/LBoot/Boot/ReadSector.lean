/-
  LBoot.Boot.ReadSector

  The boot sector's `read_sector` for floppies (stage1/inc/read_sector.inc).

  The BIOS is what `int $0x13` leaves in CF and AX, by the number of the read;
  it preserves the other registers.  The data it stores is not looked at by
  the routine.

  The attempts are counted in SI, and the loop is left when the decrement of
  SI overflows: that is not behind zero, but behind -32768.  So the routine
  gives up after 32771 reads (`attempts_eval`).  The address it reads is that
  of the second stage (`block_to_chs`).
-/

import LBoot.Boot.SectorMap
import LBoot.Storage.BiosRead

namespace LBoot.Boot

open LBoot.Lib LBoot.Storage StateTransition

/-! ## Instructions -/

def lowByte (w : BitVec 16) : BitVec 8 := w.extractLsb' 0 8

def highByte (w : BitVec 16) : BitVec 8 := w.extractLsb' 8 8

/-- `movb` to the low half of a register. -/
def setLow (w : BitVec 16) (b : BitVec 8) : BitVec 16 := highByte w ++ b

/-- `movb` to the high half of a register. -/
def setHigh (w : BitVec 16) (b : BitVec 8) : BitVec 16 := b ++ lowByte w

/-- `divw`, of DX:AX: the new AX and DX, or a divide error. -/
def divw (dx ax d : BitVec 16) : Option (BitVec 16 × BitVec 16) :=
  let n := (dx ++ ax).toNat
  if d = 0 ∨ 2 ^ 16 ≤ n / d.toNat then none
  else some (BitVec.ofNat 16 (n / d.toNat), BitVec.ofNat 16 (n % d.toNat))

/-- The call that `int $0x13` makes. -/
def Regs.int13 (r : Regs) : BiosCall :=
  ⟨0x13, ⟨r.ax⟩, ⟨r.bx⟩, ⟨lowByte r.cx⟩, ⟨highByte r.cx⟩, ⟨lowByte r.dx⟩, ⟨highByte r.dx⟩, 0⟩

/-! ## Model -/

/-- What the boot sector says of the disk: `fat.sectors_per_track` and
    `fat.head_count`. -/
structure BootGeometry where
  sectorsPerTrack : UInt16
  headCount : UInt16
  deriving DecidableEq, Repr

/-- What `int $0x13` leaves. -/
structure Int13Result where
  carry : Bool
  ax : BitVec 16
  deriving DecidableEq, Repr

/-- The labels of `read_sector`; `returned` is behind the `ret`, and
    `divideError` is the exception. -/
inductive ReadLabel where
  | readSector
  | attemptRead
  | diskError
  | divideError
  | returned
  deriving DecidableEq, Repr

structure SectorReader where
  pc : ReadLabel
  regs : Regs
  /-- what `pusha` saved -/
  saved : Regs
  /-- the calls of INT 13h -/
  reads : List BiosCall

/-- From one label to the next. -/
def readSectorStep (fat : BootGeometry) (results : Nat → Int13Result) (s : SectorReader) :
    Option SectorReader :=
  match s.pc with
  | .readSector =>
      -- the block address by sectors: AX is the track, DX the sector
      match divw 0 s.regs.ax fat.sectorsPerTrack.toBitVec with
      | none => some { s with pc := .divideError, saved := s.regs }
      | some (ax, dx) =>
          let cx := setLow s.regs.cx (lowByte dx + 1)
          -- the track by heads: AX is the cylinder, DX the head
          match divw 0 ax fat.headCount.toBitVec with
          | none => some { s with pc := .divideError, saved := s.regs }
          | some (ax, dx) =>
              let cx := setHigh cx (lowByte ax)
              let dx := setHigh dx (lowByte dx)
              -- the drive number and the destination come back from the stack
              let dx := setLow dx (lowByte s.regs.dx)
              some { s with
                pc := .attemptRead
                saved := s.regs
                regs := ⟨ax, s.regs.bx, cx, dx, 3⟩ }
  | .attemptRead =>
      let regs : Regs := { s.regs with si := s.regs.si - 1 }
      -- `jo`: the decrement overflows
      if s.regs.si.ssubOverflow 1 then some { s with pc := .diskError, regs }
      else
        let regs : Regs := { regs with ax := 0x0201 }
        let result := results s.reads.length
        let reads := s.reads ++ [regs.int13]
        if result.carry then some { s with regs := { regs with ax := result.ax }, reads }
        else some { s with pc := .returned, regs := s.saved, reads }
  | .diskError => none
  | .divideError => none
  | .returned => none

/-! ## Registers -/

section

variable (w : BitVec 16) (b : BitVec 8)

@[simp] theorem lowByte_setLow : lowByte (setLow w b) = b := BitVec.extractLsb'_append_eq_right

@[simp] theorem highByte_setLow : highByte (setLow w b) = highByte w :=
  BitVec.extractLsb'_append_eq_left

@[simp] theorem lowByte_setHigh : lowByte (setHigh w b) = lowByte w :=
  BitVec.extractLsb'_append_eq_right

@[simp] theorem highByte_setHigh : highByte (setHigh w b) = b := BitVec.extractLsb'_append_eq_left

end

theorem lowByte_toUInt8 (w : UInt16) : UInt8.ofBitVec (lowByte w.toBitVec) = w.toUInt8 := by
  apply UInt8.toNat_inj.mp
  show (lowByte w.toBitVec).toNat = _
  rw [lowByte, BitVec.extractLsb'_toNat, Nat.shiftRight_zero, UInt16.toNat_toUInt8]
  rfl

theorem divw_zero {ax d : BitVec 16} (hd : d ≠ 0) : divw 0 ax d = some (ax / d, ax % d) := by
  have hn : ((0 : BitVec 16) ++ ax).toNat = ax.toNat := by
    rw [BitVec.toNat_append]
    show 0 <<< 16 ||| ax.toNat = ax.toNat
    rw [Nat.zero_shiftLeft, Nat.zero_or]
  have hax := ax.isLt
  have hquot : ax.toNat / d.toNat ≤ ax.toNat := Nat.div_le_self _ _
  have hrem : ax.toNat % d.toNat ≤ ax.toNat := Nat.mod_le _ _
  have hok : ¬ (d = 0 ∨ 2 ^ 16 ≤ ax.toNat / d.toNat) := by
    rintro (h | h)
    · exact hd h
    · omega
  rw [divw, hn, if_neg hok, Option.some.injEq, Prod.mk.injEq]
  constructor
  · apply BitVec.eq_of_toNat_eq
    rw [BitVec.toNat_ofNat, BitVec.toNat_udiv, Nat.mod_eq_of_lt (by omega)]
  · apply BitVec.eq_of_toNat_eq
    rw [BitVec.toNat_ofNat, BitVec.toNat_umod, Nat.mod_eq_of_lt (by omega)]

theorem divw_by_zero (dx ax : BitVec 16) : divw dx ax 0 = none := by
  rw [divw, if_pos (Or.inl rfl)]

/-- Only the least number cannot be decremented. -/
theorem ssubOverflow_one (w : BitVec 16) : w.ssubOverflow 1 = true ↔ w = 0x8000 := by
  have hone : (1 : BitVec 16).toInt = 1 := rfl
  have hmin : (0x8000 : BitVec 16).toInt = -2 ^ 15 := rfl
  have hlt := w.toInt_lt
  have hle := w.le_toInt
  rw [BitVec.ssubOverflow, ← BitVec.toInt_inj, hone, hmin, Bool.or_eq_true, decide_eq_true_iff,
    decide_eq_true_iff]
  omega

/-! ## The address -/

/-- The second stage reads this address. -/
def Stage2Reads (bdata : StorageBiosData) (lba : Nat) (chs : Chs) : Prop :=
  ∃ bios buff mem ret st',
    floppyReadSector bios bdata buff (512 * lba : Nat) ⟨mem, [], 0⟩ = .ok (ret, st') ∧
      ∃ call ∈ st'.calls, call.ax = 0x0201 ∧ call.chs = chs

section

variable {bios : Bios} {bdata : StorageBiosData} {buff : Nat} {offset : Int}

/-- The address of a read. -/
def floppyAddress (bdata : StorageBiosData) (offset : Int) : Chs :=
  (floppyCall bdata 0 offset ⟨0, 0, 0, 0, 0, 0, 0, 0⟩).chs

/-- The reads are all of that address. -/
theorem floppyAttempts_calls (hbuff : buff < 2 ^ 16) (n : Nat) (call : BiosCall)
    (st : BiosState) :
    ∀ c ∈ (floppyAttempts bios bdata buff offset n call st).2.calls, c.ax = 0x0201 →
      c ∈ st.calls ∨ c.chs = floppyAddress bdata offset := by
  induction n generalizing call st with
  | zero =>
      intro c hc _
      exact Or.inl hc
  | succ n ih =>
      have hread : ∀ c ∈ (afterRead bios bdata buff offset call st).calls,
          c ∈ st.calls ∨ c.chs = floppyAddress bdata offset := by
        intro c hc
        obtain hc | hc := List.mem_append.mp hc
        · exact Or.inl hc
        · rw [List.mem_singleton.mp hc]
          exact Or.inr rfl
      intro c hc hax
      rw [floppyAttempts_succ hbuff] at hc
      split_ifs at hc with hok
      · exact hread c hc
      · obtain hc | hc := ih _ _ c hc hax
        · rw [floppyReset_eq] at hc
          obtain hc | hc := List.mem_append.mp hc
          · exact hread c hc
          · -- the reset is no read
            rw [List.mem_singleton.mp hc] at hax
            have hreset : (0x00 : UInt16) ≠ 0x0201 := by decide
            exact absurd hax hreset
        · exact Or.inr hc

/-- The second stage reads one address. -/
theorem stage2Reads_iff (hsectors : bdata.sectorsPerTrack ≠ 0) (hheads : bdata.nHeads ≠ 0)
    (lba : Nat) (chs : Chs) : Stage2Reads bdata lba chs ↔ chs = floppyAddress bdata lba := by
  constructor
  · rintro ⟨bios, buff, mem, ret, st', hrun, call, hcall, hax, rfl⟩
    have hbuff : buff < 2 ^ 16 := by
      by_contra hlarge
      rw [floppyReadSector, if_pos (by omega)] at hrun
      cases hrun
    rw [floppyReadSector_eq hsectors hheads hbuff] at hrun
    have hst' := (Prod.mk.inj (Except.ok.inj hrun)).2
    rw [← hst'] at hcall
    obtain hcall | hcall := floppyAttempts_calls hbuff _ _ _ call hcall hax
    · exact absurd hcall List.not_mem_nil
    · exact hcall
  · -- the first read is made in any case; here it succeeds
    rintro rfl
    let bios : Bios :=
      ⟨fun _ _ => Vector.replicate 512 0, fun _ => ⟨⟨0x13, 0, 0, 0, 0, 0, 0, 0⟩, []⟩⟩
    have hok : bios.Ok 0 := by
      show (0 : UInt32) &&& eflagsCf = 0
      decide
    let st : BiosState := ⟨fun _ => 0, [], 0⟩
    have hrun : floppyAttempts bios bdata 0 lba 3 ⟨0, 0, 0, 0, 0, 0, 0, 0⟩ st =
        (3, afterRead bios bdata 0 lba ⟨0, 0, 0, 0, 0, 0, 0, 0⟩ st) := by
      rw [floppyAttempts_succ (by decide), if_pos hok]
    refine ⟨bios, 0, fun _ => 0, 0, afterRead bios bdata 0 lba ⟨0, 0, 0, 0, 0, 0, 0, 0⟩ st, ?_,
      floppyCall bdata 0 lba ⟨0, 0, 0, 0, 0, 0, 0, 0⟩, List.mem_singleton_self _, rfl, rfl⟩
    rw [floppyReadSector_eq hsectors hheads (by decide), hrun]
    rfl

end

/-- The registers at the attempts hold the address of the second stage. -/
theorem block_to_chs (fat : BootGeometry) (biosId : UInt8) (lba cx dx : BitVec 16)
    (ax bx si : BitVec 16) (dl : BitVec 8) :
    (Regs.int13 ⟨ax, bx, setHigh (setLow cx (lowByte (lba % fat.sectorsPerTrack.toBitVec) + 1))
        (lowByte (lba / fat.sectorsPerTrack.toBitVec / fat.headCount.toBitVec)),
      setLow (setHigh dx (lowByte (lba / fat.sectorsPerTrack.toBitVec % fat.headCount.toBitVec)))
        dl, si⟩).chs =
      floppyAddress ⟨biosId, fat.sectorsPerTrack, fat.headCount⟩ lba.toNat := by
  have htrack : UInt16.ofInt ((lba.toNat : Int).tdiv fat.sectorsPerTrack.toNat) =
      UInt16.ofBitVec lba / fat.sectorsPerTrack := by
    apply UInt16.toNat_inj.mp
    have hle : lba.toNat / fat.sectorsPerTrack.toNat ≤ lba.toNat := Nat.div_le_self _ _
    have hlt := lba.isLt
    rw [← Int.ofNat_tdiv, toNat_ofInt16 (by omega), UInt16.toNat_div]
    rfl
  have hsector : UInt8.ofInt ((lba.toNat : Int).tmod fat.sectorsPerTrack.toNat + 1) =
      (UInt16.ofBitVec lba % fat.sectorsPerTrack).toUInt8 + 1 := by
    apply UInt8.toNat_inj.mp
    rw [← Int.ofNat_tmod, UInt8.ofInt, UInt8.toNat_ofNat', UInt8.toNat_add, UInt16.toNat_toUInt8,
      UInt16.toNat_mod]
    show _ = ((lba.toNat % fat.sectorsPerTrack.toNat) % 2 ^ 8 + 1) % 2 ^ 8
    omega
  simp only [Regs.int13, floppyAddress, floppyCall, floppyChs, htrack, hsector, BiosCall.chs,
    lowByte_setLow, highByte_setLow, lowByte_setHigh, highByte_setHigh, ← lowByte_toUInt8]
  rfl

/-! ## The attempts -/

/-- The read with this number succeeds. -/
def ReadOk (results : Nat → Int13Result) (i : Nat) : Prop := (results i).carry = false

instance (results : Nat → Int13Result) (i : Nat) : Decidable (ReadOk results i) :=
  inferInstanceAs (Decidable (_ = _))

/-- A routine that has ended, after these attempts. -/
structure Attempted (results : Nat → Int13Result) (chs : Chs) (first n : Nat) (t : SectorReader) :
    Prop where
  address : ∀ call ∈ t.reads, call.chs = chs
  ended : (∃ k < n, FirstSuccess (ReadOk results) first k ∧ t.pc = .returned ∧
      t.reads.length = first + k + 1) ∨
    (∀ k < n, ¬ ReadOk results (first + k)) ∧ t.pc = .diskError ∧ t.reads.length = first + n

section

variable {fat : BootGeometry} {results : Nat → Int13Result} {s : SectorReader}

theorem mem_eval_of_step {s' t : SectorReader} (hstep : readSectorStep fat results s = some s')
    (ht : t ∈ eval (readSectorStep fat results) s') : t ∈ eval (readSectorStep fat results) s := by
  rwa [reaches_eval (Relation.ReflTransGen.single hstep)]

theorem mem_eval_of_halt (hstep : readSectorStep fat results s = none) :
    s ∈ eval (readSectorStep fat results) s :=
  mem_eval.mpr ⟨Relation.ReflTransGen.refl, hstep⟩

/-- The state behind a read that fails. -/
def failedRead (results : Nat → Int13Result) (s : SectorReader) : SectorReader :=
  { s with
    regs := { s.regs with ax := (results s.reads.length).ax, si := s.regs.si - 1 }
    reads := s.reads ++ [{ s.regs with ax := 0x0201, si := s.regs.si - 1 }.int13] }

/-- An attempt. -/
theorem attemptRead_step (hpc : s.pc = .attemptRead) (hsi : s.regs.si ≠ 0x8000) :
    readSectorStep fat results s =
      if ReadOk results s.reads.length
      then some { failedRead results s with pc := .returned, regs := s.saved }
      else some (failedRead results s) := by
  obtain ⟨pc, regs, saved, reads⟩ := s
  obtain rfl : pc = .attemptRead := hpc
  have hno : ¬ regs.si.ssubOverflow 1 = true := (ssubOverflow_one regs.si).not.mpr hsi
  rw [readSectorStep]
  simp only [if_neg hno]
  by_cases hok : ReadOk results reads.length
  · rw [if_pos hok, if_neg (Bool.eq_false_iff.mp hok)]
    rfl
  · rw [if_neg hok, if_pos (eq_true_of_ne_false hok)]
    rfl

/-- No attempt is left. -/
theorem attemptRead_overflow (hpc : s.pc = .attemptRead) (hsi : s.regs.si = 0x8000) :
    readSectorStep fat results s =
      some { s with pc := .diskError, regs := { s.regs with si := s.regs.si - 1 } } := by
  have hover : s.regs.si.ssubOverflow 1 = true := (ssubOverflow_one s.regs.si).mpr hsi
  rw [readSectorStep, hpc]
  exact if_pos hover

/-- The loop, from -32768 + `n` in SI on. -/
theorem attempts_eval {n : Nat} (hn : n < 2 ^ 16) (hpc : s.pc = .attemptRead)
    (hsi : s.regs.si = BitVec.ofNat 16 (2 ^ 15 + n)) {chs : Chs} (hchs : s.regs.int13.chs = chs)
    (hreads : ∀ call ∈ s.reads, call.chs = chs) :
    ∃ t ∈ eval (readSectorStep fat results) s, Attempted results chs s.reads.length n t := by
  induction n generalizing s with
  | zero =>
      -- SI holds -32768
      have hstep := @attemptRead_overflow fat results s hpc hsi
      exact ⟨_, mem_eval_of_step hstep (mem_eval_of_halt rfl), hreads,
        Or.inr ⟨fun k hk => absurd hk (Nat.not_lt_zero k), rfl, rfl⟩⟩
  | succ n ih =>
      have hne : s.regs.si ≠ 0x8000 := by
        intro h
        have hval := congrArg BitVec.toNat (hsi.symm.trans h)
        rw [BitVec.toNat_ofNat] at hval
        have hmin : (0x8000 : BitVec 16).toNat = 2 ^ 15 := rfl
        omega
      have hstep := @attemptRead_step fat results s hpc hne
      have hreads' : ∀ call ∈ (failedRead results s).reads, call.chs = chs := by
        intro call hcall
        obtain hcall | hcall := List.mem_append.mp hcall
        · exact hreads call hcall
        · rw [List.mem_singleton.mp hcall, ← hchs]
          rfl
      have hlength : (failedRead results s).reads.length = s.reads.length + 1 :=
        List.length_append
      by_cases hok : ReadOk results s.reads.length
      · -- the read succeeds, and the routine returns
        rw [if_pos hok] at hstep
        exact ⟨_, mem_eval_of_step hstep (mem_eval_of_halt rfl), hreads',
          Or.inl ⟨0, Nat.succ_pos n, firstSuccess_zero hok, rfl, hlength⟩⟩
      · -- it fails, and SI is one less
        rw [if_neg hok] at hstep
        have hsi' : (failedRead results s).regs.si = BitVec.ofNat 16 (2 ^ 15 + n) := by
          show s.regs.si - 1 = _
          rw [hsi, ← Nat.add_assoc, BitVec.ofNat_add (2 ^ 15 + n)]
          exact BitVec.add_sub_cancel _ _
        obtain ⟨t, ht, haddress, hended⟩ :=
          @ih (failedRead results s) (Nat.lt_of_succ_lt hn) hpc hsi' hchs hreads'
        rw [hlength] at hended
        refine ⟨t, mem_eval_of_step hstep ht, haddress, ?_⟩
        obtain ⟨k, hk, hfirst, hret, hlen⟩ | ⟨hall, hret, hlen⟩ := hended
        · left
          exact ⟨k + 1, Nat.succ_lt_succ hk, hfirst.succ hok, hret, by omega⟩
        · right
          exact ⟨failures_succ hok hall, hret, by omega⟩

/-- The routine makes up to 32771 attempts. -/
theorem readSector_eval (fat : BootGeometry) (results : Nat → Int13Result) (regs saved : Regs)
    (hsectors : fat.sectorsPerTrack ≠ 0) (hheads : fat.headCount ≠ 0) (biosId : UInt8) :
    ∃ t ∈ eval (readSectorStep fat results) ⟨.readSector, regs, saved, []⟩,
      Attempted results
        (floppyAddress ⟨biosId, fat.sectorsPerTrack, fat.headCount⟩ regs.ax.toNat)
        0 (2 ^ 15 + 3) t := by
  have hsectors' : fat.sectorsPerTrack.toBitVec ≠ 0 :=
    fun h => hsectors (UInt16.toBitVec_inj.mp h)
  have hheads' : fat.headCount.toBitVec ≠ 0 := fun h => hheads (UInt16.toBitVec_inj.mp h)
  obtain ⟨t, ht, hdone⟩ := @attempts_eval fat results
    ⟨.attemptRead, ⟨regs.ax / fat.sectorsPerTrack.toBitVec / fat.headCount.toBitVec, regs.bx,
      setHigh (setLow regs.cx (lowByte (regs.ax % fat.sectorsPerTrack.toBitVec) + 1))
        (lowByte (regs.ax / fat.sectorsPerTrack.toBitVec / fat.headCount.toBitVec)),
      setLow (setHigh (regs.ax / fat.sectorsPerTrack.toBitVec % fat.headCount.toBitVec)
        (lowByte (regs.ax / fat.sectorsPerTrack.toBitVec % fat.headCount.toBitVec)))
        (lowByte regs.dx), 3⟩, regs, []⟩ (2 ^ 15 + 3) (by omega) rfl rfl _
    (block_to_chs fat biosId _ _ _ _ _ _ _) (fun call hcall => absurd hcall List.not_mem_nil)
  refine ⟨t, mem_eval_of_step ?_ ht, hdone⟩
  rw [readSectorStep]
  simp only [divw_zero hsectors', divw_zero hheads']

/-- A disk with no heads, or no sectors on a track, ends in a divide error. -/
theorem readSector_divideError (fat : BootGeometry) (results : Nat → Int13Result)
    (regs saved : Regs) (h : fat.sectorsPerTrack = 0 ∨ fat.headCount = 0) :
    ∃ t ∈ eval (readSectorStep fat results) ⟨.readSector, regs, saved, []⟩,
      t.pc = .divideError := by
  have hstep : readSectorStep fat results ⟨.readSector, regs, saved, []⟩ =
      some ⟨.divideError, regs, regs, []⟩ := by
    rw [readSectorStep]
    by_cases hsectors : fat.sectorsPerTrack = 0
    · have hzero : fat.sectorsPerTrack.toBitVec = 0 := by rw [hsectors]; rfl
      simp only [hzero, divw_by_zero]
    · have hsectors' : fat.sectorsPerTrack.toBitVec ≠ 0 :=
        fun h => hsectors (UInt16.toBitVec_inj.mp h)
      have hzero : fat.headCount.toBitVec = 0 := by rw [h.resolve_left hsectors]; rfl
      simp only [divw_zero hsectors', hzero, divw_by_zero]
  exact ⟨_, mem_eval_of_step hstep (mem_eval_of_halt rfl), rfl⟩

end

/-! ## Three attempts -/

/-- The routine has given up after three attempts, like the second stage, and
    its reads are those of the second stage. -/
structure LikeStage2 (fat : BootGeometry) (results : Nat → Int13Result) (lba : Nat)
    (t : SectorReader) : Prop where
  attempts : t.reads.length ≤ 3
  returned_iff : t.pc = .returned ↔ ∃ k < t.reads.length, ReadOk results k
  diskError : t.pc ≠ .returned → t.pc = .diskError
  address : ∀ call ∈ t.reads, ∀ (biosId : UInt8) (chs : Chs),
    Stage2Reads ⟨biosId, fat.sectorsPerTrack, fat.headCount⟩ lba chs ↔ chs = call.chs

variable {fat : BootGeometry} {results : Nat → Int13Result} {regs saved : Regs}

theorem readOk_of_likeStage2 (hsectors : fat.sectorsPerTrack ≠ 0) (hheads : fat.headCount ≠ 0)
    (h : ∃ t ∈ eval (readSectorStep fat results) ⟨.readSector, regs, saved, []⟩,
      LikeStage2 fat results regs.ax.toNat t) : ∃ k < 3, ReadOk results k := by
  obtain ⟨u, hu, hlike⟩ := h
  obtain ⟨t, ht, -, hended⟩ := readSector_eval fat results regs saved hsectors hheads 0
  obtain rfl := Part.mem_unique hu ht
  have hlen := hlike.attempts
  obtain ⟨k, -, hfirst, -, hk⟩ | ⟨-, -, hk⟩ := hended
  · have hsuccess := hfirst.success
    rw [Nat.zero_add] at hsuccess
    exact ⟨k, by omega, hsuccess⟩
  · omega

theorem likeStage2_of_readOk (hsectors : fat.sectorsPerTrack ≠ 0) (hheads : fat.headCount ≠ 0)
    (h : ∃ k < 3, ReadOk results k) :
    ∃ t ∈ eval (readSectorStep fat results) ⟨.readSector, regs, saved, []⟩,
      LikeStage2 fat results regs.ax.toNat t := by
  obtain ⟨k, hk, hok⟩ := h
  obtain ⟨t, ht, haddress, hended⟩ :=
    readSector_eval fat results regs saved hsectors hheads 0
  simp only [Nat.zero_add] at hended
  obtain ⟨l, -, hfirst, hret, hlen⟩ | ⟨hall, -, -⟩ := hended
  · have hl : l ≤ k := hfirst.le_of_ok (by rwa [Nat.zero_add])
    have hsuccess := hfirst.success
    rw [Nat.zero_add] at hsuccess
    refine ⟨t, ht, by omega, iff_of_true hret ⟨l, by omega, hsuccess⟩,
      fun hne => absurd hret hne, fun call hcall biosId chs => ?_⟩
    -- the drive is no part of the address
    rw [stage2Reads_iff hsectors hheads, haddress call hcall]
    rfl
  · exact absurd hok (hall k (by omega))

/-- The routine is like the second stage if and only if one of the first three
    reads succeeds. -/
theorem readSector_likeStage2_iff (fat : BootGeometry) (results : Nat → Int13Result)
    (regs saved : Regs) :
    (∃ t ∈ eval (readSectorStep fat results) ⟨.readSector, regs, saved, []⟩,
        LikeStage2 fat results regs.ax.toNat t) ↔
      fat.sectorsPerTrack ≠ 0 ∧ fat.headCount ≠ 0 ∧ ∃ k < 3, ReadOk results k := by
  by_cases hzero : fat.sectorsPerTrack = 0 ∨ fat.headCount = 0
  · obtain ⟨t, ht, hpc⟩ := readSector_divideError fat results regs saved hzero
    constructor
    · rintro ⟨u, hu, hlike⟩
      obtain rfl := Part.mem_unique hu ht
      have hne : u.pc ≠ .returned := by rw [hpc]; nofun
      have hdisk := hlike.diskError hne
      rw [hpc] at hdisk
      nomatch hdisk
    · rintro ⟨hsectors, hheads, -⟩
      exact absurd hzero (not_or.mpr ⟨hsectors, hheads⟩)
  · obtain ⟨hsectors, hheads⟩ := not_or.mp hzero
    constructor
    · intro h
      exact ⟨hsectors, hheads, readOk_of_likeStage2 hsectors hheads h⟩
    · rintro ⟨-, -, h⟩
      exact likeStage2_of_readOk hsectors hheads h

/-- A 1.44 MB disk that cannot be read is given up after 32771 reads. -/
theorem readSector_not_likeStage2 :
    (∃ t ∈ eval (readSectorStep ⟨18, 2⟩ fun _ => ⟨true, 0x8000⟩)
        ⟨.readSector, ⟨0, 0x7e00, 0, 0, 0⟩, ⟨0, 0, 0, 0, 0⟩, []⟩,
      t.pc = .diskError ∧ t.reads.length = 32771) ∧
    ¬ ∃ t ∈ eval (readSectorStep ⟨18, 2⟩ fun _ => ⟨true, 0x8000⟩)
        ⟨.readSector, ⟨0, 0x7e00, 0, 0, 0⟩, ⟨0, 0, 0, 0, 0⟩, []⟩,
      LikeStage2 ⟨18, 2⟩ (fun _ => ⟨true, 0x8000⟩) 0 t := by
  have hfail : ∀ k, ¬ ReadOk (fun _ => ⟨true, 0x8000⟩) k := fun k => Bool.true_eq_false.mp
  constructor
  · obtain ⟨t, ht, -, ⟨k, -, hfirst, -⟩ | ⟨-, hpc, hlen⟩⟩ :=
      readSector_eval ⟨18, 2⟩ (fun _ => ⟨true, 0x8000⟩) ⟨0, 0x7e00, 0, 0, 0⟩ ⟨0, 0, 0, 0, 0⟩
        (by decide) (by decide) 0
    · exact absurd hfirst.success (hfail (0 + k))
    · exact ⟨t, ht, hpc, hlen⟩
  · intro h
    obtain ⟨k, -, hok⟩ := readOk_of_likeStage2 (by decide) (by decide) h
    exact hfail k hok

end LBoot.Boot
