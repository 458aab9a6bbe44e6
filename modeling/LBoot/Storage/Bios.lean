/-
  LBoot.Storage.Bios

  The floppy driver (src/storage/bios.c).

  The BIOS is what INT 13h does: the outcomes of the reads are given by their
  number, and a read that leaves the carry flag clear has put the sector it
  addresses into the buffer; one that fails may leave anything there.  The
  calls are logged.
-/

import LBoot.Lib.Memory
import LBoot.Lib.Retry
import LBoot.Lib.Word32

namespace LBoot.Storage

open LBoot.Lib

/-! ## The BIOS -/

/-- What is used of `bios_call_t`. -/
structure BiosCall where
  intN : UInt8
  ax : UInt16
  bx : UInt16
  cl : UInt8
  ch : UInt8
  dl : UInt8
  dh : UInt8
  eflags : UInt32
  deriving DecidableEq, Repr

/-- `EFLAGS_CF`. -/
def eflagsCf : UInt32 := 0x01

/-- An address on a disk. -/
structure Chs where
  cylinder : Nat
  head : Nat
  sector : Nat
  deriving DecidableEq, Repr

/-- The address INT 13h takes from the registers. -/
def BiosCall.chs (call : BiosCall) : Chs :=
  ⟨call.ch.toNat + (call.cl >>> 6).toNat * 256, call.dh.toNat, (call.cl &&& 0x3f).toNat⟩

/-- The sectors of the drives. -/
abbrev Disks := UInt8 → Chs → Vector UInt8 512

/-- How a read ends: the registers it leaves, and what it leaves in the buffer
    if it fails. -/
structure ReadOutcome where
  call : BiosCall
  junk : List UInt8

/-- The carry flag is clear. -/
def ReadOutcome.Ok (o : ReadOutcome) : Prop := o.call.eflags &&& eflagsCf = 0

instance (o : ReadOutcome) : Decidable o.Ok := inferInstanceAs (Decidable (_ = _))

structure Bios where
  disks : Disks
  outcomes : Nat → ReadOutcome

/-- The memory, the calls made, and how many of them are reads. -/
structure BiosState where
  mem : Int → UInt8
  calls : List BiosCall
  reads : Nat

/-- `bios_call`: a read of one sector, or something else (a reset). -/
def biosCall (bios : Bios) (call : BiosCall) (st : BiosState) : BiosCall × BiosState :=
  if call.intN = 0x13 ∧ call.ax = 0x0201 then
    let o := bios.outcomes st.reads
    let data := if o.Ok then (bios.disks call.dl call.chs).toList else o.junk.take 512
    (o.call, ⟨storeAt st.mem call.bx.toNat data, st.calls ++ [call], st.reads + 1⟩)
  else (call, { st with calls := st.calls ++ [call] })

/-! ## Model -/

/-- `storage_bios_data_t`. -/
structure StorageBiosData where
  biosId : UInt8
  sectorsPerTrack : UInt16
  nHeads : UInt16
  deriving DecidableEq, Repr

inductive BiosError where
  /-- `panic` -/
  | panicked
  /-- division by zero -/
  | divideError
  deriving DecidableEq, Repr

/-- `_floppy_reset`. -/
def floppyReset (bios : Bios) (biosId : UInt8) (st : BiosState) : BiosState :=
  (biosCall bios ⟨0x13, 0x00, 0, 0, 0, biosId, 0, 0⟩ st).2

/-- `sector`, `track` and `head` of `_floppy_read_sector`, from the number of
    the sector. -/
def floppyChs (bdata : StorageBiosData) (offset : Int) : UInt8 × UInt16 × UInt8 :=
  let track := UInt16.ofInt (offset.tdiv bdata.sectorsPerTrack.toNat)
  let sector := UInt8.ofInt (offset.tmod bdata.sectorsPerTrack.toNat + 1)
  let head := (track % bdata.nHeads).toUInt8
  let track := track / bdata.nHeads
  (sector, track, head)

/-- The registers of a read. -/
def floppyCall (bdata : StorageBiosData) (buff : Nat) (offset : Int) (call : BiosCall) : BiosCall :=
  let (sector, track, head) := floppyChs bdata offset
  { call with
    intN := 0x13
    ax := 0x0201
    bx := UInt16.ofNat buff
    cl := sector
    ch := track.toUInt8
    dl := bdata.biosId
    dh := head }

/-- The loop `while(--attempts)`, with the attempts that are left. -/
def floppyAttempts (bios : Bios) (bdata : StorageBiosData) (buff : Nat) (offset : Int) :
    Nat → BiosCall → BiosState → Nat × BiosState
  | 0, _, st => (0, st)
  | attempts + 1, call, st =>
      let (call, st) := biosCall bios (floppyCall bdata buff offset call) st
      if call.eflags &&& eflagsCf = 0 then (attempts + 1, st)
      else floppyAttempts bios bdata buff offset attempts call (floppyReset bios bdata.biosId st)

/-- `_floppy_read_sector`. -/
def floppyReadSector (bios : Bios) (bdata : StorageBiosData) (buff : Nat) (offset : Int)
    (st : BiosState) : Except BiosError (Int × BiosState) :=
  if buff > 0xffff then .error .panicked
  else if bdata.sectorsPerTrack = 0 ∨ bdata.nHeads = 0 then .error .divideError
  else
    let call : BiosCall := ⟨0, 0, 0, 0, 0, 0, 0, 0⟩
    let (attempts, st) := floppyAttempts bios bdata buff (offset.tdiv 512) (4 - 1) call st
    if attempts = 0 then .ok (-1, st) else .ok (0, st)

/-- The loop of `_read`, from `pos` on. -/
def biosReadLoop (bios : Bios) (bdata : StorageBiosData) (buff : Nat) (offset : Int) (size : Nat)
    (pos : Nat) (st : BiosState) : Except BiosError (Int × BiosState) :=
  if pos < size then
    match floppyReadSector bios bdata (u32 (buff + pos)) (s32 (offset + pos)) st with
    | .error e => .error e
    | .ok (ret, st) =>
        if ret ≠ 0 then .ok (-1, st) else biosReadLoop bios bdata buff offset size (pos + 512) st
  else .ok (s32 pos, st)
termination_by size - pos
decreasing_by omega

/-- `_read`. -/
def biosRead (bios : Bios) (bdata : StorageBiosData) (buff : Nat) (offset : Int) (size : Nat)
    (st : BiosState) : Except BiosError (Int × BiosState) :=
  if offset.tmod 512 ≠ 0 ∨ size % 512 ≠ 0 then .error .panicked
  else if offset < 0 then .error .panicked
  else if bdata.biosId < 0x80 then biosReadLoop bios bdata buff offset size 0 st
  else .ok (-1, st)

end LBoot.Storage
