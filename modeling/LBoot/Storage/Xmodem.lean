/-
  LBoot.Storage.Xmodem

  The XMODEM receiver (src/storage/protocol/xmodem.c): one packet
  (`xmodemRxPacket`), the receive loop around it as a machine with one step
  for each iteration (`rxMachine`), and the call itself (`xmodemRx`).

  The serial line is a parameter: a `Dev` answers each read with some bytes,
  at most as many as asked for, and each write of one byte with whether it was
  taken.  The file buffer is seen from `fdata->buff`, so that an offset below
  zero is an address in front of the buffer; `reads` logs the target of every
  payload read.

  Debug output and the status display have no part in the protocol and are
  left out.
-/

import Mathlib.Logic.Function.Iterate
import LBoot.Lib.Machine
import LBoot.Lib.Memory
import LBoot.Lib.Word32

namespace LBoot.Storage

open LBoot.Lib

/-- The handles `proto->in` and `proto->out`. -/
structure Dev (ι : Type*) where
  /-- `in.read` for so many bytes, with a timeout: the bytes delivered -/
  read : ι → Nat → Nat → List UInt8 × ι
  /-- `out.write` of one byte: whether it was written -/
  write : ι → UInt8 → Bool × ι
  read_le : ∀ d n t, (read d n t).1.length ≤ n

/-- `PREALLOCATION_SIZE`. -/
def preallocationSize : Nat := 256 * 1024

/-- `protocol_filedata_t`; the size is one `protocol_file_init` accepts. -/
structure FileData where
  buff : Int → UInt8
  buffSz : Nat
  buffSz_le : buffSz ≤ preallocationSize

/-- `protocol_type_e`. -/
inductive ProtocolType where
  | none
  | kermit
  | xmodem
  | ymodem
  deriving DecidableEq, Repr

/-- `XMODEM_CHKSUMTYPE_SUM` and `XMODEM_CHKSUMTYPE_CRC16`. -/
inductive ChksumType where
  | sum
  | crc16
  deriving DecidableEq, Repr

/-- `xmodem_params_t`. -/
structure XmodemParams where
  blockSz : Nat
  chksumType : ChksumType
  startCh : UInt8
  lastBlock : UInt8
  totalSz : Nat
  timeout : Nat
  currOff : Int
  deriving DecidableEq, Repr

def xmodemCharHead : UInt8 := 0x01
def xmodemCharHead1k : UInt8 := 0x02
def xmodemCharEot : UInt8 := 0x04
def xmodemCharAck : UInt8 := 0x06
def xmodemCharNak : UInt8 := 0x15

/-- The parameters `_xmodem_recv` starts with. -/
def xmodemDefaults : ProtocolType → Option XmodemParams
  | .xmodem => some ⟨0, .sum, 0x15, 0, 0, 5000, 0⟩
  | .ymodem => some ⟨0, .crc16, 0x43, 0, 0, 5000, 0⟩
  | _ => none

/-- `XMODEM_RET_*`. -/
inductive RxRet where
  | ok
  | error
  | fatal
  | timeout
  | eot
  deriving DecidableEq, Repr

/-- The state of `_xmodem_rx` between two iterations of its loop. -/
structure RxState (ι : Type*) where
  dev : ι
  fdata : FileData
  params : XmodemParams
  ret : RxRet
  reads : List (Int × Nat)

/-! ## Checksums -/

/-- One round of the inner loop of `_xmodem_crc16`. -/
def crc16Bit (crc : UInt16) : UInt16 :=
  if crc &&& 0x8000 ≠ 0 then crc <<< 1 else (crc <<< 1) ^^^ 0x1021

/-- `_xmodem_crc16`. -/
def xmodemCrc16 (data : List UInt8) : UInt16 :=
  data.foldl (fun crc b => Nat.iterate crc16Bit 8 (crc ^^^ (b.toUInt16 <<< (8 : UInt16)))) 0

/-- How many bytes `_xmodem_checksum` reads. -/
def ChksumType.len : ChksumType → Nat
  | .sum => 1
  | .crc16 => 2

/-- The checksum bytes read, `chk`, belong to `data`.  A CRC is compared as
    the machine loads it, low byte first. -/
def chksumMatches (ty : ChksumType) (data chk : List UInt8) : Bool :=
  match ty with
  | .sum => data.foldl (· - ·) (chk.getD 0 0) == 0
  | .crc16 => (chk.getD 0 0).toUInt16 ||| ((chk.getD 1 0).toUInt16 <<< (8 : UInt16)) == xmodemCrc16 data

/-- `_xmodem_checksum`: whether the block passes. -/
def xmodemChecksum {ι : Type*} (D : Dev ι) (dev : ι) (p : XmodemParams) (data : List UInt8) :
    Bool × ι :=
  let (chk, dev) := D.read dev p.chksumType.len p.timeout
  if chk.length ≠ p.chksumType.len then (false, dev)
  else (chksumMatches p.chksumType data chk, dev)

/-! ## One packet -/

/-- The block size a header prefix announces. -/
def headBlockSz (pfx : UInt8) : Option Nat :=
  if pfx = xmodemCharHead then some 128
  else if pfx = xmodemCharHead1k then some 1024
  else none

/-- `_xmodem_rx_packet` up to the test of the block number, on the bytes of
    the header that were read: the block number, or what to return. -/
def rxHead (p : XmodemParams) (head : List UInt8) : XmodemParams × Except RxRet UInt8 :=
  if 1 ≤ head.length ∧ head.getD 0 0 = xmodemCharEot then (p, .error .eot)
  else if head.length ≠ 3 then
    (p, .error (if head.length = 0 then .timeout else .error))
  else
    match headBlockSz (head.getD 0 0) with
    | none => (p, .error .error)
    | some bsz =>
        let p := { p with blockSz := bsz }
        let block := head.getD 1 0
        if block.toNat ≠ 255 - (head.getD 2 0).toNat then (p, .error .error)
        else if block ≠ p.lastBlock ∧ block ≠ p.lastBlock + 1 then (p, .error .error)
        else (p, .ok block)

/-- A block that is sent again is read again, over the last one. -/
def rxRewind (p : XmodemParams) (block : UInt8) : XmodemParams :=
  if p.currOff ≠ 0 ∧ block = p.lastBlock then { p with currOff := s32 (p.currOff - p.blockSz) }
  else p

variable {ι : Type*}

/-- `_xmodem_rx_packet` behind the rewind: the payload and its checksum. -/
def rxPayload (D : Dev ι) (s : RxState ι) (block : UInt8) : RxRet × RxState ι :=
  let p := s.params
  if toU32 (p.currOff + p.blockSz) > s.fdata.buffSz then (.fatal, s)
  else
    let (data, dev) := D.read s.dev p.blockSz p.timeout
    let s := { s with
      dev
      fdata := { s.fdata with buff := storeAt s.fdata.buff p.currOff data }
      reads := s.reads ++ [(p.currOff, p.blockSz)] }
    if data.length ≠ p.blockSz then (.error, s)
    else
      let (pass, dev) := xmodemChecksum D s.dev p (loadAt s.fdata.buff p.currOff p.blockSz)
      let s := { s with dev }
      if ¬ pass then (.error, s)
      else (.ok, { s with
        params := { p with currOff := s32 (p.currOff + p.blockSz), lastBlock := block } })

/-- `_xmodem_rx_packet`. -/
def xmodemRxPacket (D : Dev ι) (s : RxState ι) : RxRet × RxState ι :=
  let (head, dev) := D.read s.dev 3 s.params.timeout
  match rxHead s.params head with
  | (p, .error ret) => (ret, { s with dev, params := p })
  | (p, .ok block) => rxPayload D { s with dev, params := rxRewind p block } block

/-! ## The loop -/

/-- One byte to the sender; whether it could be written is not looked at. -/
def rxReply (D : Dev ι) (s : RxState ι) (c : UInt8) : RxState ι :=
  { s with dev := (D.write s.dev c).2 }

/-- The body of the loop of `_xmodem_rx`. -/
def rxBody (D : Dev ι) (s : RxState ι) : RxState ι :=
  let (ret, s) := xmodemRxPacket D s
  let s := { s with ret }
  -- read any garbage still present
  let s := if ret ≠ .ok then { s with dev := (D.read s.dev (s.params.blockSz * 4) 25).2 } else s
  match ret with
  | .ok => rxReply D s xmodemCharAck
  | .eot => rxReply D s xmodemCharAck
  | .error => rxReply D s xmodemCharNak
  | .timeout =>
      if s.params.currOff ≠ 0 then rxReply D s xmodemCharNak else rxReply D s s.params.startCh
  | .fatal => s

/-- The condition of the loop. -/
def RxState.looping (s : RxState ι) : Prop := s.ret ≠ .eot ∧ s.ret ≠ .fatal

instance (s : RxState ι) : Decidable s.looping := inferInstanceAs (Decidable (_ ∧ _))

/-- The loop of `_xmodem_rx`, one iteration a step. -/
def rxMachine (D : Dev ι) : Machine (RxState ι) Unit :=
  ⟨fun s _ => if s.looping then some (rxBody D s) else none⟩

/-- In front of the first iteration: the parameters of `_xmodem_recv`, and the
    start character written. -/
def rxStart (D : Dev ι) (dev : ι) (fdata : FileData) (p : XmodemParams) : RxState ι :=
  { dev := (D.write dev p.startCh).2, fdata, params := p, ret := .ok, reads := [] }

/-- The loop, for at most `n` iterations; `none` if it has not ended by then. -/
def rxLoop (D : Dev ι) : Nat → RxState ι → Option (RxState ι)
  | 0, s => if s.looping then none else some s
  | n + 1, s => if s.looping then rxLoop D n (rxBody D s) else some s

/-- `_xmodem_rx`, for at most `n` iterations: the result code and the state,
    with the total size filled in, or `none` if the loop has not ended. -/
def xmodemRx (D : Dev ι) (n : Nat) (dev : ι) (fdata : FileData) (p : XmodemParams) :
    Option (Int × RxState ι) :=
  if (D.write dev p.startCh).1 = false then some (-1, rxStart D dev fdata p)
  else
    (rxLoop D n (rxStart D dev fdata p)).map fun s =>
      if s.ret = .fatal then (-1, s)
      else (0, { s with params := { s.params with totalSz := toU32 s.params.currOff } })

/-- A loop that has ended has run as the machine does. -/
theorem rxLoop_run {D : Dev ι} {n : Nat} {s t : RxState ι} (h : rxLoop D n s = some t) :
    ∃ k, k ≤ n ∧ (rxMachine D).run s (List.replicate k ()) = some t ∧ ¬ t.looping := by
  induction n generalizing s with
  | zero =>
      rw [rxLoop] at h
      split at h
      · cases h
      · next hend =>
        cases h
        exact ⟨0, Nat.le_refl 0, rfl, hend⟩
  | succ n ih =>
      rw [rxLoop] at h
      split at h
      · next hloop =>
        obtain ⟨k, hk, hrun, hend⟩ := ih h
        refine ⟨k + 1, Nat.succ_le_succ hk, ?_, hend⟩
        rw [List.replicate_succ, Machine.run_cons]
        show (if s.looping then some (rxBody D s) else none).bind _ = _
        rw [if_pos hloop]
        exact hrun
      · next hend =>
        cases h
        exact ⟨0, Nat.zero_le _, rfl, hend⟩

end LBoot.Storage
