/-
  LBoot.Io.SerialRead

  Small-step model of `_serial_read` on its FIFO path (interrupts enabled, RX
  FIFO initialised), interruptible by the RX-available handler.

  Every read and every write of the volatile `head` and `tail` is a step of
  its own; the code between two of them runs with the step before it.  The
  handler is one event, which may come between any two steps.  Where C leaves
  the order of two volatile reads of one expression open, they are taken from
  left to right; `head` has no other writer, so only the order of the reads
  of `tail` matters.

  Two logs are kept next to the machine state: `enq`, the bytes the handler
  enqueued, and `deq`, the bytes `_fifo_read_byte` took out; `rets` collects
  what the finished calls returned.
-/

import LBoot.Lib.Machine
import LBoot.Io.Serial

namespace LBoot.Io

open LBoot.Data LBoot.Lib

/-- Program points of `fifo_getused`, each in front of a volatile read. -/
inductive UsedPc where
  /-- `fifo->head` of the comparison -/
  | cmpHead
  /-- `fifo->tail` of the comparison -/
  | cmpTail (head : Nat)
  /-- `fifo->tail` of `fifo->tail - fifo->head` -/
  | leTail
  /-- `fifo->head` of `fifo->tail - fifo->head` -/
  | leHead (tail : Nat)
  /-- `fifo->head` of `fifo->head - fifo->tail` -/
  | gtHead
  /-- `fifo->tail` of `fifo->head - fifo->tail` -/
  | gtTail (head : Nat)
  deriving DecidableEq, Repr

/-- One volatile read of `fifo_getused`: the next program point or the value
    returned. -/
def usedStep (f : Fifo) : UsedPc → UsedPc ⊕ Nat
  | .cmpHead => .inl (.cmpTail f.head)
  | .cmpTail h => .inl (if h ≤ f.tail then .leTail else .gtHead)
  | .leTail => .inl (.leHead f.tail)
  | .leHead t => .inr (sub32 t f.head)
  | .gtHead => .inl (.gtTail f.head)
  | .gtTail h => .inr (sub32 f.size (sub32 h f.tail))

/-- Program points of `_serial_read`. -/
inductive ReadPc where
  /-- no call is active -/
  | idle
  /-- `rd_sz = fifo_getused(&sdata->rxfifo)` -/
  | used (u : UsedPc)
  /-- `fifo_getused(fifo) < sz` of `fifo_read` -/
  | readUsed (rd : Nat) (u : UsedPc)
  /-- `fifo->buf[fifo->head++]`, the read of `head`, for byte `k` of `rd` -/
  | byteHead (rd k : Nat)
  /-- `fifo->buf[fifo->head++]`, the write of `head` -/
  | byteStore (rd k head : Nat)
  /-- `fifo->head >= fifo->size` -/
  | byteTest (rd k : Nat)
  /-- `fifo->head = 0` -/
  | byteWrap (rd k : Nat)
  /-- `fifo_getused` of `_serial_rx_flowcontrol` -/
  | flow (rd : Nat) (newMcr : UInt8) (u : UsedPc)
  /-- the status and timeout tests that end the loop body -/
  | check
  /-- behind the loop -/
  | leave
  deriving DecidableEq, Repr

/-- Arguments and loop counter of the active call; `data` is the caller's
    buffer, `none` for NULL. -/
structure ReadCall where
  data : Option (List UInt8)
  sz : Nat
  timeout : Nat
  i : Nat
  deriving DecidableEq, Repr

/-- What a finished call returned: the count and, if it had a buffer, the
    bytes below that count. -/
structure ReadReturn where
  count : Nat
  data : Option (List UInt8)
  deriving DecidableEq, Repr

structure ReadState where
  sd : SerialData
  /-- `in->status` -/
  inStatus : UInt8
  pc : ReadPc
  call : ReadCall
  enq : List UInt8
  deq : List UInt8
  rets : List ReadReturn
  deriving DecidableEq, Repr

inductive ReadEvent where
  /-- a caller enters `_serial_read` -/
  | call (data : Option (List UInt8)) (sz timeout : Nat)
  /-- one step of `_serial_read`; `past` is the answer of `time_ispast` -/
  | main (past : Bool)
  /-- the RX-available interrupt handler runs, with this byte received -/
  | isr (byte : UInt8)
  deriving DecidableEq, Repr

/-- The end of `_serial_read`: the flags move from `sdata->status` to
    `in->status`. -/
def passStatus (status inStatus : UInt8) : UInt8 × UInt8 :=
  let (status, inStatus) := if status &&& serialstatusOverrun ≠ 0 then
    (status &&& ~~~ serialstatusOverrun, inStatus ||| inputstatusOverrun) else (status, inStatus)
  if status &&& serialstatusFraming ≠ 0 then
    (status &&& ~~~ serialstatusFraming, inStatus ||| inputstatusDataerr) else (status, inStatus)

namespace ReadState

/-- The test of `while(i < sz)`. -/
def loopTest (s : ReadState) : ReadState :=
  if s.call.i < s.call.sz then { s with pc := .used .cmpHead } else { s with pc := .leave }

/-- `i += rd_sz`. -/
def advance (s : ReadState) (rd : Nat) : ReadState :=
  { s with call := { s.call with i := s.call.i + rd }, pc := .check }

/-- Behind `fifo_read`, whatever it returned: `_serial_rx_flowcontrol` up to
    its first volatile read. -/
def afterRead (s : ReadState) (rd : Nat) : ReadState :=
  if ¬ (s.sd.useRts ∨ s.sd.useDtr) then s.advance rd
  else { s with pc := .flow rd s.sd.mcrVal .cmpHead }

/-- Behind `_fifo_read_byte` for byte `k` of `rd`. -/
def afterByte (s : ReadState) (rd k : Nat) : ReadState :=
  if k + 1 < rd then { s with pc := .byteHead rd (k + 1) } else s.afterRead rd

/-- `buf8[k] = fifo->buf[h]`, and `head` moves past the byte. -/
def storeByte (s : ReadState) (rd k h : Nat) : ReadState :=
  let byte := s.sd.rxfifo.buf.getD h 0
  { s with
    sd := { s.sd with rxfifo := { s.sd.rxfifo with head := u32 (h + 1) } }
    call := { s.call with data := s.call.data.map fun d => d.set (s.call.i + k) byte }
    deq := s.deq ++ [byte]
    pc := .byteTest rd k }

/-- The code behind the loop: pass the status on and return `i`. -/
def finish (s : ReadState) : ReadState :=
  let (status, inStatus) := passStatus s.sd.status s.inStatus
  { s with
    sd := { s.sd with status }
    inStatus
    pc := .idle
    rets := s.rets ++ [⟨s.call.i, s.call.data.map (List.take s.call.i)⟩] }

/-- One step of `_serial_read`. -/
def mainStep (s : ReadState) (past : Bool) : Option ReadState :=
  match s.pc with
  | .idle => none
  | .used u =>
      match usedStep s.sd.rxfifo u with
      | .inl u' => some { s with pc := .used u' }
      | .inr n =>
          let rd := if n > s.call.sz - s.call.i then s.call.sz - s.call.i else n
          some (if rd ≠ 0 then { s with pc := .readUsed rd .cmpHead } else { s with pc := .check })
  | .readUsed rd u =>
      match usedStep s.sd.rxfifo u with
      | .inl u' => some { s with pc := .readUsed rd u' }
      | .inr n => some (if n < rd then s.afterRead rd else { s with pc := .byteHead rd 0 })
  | .byteHead rd k => some { s with pc := .byteStore rd k s.sd.rxfifo.head }
  | .byteStore rd k h => some (s.storeByte rd k h)
  | .byteTest rd k =>
      some (if s.sd.rxfifo.head ≥ s.sd.rxfifo.size then { s with pc := .byteWrap rd k }
        else s.afterByte rd k)
  | .byteWrap rd k =>
      some (afterByte
        { s with sd := { s.sd with rxfifo := { s.sd.rxfifo with head := 0 } } } rd k)
  | .flow rd m u =>
      match usedStep s.sd.rxfifo u with
      | .inl u' => some { s with pc := .flow rd m u' }
      | .inr n => some (advance { s with sd := serialRxFlowcontrolBody s.sd m n } rd)
  | .check =>
      some (if s.call.data.isSome ∧
          s.sd.status &&& (serialstatusOverrun ||| serialstatusFraming) ≠ 0 then
            { s with pc := .leave }
        else if s.call.timeout ≠ 0 ∧ past then { s with pc := .leave }
        else s.loopTest)
  | .leave => some s.finish

/-- One event.  A call needs a buffer of at least `sz` bytes, or none. -/
def step (s : ReadState) : ReadEvent → Option ReadState
  | .call data sz timeout =>
      if s.pc = .idle ∧ ∀ d ∈ data, sz ≤ d.length then
        some (loopTest { s with call := ⟨data, sz, timeout, 0⟩ })
      else none
  | .main past => s.mainStep past
  | .isr byte =>
      some { s with
        sd := serialIntRxavail s.sd byte
        enq := if (fifoWrite s.sd.rxfifo [byte]).1 = 0 then s.enq ++ [byte] else s.enq }

end ReadState

/-- `_serial_read` and the receive interrupt. -/
def readMachine : Machine ReadState ReadEvent := ⟨ReadState.step⟩

/-- Before the first call, with the RX FIFO just initialised. -/
def readInit (cfg fifoLow : Nat) (mcrVal inStatus : UInt8) (mem : List UInt8) (sz : Nat) :
    ReadState where
  sd := { cfg, mcrVal, status := 0, fifoLow, rxfifo := fifoInit mem sz }
  inStatus := inStatus
  pc := .idle
  call := ⟨none, 0, 0, 0⟩
  enq := []
  deq := []
  rets := []

end LBoot.Io
