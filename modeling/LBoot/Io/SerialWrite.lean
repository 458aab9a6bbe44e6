/-
  LBoot.Io.SerialWrite

  `_serial_write` on its FIFO path (interrupts enabled, TX FIFO initialised)
  and the TX-empty branch of the interrupt handler.

  Each `fifo_*` call and each access to a UART port is one step; the handler,
  two port accesses and a `fifo_read`, runs as one event, and only while the
  transmitter is empty.  `uart` logs the bytes written to the data register
  and `written` the buffers handed to `_serial_write`.

  Both sides take bytes out of the FIFO.  The main loop first removes a byte,
  then waits for the transmitter and writes the byte out; a handler that runs
  in between sends the byte behind it first (`serialWrite_reorders`).
  `NoOvertake` excludes exactly those steps, and a run keeps the order as long
  as, and no longer than, it keeps to that (`serialWrite_in_order_iff`).
-/

import LBoot.Data.Fifo
import LBoot.Lib.Machine

namespace LBoot.Io

open LBoot.Data LBoot.Lib

/-- Program points of `_serial_write`. -/
inductive WritePc where
  /-- no call is active -/
  | idle
  /-- `wr_sz = fifo_getfree(&sdata->txfifo)` -/
  | getfree
  /-- `fifo_write(&sdata->txfifo, &bdata[i], wr_sz)` -/
  | write (wrSz : Nat)
  /-- `if(_serial_tx_empty(sdata))` -/
  | txEmpty
  /-- `fifo_read(&sdata->txfifo, &byte, 1)` -/
  | read
  /-- the busy-wait of `_serial_write_byte` -/
  | busyWait (byte : UInt8)
  /-- the `outb` of `_serial_write_byte` -/
  | outb (byte : UInt8)
  deriving DecidableEq, Repr

/-- The byte that is out of the FIFO and not yet in the data register. -/
def WritePc.held : WritePc → List UInt8
  | .busyWait b => [b]
  | .outb b => [b]
  | _ => []

structure WriteState where
  txfifo : Fifo
  /-- `SERIALREG_LSR_THRE`: the transmitter is empty -/
  thre : Bool
  pc : WritePc
  /-- the buffer of the active call, `sz` bytes long -/
  bdata : List UInt8
  i : Nat
  uart : List UInt8
  written : List (List UInt8)
  deriving DecidableEq, Repr

inductive WriteEvent where
  /-- a caller enters `_serial_write` -/
  | call (data : List UInt8)
  /-- one step of `_serial_write` -/
  | main
  /-- the TX-empty interrupt handler runs -/
  | isr
  /-- the transmitter has sent its byte -/
  | sent
  deriving DecidableEq, Repr

namespace WriteState

/-- The test of `while(i < sz)`; behind the loop the call returns. -/
def loopTest (s : WriteState) : WriteState :=
  if s.i < s.bdata.length then { s with pc := .getfree } else { s with pc := .idle }

/-- `outb(SERIAL_REG_DATA(sdata->port), byte)`. -/
def outData (s : WriteState) (byte : UInt8) : WriteState :=
  { s with uart := s.uart ++ [byte], thre := false }

/-- One step of `_serial_write`. -/
def mainStep (s : WriteState) : Option WriteState :=
  match s.pc with
  | .idle => none
  | .getfree =>
      let wr := fifoGetfree s.txfifo
      let wr := if wr > s.bdata.length - s.i then s.bdata.length - s.i else wr
      some (if wr ≠ 0 then { s with pc := .write wr } else { s with pc := .txEmpty })
  | .write wr =>
      -- the result is not looked at
      some { s with
        txfifo := (fifoWrite s.txfifo ((s.bdata.drop s.i).take wr)).2
        i := s.i + wr
        pc := .txEmpty }
  | .txEmpty => some (if s.thre then { s with pc := .read } else s.loopTest)
  | .read =>
      let (ret, byte, f) := fifoRead s.txfifo (some [0]) 1
      some (if ret = 0 then { s with txfifo := f, pc := .busyWait ((byte.getD []).headD 0) }
        else loopTest { s with txfifo := f })
  | .busyWait b => some (if s.thre then { s with pc := .outb b } else s)
  | .outb b => some (s.outData b).loopTest

/-- `_serial_int_handler`, case `SERIALREG_IIR_INTID_TXEMPTY` with the TX FIFO
    initialised. -/
def intTxempty (s : WriteState) : WriteState :=
  let (ret, data, f) := fifoRead s.txfifo (some [0]) 1
  if ret = 0 then outData { s with txfifo := f } ((data.getD []).headD 0)
  else { s with txfifo := f }

def step (s : WriteState) : WriteEvent → Option WriteState
  | .call data =>
      if s.pc = .idle then
        some (loopTest { s with bdata := data, i := 0, written := s.written ++ [data] })
      else none
  | .main => s.mainStep
  | .isr => if s.thre then some s.intTxempty else none
  | .sent => some { s with thre := true }

end WriteState

/-- `_serial_write` and the transmit interrupt. -/
def writeMachine : Machine WriteState WriteEvent := ⟨WriteState.step⟩

/-- Before the first call, with the TX FIFO just initialised. -/
def writeInit (mem : List UInt8) (sz : Nat) (thre : Bool) : WriteState where
  txfifo := fifoInit mem sz
  thre := thre
  pc := .idle
  bdata := []
  i := 0
  uart := []
  written := []

/-- Condition on a step: the handler does not run while the main loop holds a
    byte and the FIFO has one behind it, unless the two bytes are the same. -/
def NoOvertake (s : WriteState) : WriteEvent → Prop
  | .isr => s.thre = true → fifoGetused s.txfifo ≠ 0 →
      ∀ b ∈ s.pc.held, (fifoReadByte s.txfifo).1 = b
  | _ => True

instance (s : WriteState) : ∀ e, Decidable (NoOvertake s e)
  | .isr => inferInstanceAs (Decidable (s.thre = true → fifoGetused s.txfifo ≠ 0 →
      ∀ b ∈ s.pc.held, (fifoReadByte s.txfifo).1 = b))
  | .call _ | .main | .sent => isTrue trivial

/-! ## The invariant -/

/-- The FIFO stands for `q`, and the buffers handed over are the bytes sent,
    the byte held, the FIFO and the unsent rest of the active call, in this
    order. -/
structure Conserved (s : WriteState) (q : List UInt8) : Prop where
  rep : Rep s.txfifo q
  written_eq : s.written.flatten = s.uart ++ s.pc.held ++ q ++ s.bdata.drop s.i

/-- What the program point adds: a write that was found to fit still fits. -/
def WritePcInv (s : WriteState) (q : List UInt8) : Prop :=
  match s.pc with
  | .idle => s.bdata.length ≤ s.i
  | .write wr => wr ≤ s.txfifo.size - 1 - q.length
  | _ => True

def WriteInv (s : WriteState) : Prop := ∃ q, Conserved s q ∧ WritePcInv s q

theorem Conserved.uart_initial {s : WriteState} {q : List UInt8} (h : Conserved s q) :
    s.uart <+: s.written.flatten := by
  rw [h.written_eq, List.append_assoc, List.append_assoc]
  exact List.prefix_append _ _

/-- Between calls, nothing handed over is lost: it has been sent or is still
    in the FIFO. -/
theorem WriteInv.idle_conserved {s : WriteState} (h : WriteInv s) (hidle : s.pc = .idle) :
    ∃ q, Rep s.txfifo q ∧ s.written.flatten = s.uart ++ q := by
  obtain ⟨q, hc, hpc⟩ := h
  rw [WritePcInv, hidle] at hpc
  have heq := hc.written_eq
  rw [hidle, List.drop_eq_nil_of_le hpc] at heq
  exact ⟨q, hc.rep, by simpa [WritePc.held] using heq⟩

/-- `fifo_read` of one byte: nothing from an empty FIFO, else its oldest byte. -/
theorem fifoRead_one_cases {f : Fifo} {q : List UInt8} (h : Rep f q) :
    (q = [] ∧ fifoRead f (some [0]) 1 = (-1, some [0], f)) ∨
      ∃ x q', q = x :: q' ∧ (fifoRead f (some [0]) 1).1 = 0 ∧
        (fifoRead f (some [0]) 1).2.1 = some [x] ∧ Rep (fifoRead f (some [0]) 1).2.2 q' := by
  cases q with
  | nil => exact Or.inl ⟨rfl, fifoRead_short h (by decide) _⟩
  | cons x q =>
      obtain ⟨h0, hbuf, hrep⟩ := @fifoRead_avail _ _ 1 h (by simp) (some [0])
      exact Or.inr ⟨x, q, rfl, h0, by simpa [splice] using hbuf, by simpa using hrep⟩

namespace WriteState

variable {s t : WriteState}

theorem loopTest_inv {q : List UInt8} (hrep : Rep s.txfifo q)
    (heq : s.written.flatten = s.uart ++ q ++ s.bdata.drop s.i) : WriteInv s.loopTest := by
  rw [loopTest]
  split
  · exact ⟨q, ⟨hrep, by simpa [WritePc.held] using heq⟩, trivial⟩
  · next hge => exact ⟨q, ⟨hrep, by simpa [WritePc.held] using heq⟩, Nat.le_of_not_lt hge⟩

/-! ## One step -/

/-- The handler takes nothing, or the oldest byte, which it sends. -/
theorem intTxempty_cases {q : List UInt8} (hrep : Rep s.txfifo q) :
    (q = [] ∧ s.intTxempty = s) ∨
      ∃ x q' f, q = x :: q' ∧ f.size = s.txfifo.size ∧ Rep f q' ∧
        s.intTxempty = outData { s with txfifo := f } x := by
  rw [intTxempty]
  rcases fifoRead_one_cases hrep with ⟨rfl, hread⟩ | ⟨x, q', rfl, h0, hbuf, hrep'⟩
  · rw [hread]
    exact Or.inl ⟨rfl, rfl⟩
  · refine Or.inr ⟨x, q', _, rfl, fifoRead_size .., hrep', ?_⟩
    simp only [h0, hbuf, if_true, Option.getD_some, List.headD_cons]

/-- A handler that sends `x` keeps the order if the byte held, if any, is the
    same as `x`. -/
theorem intTxempty_inv (h : WriteInv s) (hthre : s.thre = true) (hG : NoOvertake s .isr) :
    WriteInv s.intTxempty := by
  obtain ⟨q, hc, hpc⟩ := h
  rcases intTxempty_cases hc.rep with ⟨rfl, hsame⟩ | ⟨x, q', f, rfl, hsize, hrep, hsend⟩
  · rw [hsame]
    exact ⟨[], hc, hpc⟩
  · have hheld : ∀ b ∈ s.pc.held, x = b := by
      have hused : fifoGetused s.txfifo ≠ 0 := by
        rw [fifoGetused_eq hc.rep]
        exact Nat.succ_ne_zero _
      rw [← (fifoReadByte_rep hc.rep).1]
      exact hG hthre hused
    have hswap : s.pc.held ++ [x] = x :: s.pc.held := by
      cases hs : s.pc with
      | busyWait b => rw [hheld b (by rw [hs]; exact List.mem_singleton_self b)]; rfl
      | outb b => rw [hheld b (by rw [hs]; exact List.mem_singleton_self b)]; rfl
      | _ => rfl
    rw [hsend]
    refine ⟨q', ⟨hrep, ?_⟩, ?_⟩
    · show s.written.flatten = s.uart ++ [x] ++ s.pc.held ++ q' ++ s.bdata.drop s.i
      calc s.written.flatten
          = s.uart ++ (s.pc.held ++ [x]) ++ q' ++ s.bdata.drop s.i := by
            rw [hc.written_eq]
            simp only [List.append_assoc, List.cons_append, List.nil_append]
        _ = s.uart ++ [x] ++ s.pc.held ++ q' ++ s.bdata.drop s.i := by
            rw [hswap]
            simp only [List.append_assoc, List.cons_append, List.nil_append]
    · -- a shorter queue leaves at least as much room
      rw [WritePcInv] at hpc ⊢
      show match s.pc with
        | .idle => s.bdata.length ≤ s.i
        | .write wr => wr ≤ f.size - 1 - q'.length
        | _ => True
      split at hpc
      · exact hpc
      · rw [List.length_cons] at hpc
        omega
      · trivial

/-- A handler that sends a byte different from the one held puts it where the
    held one belongs. -/
theorem intTxempty_overtakes (h : WriteInv s) (hG : ¬ NoOvertake s .isr) :
    ¬ s.intTxempty.uart <+: s.intTxempty.written.flatten := by
  obtain ⟨q, hc, -⟩ := h
  simp only [NoOvertake, not_forall] at hG
  obtain ⟨-, hused, b, hb, hne⟩ := hG
  rcases intTxempty_cases hc.rep with ⟨rfl, -⟩ | ⟨x, q', f, rfl, -, -, hsend⟩
  · exact absurd (fifoGetused_eq hc.rep) hused
  · have hheld : s.pc.held = [b] := by
      cases hs : s.pc with
      | busyWait c => rw [hs] at hb; rw [List.mem_singleton.mp hb]; rfl
      | outb c => rw [hs] at hb; rw [List.mem_singleton.mp hb]; rfl
      | _ => rw [hs] at hb; exact absurd hb List.not_mem_nil
    rw [(fifoReadByte_rep hc.rep).1] at hne
    intro hpre
    rw [hsend] at hpre
    have hpre' : s.uart ++ [x] <+: s.written.flatten := hpre
    rw [hc.written_eq, hheld, List.append_assoc, List.append_assoc,
      List.prefix_append_right_inj] at hpre'
    exact hne (List.cons_prefix_cons.mp hpre').1

theorem mainStep_inv (h : WriteInv s) (hstep : s.mainStep = some t) : WriteInv t := by
  obtain ⟨q, hc, hpc⟩ := h
  have hrep := hc.rep
  have heq := hc.written_eq
  rw [mainStep] at hstep
  cases hs : s.pc with
  | idle =>
      rw [hs] at hstep
      cases hstep
  | getfree =>
      simp only [hs, Option.some.injEq, WritePc.held, List.append_nil] at hstep heq
      subst hstep
      -- what is written is capped by the room the FIFO has
      have hcap : (if fifoGetfree s.txfifo > s.bdata.length - s.i then s.bdata.length - s.i
          else fifoGetfree s.txfifo) ≤ s.txfifo.size - 1 - q.length := by
        rw [fifoGetfree_eq hrep]
        split <;> omega
      generalize (if fifoGetfree s.txfifo > s.bdata.length - s.i then s.bdata.length - s.i
        else fifoGetfree s.txfifo) = wr at hcap ⊢
      split
      · exact ⟨q, ⟨hrep, by simpa [WritePc.held] using heq⟩, hcap⟩
      · exact ⟨q, ⟨hrep, by simpa [WritePc.held] using heq⟩, trivial⟩
  | write wr =>
      simp only [hs, Option.some.injEq, WritePc.held, List.append_nil] at hstep heq
      rw [WritePcInv, hs] at hpc
      subst hstep
      obtain ⟨-, hrep'⟩ := @fifoWrite_fits _ _ ((s.bdata.drop s.i).take wr) hrep
        (Nat.le_trans (List.length_take_le ..) hpc)
      refine ⟨_, ⟨hrep', ?_⟩, trivial⟩
      show s.written.flatten = s.uart ++ [] ++ (q ++ (s.bdata.drop s.i).take wr)
        ++ s.bdata.drop (s.i + wr)
      rw [heq, ← List.drop_drop, List.append_nil]
      simp only [List.append_assoc, List.take_append_drop]
  | txEmpty =>
      simp only [hs, Option.some.injEq, WritePc.held, List.append_nil] at hstep heq
      subst hstep
      split
      · exact ⟨q, ⟨hrep, by simpa [WritePc.held] using heq⟩, trivial⟩
      · exact loopTest_inv hrep heq
  | read =>
      simp only [hs, Option.some.injEq, WritePc.held, List.append_nil] at hstep heq
      subst hstep
      rcases fifoRead_one_cases hrep with ⟨rfl, hread⟩ | ⟨x, q', rfl, h0, hbuf, hrep'⟩
      · rw [hread, if_neg (show ¬ (-1 : Int) = 0 by decide)]
        exact loopTest_inv hrep heq
      · rw [if_pos h0, hbuf]
        refine ⟨q', ⟨hrep', ?_⟩, trivial⟩
        show s.written.flatten = s.uart ++ [x] ++ q' ++ s.bdata.drop s.i
        rw [heq]
        simp only [List.append_assoc, List.cons_append, List.nil_append]
  | busyWait b =>
      simp only [hs, Option.some.injEq] at hstep
      subst hstep
      split
      · refine ⟨q, ⟨hrep, ?_⟩, trivial⟩
        rw [heq, hs]
        rfl
      · exact ⟨q, hc, hpc⟩
  | outb b =>
      simp only [hs, Option.some.injEq, WritePc.held] at hstep heq
      subst hstep
      exact loopTest_inv hrep heq

theorem call_inv {data : List UInt8} (h : WriteInv s) (hstep : s.step (.call data) = some t) :
    WriteInv t := by
  rw [step] at hstep
  split at hstep
  · next hidle =>
    obtain ⟨q, hrep, heq⟩ := h.idle_conserved hidle
    simp only [Option.some.injEq] at hstep
    subst hstep
    refine loopTest_inv hrep ?_
    simp only [List.flatten_append, List.flatten_singleton, List.drop_zero, heq]
  · cases hstep

/-- One event that keeps to the condition keeps the invariant. -/
theorem step_inv (s : WriteState) (e : WriteEvent) (t : WriteState) (h : WriteInv s)
    (hG : NoOvertake s e) (hstep : s.step e = some t) : WriteInv t := by
  cases e with
  | call data => exact call_inv h hstep
  | main => exact mainStep_inv h hstep
  | isr =>
      rw [step] at hstep
      split at hstep
      · next hthre =>
        simp only [Option.some.injEq] at hstep
        exact hstep ▸ intTxempty_inv h hthre hG
      · cases hstep
  | sent =>
      obtain ⟨q, hc, hpc⟩ := h
      simp only [step, Option.some.injEq] at hstep
      subst hstep
      exact ⟨q, ⟨hc.rep, hc.written_eq⟩, hpc⟩

/-- One event that does not keep to it breaks the order at once. -/
theorem step_overtakes (s : WriteState) (e : WriteEvent) (h : WriteInv s)
    (hG : ¬ NoOvertake s e) : ∃ t, s.step e = some t ∧ ¬ t.uart <+: t.written.flatten := by
  cases e with
  | isr =>
      have hthre : s.thre = true := by
        by_contra hn
        exact hG fun hthre => absurd hthre hn
      exact ⟨s.intTxempty, by rw [step, if_pos hthre], intTxempty_overtakes h hG⟩
  | _ => exact absurd trivial hG

end WriteState

theorem writeInit_inv {mem : List UInt8} {sz : Nat} (thre : Bool) (hsz : 1 ≤ sz)
    (h32 : sz < 2 ^ 32) (hmem : mem.length = sz) : WriteInv (writeInit mem sz thre) :=
  ⟨[], ⟨fifoInit_rep hsz h32 hmem, rfl⟩, Nat.le_refl 0⟩

/-- For every FIFO size and every interleaving: the bytes in the data register
    are, all along the run, a prefix of the buffers handed over, if and only
    if the run keeps to `NoOvertake`. -/
theorem serialWrite_in_order_iff (mem : List UInt8) (sz : Nat) (thre : Bool) (hsz : 1 ≤ sz)
    (h32 : sz < 2 ^ 32) (hmem : mem.length = sz) (es : List WriteEvent) :
    writeMachine.Along NoOvertake (writeInit mem sz thre) es ↔
      ∀ es' s, es' <+: es → writeMachine.run (writeInit mem sz thre) es' = some s →
        s.uart <+: s.written.flatten :=
  Machine.along_iff_forall_initial WriteState.step_inv (fun _ ⟨_, hc, _⟩ => hc.uart_initial)
    WriteState.step_overtakes (writeInit_inv thre hsz h32 hmem)

/-- The theorem at one call for two bytes, where the handler runs once the
    call is over: both bytes go out, in order. -/
theorem serialWrite_in_order_iff_two :
    let es := [.call [1, 2]] ++ List.replicate 6 .main ++ [.sent, .isr]
    (∃ s, writeMachine.run (writeInit (List.replicate 16 0) 16 true) es = some s ∧
      s.uart = [1, 2]) ∧
    ∀ es' s, es' <+: es →
      writeMachine.run (writeInit (List.replicate 16 0) 16 true) es' = some s →
        s.uart <+: s.written.flatten := by
  intro es
  refine ⟨?_, (serialWrite_in_order_iff (List.replicate 16 0) 16 true (by decide) (by decide)
    (by decide) es).mp (by decide +kernel)⟩
  have huart : (writeMachine.run (writeInit (List.replicate 16 0) 16 true) es).map
      WriteState.uart = some [1, 2] := by decide +kernel
  exact Option.map_eq_some_iff.mp huart

/-- The unconditional statement fails: a call for two bytes takes the first
    one out of the FIFO, the handler runs before it is written, and the second
    byte is on the line first. -/
theorem serialWrite_reorders :
    ¬ ∀ (es : List WriteEvent) (s : WriteState),
      writeMachine.run (writeInit (List.replicate 16 0) 16 true) es = some s →
        s.uart <+: s.written.flatten := by
  intro hall
  have hrun : (writeMachine.run (writeInit (List.replicate 16 0) 16 true)
      ([.call [1, 2]] ++ List.replicate 4 .main ++ [.isr])).map
        (fun s => (s.uart, s.written)) = some ([2], [[1, 2]]) := by decide +kernel
  obtain ⟨s, hs, hobs⟩ := Option.map_eq_some_iff.mp hrun
  obtain ⟨huart, hwritten⟩ := Prod.mk.inj hobs
  have hpre := hall _ s hs
  rw [huart, hwritten] at hpre
  exact absurd hpre (by decide)

end LBoot.Io
