/-
  LBoot.Io.SerialPoll

  `_serial_read` without interrupts (src/io/serial.c), next to the path that
  the interrupt handler feeds.

  Both read one stream: the bytes in the RX FIFO, and behind them those that
  still arrive at the UART.  `arrivals n` is how many of them arrive in front
  of iteration `n`; without interrupts they wait in the receive register, one
  at a time, and with interrupts the handler moves them into the FIFO.  No
  handler runs inside an iteration here.

  Without interrupts, bytes taken from the FIFO are not counted, nor are bytes
  taken from the register for a caller without a buffer, and the FIFO is left
  alone if the port has no TX FIFO.
-/

import LBoot.Io.SerialFlow
import LBoot.Lib.Iteration
import Mathlib.Algebra.BigOperators.Intervals
import Mathlib.Data.Nat.Count

namespace LBoot.Io

open LBoot.Data LBoot.Lib

/-! ## The two paths -/

/-- The loop of `_serial_read`, with the bytes that are still to come from the
    UART, and if it was left by `break`. -/
structure UartRead where
  l : ReadLoop
  uart : List UInt8
  stopped : Bool
  deriving DecidableEq, Repr

/-- The loop body with interrupts off. -/
def polledBody (txInit : Bool) (sz : Nat) (s : UartRead) (arrived : Nat) : UartRead :=
  let ready := if arrived = 0 then none else s.uart.head?
  { s with
    l := serialReadBody false txInit sz s.l ready
    -- the register is not looked at while the FIFO is read
    uart := if txInit ∧ fifoGetused s.l.sd.rxfifo ≠ 0 ∨ ready = none then s.uart else s.uart.tail }

/-- The loop body with interrupts on and the RX FIFO initialised, behind the
    interrupts of the bytes that have arrived. -/
def interruptBody (txInit : Bool) (sz : Nat) (s : UartRead) (arrived : Nat) : UartRead :=
  { s with
    l := serialReadBody true txInit sz
      { s.l with sd := (s.uart.take arrived).foldl serialIntRxavail s.l.sd } none
    uart := s.uart.drop arrived }

/-- An error is flagged. -/
def errorFlagged (sd : SerialData) : Bool :=
  sd.status &&& (serialstatusOverrun ||| serialstatusFraming) ≠ 0

/-- The tests at the end of the body, without a timeout. -/
def UartRead.check (s : UartRead) : UartRead :=
  { s with stopped := s.l.data.isSome && errorFlagged s.l.sd }

/-- One iteration, with the number of those before it. -/
def serialReadStep (body : UartRead → Nat → UartRead) (sz : Nat) (arrivals : Nat → Nat)
    (c : Nat × UartRead) : Option (Nat × UartRead) :=
  if c.2.stopped then none
  else if c.2.l.i < sz then some (c.1 + 1, (body c.2 (arrivals c.1)).check)
  else none

/-- Behind `size_t i = 0`. -/
def serialReadStart (sd : SerialData) (data : Option (List UInt8)) (uart : List UInt8) :
    Nat × UartRead := (0, ⟨⟨sd, data, 0⟩, uart, false⟩)

/-! ## What both are for -/

/-- The FIFO holds these bytes, or was never initialised. -/
def RxHolds (f : Fifo) (q : List UInt8) : Prop := Rep f q ∨ f = ⟨[], 0, 0, 0⟩ ∧ q = []

/-- Exactly `sz` bytes of the stream are taken, `k` of them or more having left
    the register, and stored in order; `sz` is returned. -/
structure ReadsExactly (q u : List UInt8) (data : Option (List UInt8)) (sz k : Nat)
    (s : UartRead) : Prop where
  count : s.l.i = sz
  stored : s.l.data = data.map fun d => splice d 0 ((q ++ u).take sz)
  fifo : RxHolds s.l.sd.rxfifo ((q ++ u.take k).drop sz)
  uart : s.uart = u.drop k

/-- Bytes keep arriving. -/
def Arrives (arrivals : Nat → Nat) : Prop := ∀ n, ∃ m, n ≤ m ∧ arrivals m ≠ 0

/-- The handler always finds room for what arrives. -/
def NoOverrun (f : Nat × UartRead → Option (Nat × UartRead)) (arrivals : Nat → Nat)
    (start : Nat × UartRead) : Prop :=
  ∀ n c, steps f n start = some c →
    (c.2.uart.take (arrivals c.1)).length ≤ fifoGetfree c.2.l.sd.rxfifo

/-- Both paths take `sz` bytes, those of the FIFO first; without interrupts no
    more leave the register than are needed. -/
structure ReadsAgree (txInit : Bool) (sd : SerialData) (data : Option (List UInt8))
    (q u : List UInt8) (sz : Nat) : Prop where
  polled : ∀ arrivals, Arrives arrivals →
    ∃ c, Exits (serialReadStep (polledBody txInit sz) sz arrivals) (serialReadStart sd data u) c ∧
      ReadsExactly q u data sz (sz - q.length) c.2
  interrupt : Rep sd.rxfifo q → ∀ arrivals, Arrives arrivals →
    NoOverrun (serialReadStep (interruptBody txInit sz) sz arrivals) arrivals
      (serialReadStart sd data u) →
    ∃ c, Exits (serialReadStep (interruptBody txInit sz) sz arrivals) (serialReadStart sd data u) c ∧
      ∃ k, ReadsExactly q u data sz k c.2

/-! ## Iterations -/

section

variable {body : UartRead → Nat → UartRead} {sz : Nat} {arrivals : Nat → Nat}
  {c c' : Nat × UartRead}

/-- An iteration that is made. -/
theorem serialReadStep_eq_some (h : serialReadStep body sz arrivals c = some c') :
    c.2.stopped = false ∧ c.2.l.i < sz ∧ c' = (c.1 + 1, (body c.2 (arrivals c.1)).check) := by
  rw [serialReadStep] at h
  split_ifs at h with hstop hlt
  exact ⟨Bool.not_eq_true _ ▸ hstop, hlt, (Option.some.inj h).symm⟩

/-- The loop is left at `sz` bytes, or by `break`. -/
theorem serialReadStep_eq_none (h : serialReadStep body sz arrivals c = none)
    (hstop : c.2.stopped = false) : sz ≤ c.2.l.i := by
  rw [serialReadStep, if_neg (by rw [hstop]; exact Bool.false_ne_true)] at h
  split_ifs at h with hlt
  exact Nat.le_of_not_lt hlt

theorem serialReadStep_clock {n : Nat} {start : Nat × UartRead} (hstart : start.1 = 0)
    (h : steps (serialReadStep body sz arrivals) n start = some c) : c.1 = n := by
  induction n generalizing c with
  | zero => exact Option.some.inj h ▸ hstart
  | succ n ih =>
      obtain ⟨t, ht, hlast⟩ := steps_succ_eq_some_last h
      obtain ⟨-, -, rfl⟩ := serialReadStep_eq_some hlast
      exact congrArg (· + 1) (ih ht)

end

/-- As many bytes as one likes have arrived at some time. -/
theorem Arrives.unbounded {arrivals : Nat → Nat} (h : Arrives arrivals) (k : Nat) :
    ∃ n, k ≤ Nat.count (arrivals · ≠ 0) n := by
  induction k with
  | zero => exact ⟨0, Nat.zero_le _⟩
  | succ k ih =>
      obtain ⟨n, hn⟩ := ih
      obtain ⟨m, hm, hne⟩ := h n
      refine ⟨m + 1, ?_⟩
      rw [Nat.count_succ, if_pos hne]
      exact Nat.succ_le_succ (hn.trans (Nat.count_monotone _ hm))

theorem count_le_sum (arrivals : Nat → Nat) (n : Nat) :
    Nat.count (arrivals · ≠ 0) n ≤ ∑ m ∈ Finset.range n, arrivals m := by
  induction n with
  | zero => exact Nat.zero_le _
  | succ n ih =>
      rw [Nat.count_succ, Finset.sum_range_succ]
      split_ifs with hne <;> omega

theorem RxHolds.used {f : Fifo} {q : List UInt8} (h : RxHolds f q) : fifoGetused f = q.length := by
  rcases h with hrep | ⟨rfl, rfl⟩
  · exact fifoGetused_eq hrep
  · rfl

/-- `fifo_read` and what is behind it, for bytes that are there. -/
theorem serialDrain_spec {l : ReadLoop} {q : List UInt8} {rd : Nat} (h : Rep l.sd.rxfifo q)
    (hrd : rd ≤ q.length) :
    Rep (serialDrain l rd).sd.rxfifo (q.drop rd) ∧
      (serialDrain l rd).sd.status = l.sd.status ∧
      (serialDrain l rd).data =
        l.data.map fun d => d.take l.i ++ splice (d.drop l.i) 0 (q.take rd) := by
  obtain ⟨-, hdst, hrep⟩ := fifoRead_avail h hrd (l.data.map (List.drop l.i))
  rw [serialDrain]
  dsimp only
  rw [serialRxFlowcontrol_rxfifo, serialRxFlowcontrol_status, hdst]
  refine ⟨hrep, rfl, ?_⟩
  cases l.data <;> rfl

/-- A caller's buffer stays one. -/
theorem serialDrain_isSome (l : ReadLoop) (rd : Nat) :
    (serialDrain l rd).data.isSome = l.data.isSome := by
  rw [serialDrain, fifoRead]
  cases hdata : l.data with
  | none => rfl
  | some d => split_ifs <;> rfl

@[simp] theorem serialDrain_i (l : ReadLoop) (rd : Nat) : (serialDrain l rd).i = l.i := rfl

/-- The handler, for bytes that there is room for. -/
theorem foldl_serialIntRxavail {bs : List UInt8} {sd : SerialData} {q : List UInt8}
    (h : Rep sd.rxfifo q) (hfit : bs.length ≤ sd.rxfifo.size - 1 - q.length) :
    Rep (bs.foldl serialIntRxavail sd).rxfifo (q ++ bs) ∧
      (bs.foldl serialIntRxavail sd).status = sd.status := by
  induction bs generalizing sd q with
  | nil => exact ⟨by rwa [List.append_nil], rfl⟩
  | cons b bs ih =>
      rw [List.length_cons] at hfit
      have hroom : [b].length ≤ sd.rxfifo.size - 1 - q.length := by
        rw [List.length_singleton]
        omega
      obtain ⟨hret, hrep⟩ := fifoWrite_fits h hroom
      rw [← serialIntRxavail_rxfifo] at hrep
      have hstatus : (serialIntRxavail sd b).status = sd.status := by
        rw [serialIntRxavail_eq, serialRxFlowcontrol_status, if_neg (not_not.mpr hret)]
      have hsize : (serialIntRxavail sd b).rxfifo.size = sd.rxfifo.size := by
        rw [serialIntRxavail_rxfifo, fifoWrite_size]
      obtain ⟨hrest, hrestStatus⟩ := ih hrep (by
        rw [hsize, List.length_append, List.length_singleton]
        omega)
      rw [List.append_assoc] at hrest
      exact ⟨hrest, hrestStatus.trans hstatus⟩

/-! ## Without interrupts -/

section

variable {txInit : Bool} {sz : Nat} {s : UartRead}

/-- With nothing in the FIFO, and nothing arrived, nothing happens. -/
theorem polledBody_idle (hused : fifoGetused s.l.sd.rxfifo = 0) : polledBody txInit sz s 0 = s := by
  have hbody : serialReadBody false txInit sz s.l none = s.l := by
    simp [serialReadBody, hused]
  simp [polledBody, hbody]

/-- A byte that has arrived goes to the buffer. -/
theorem polledBody_byte {arrived : Nat} {d rest : List UInt8} {byte : UInt8}
    (hused : fifoGetused s.l.sd.rxfifo = 0) (harrived : arrived ≠ 0) (hdata : s.l.data = some d)
    (huart : s.uart = byte :: rest) :
    polledBody txInit sz s arrived =
      { s with l := { s.l with data := some (d.set s.l.i byte), i := s.l.i + 1 }, uart := rest } := by
  simp [polledBody, serialReadBody, hused, harrived, hdata, huart]

end

theorem UartRead.check_of_clear {s : UartRead} (h : errorFlagged s.l.sd = false) :
    s.check = { s with stopped := false } := by
  rw [UartRead.check, h, Bool.and_false]

/-- Reading into a buffer, with nothing in the FIFO and no error: every byte
    that has arrived is stored and counted. -/
structure PolledInv (sd : SerialData) (d u : List UInt8) (sz : Nat) (arrivals : Nat → Nat)
    (c : Nat × UartRead) : Prop where
  goes : c.2.stopped = false
  same : c.2.l.sd = sd
  stored : c.2.l.data = some (splice d 0 (u.take c.2.l.i))
  uart : c.2.uart = u.drop c.2.l.i
  count : c.2.l.i = Nat.count (arrivals · ≠ 0) c.1
  le : c.2.l.i ≤ sz

section

variable {txInit : Bool} {sd : SerialData} {d u : List UInt8} {sz : Nat} {arrivals : Nat → Nat}
  (hused : fifoGetused sd.rxfifo = 0) (hclear : errorFlagged sd = false)
  (hd : sz ≤ d.length) (hu : sz ≤ u.length)

include hused hclear hd hu

theorem PolledInv.step {c c' : Nat × UartRead} (h : PolledInv sd d u sz arrivals c)
    (hstep : serialReadStep (polledBody txInit sz) sz arrivals c = some c') :
    PolledInv sd d u sz arrivals c' := by
  obtain ⟨-, hlt, rfl⟩ := serialReadStep_eq_some hstep
  obtain ⟨hgoes, hsame, hdata, huart, hcount, hle⟩ := h
  rw [← hsame] at hused hclear
  by_cases harrived : arrivals c.1 = 0
  · rw [harrived, polledBody_idle hused, UartRead.check_of_clear hclear]
    refine ⟨rfl, hsame, hdata, huart, ?_, hle⟩
    rw [Nat.count_succ, if_neg (not_not.mpr harrived), Nat.add_zero]
    exact hcount
  · have hi : c.2.l.i < u.length := by omega
    have hlen : (u.take c.2.l.i).length = c.2.l.i := List.length_take_of_le hi.le
    have hset : (splice d 0 (u.take c.2.l.i)).set c.2.l.i u[c.2.l.i] =
        splice d 0 (u.take (c.2.l.i + 1)) := by
      have hroom : (u.take c.2.l.i).length < d.length := by omega
      have hstore := splice_zero_set hroom u[c.2.l.i]
      rwa [hlen, ← List.take_succ_eq_append_getElem hi] at hstore
    rw [List.drop_eq_getElem_cons hi] at huart
    rw [polledBody_byte hused harrived hdata huart]
    refine ⟨?_, hsame, congrArg some hset, rfl, ?_, hlt⟩
    · show (true && errorFlagged c.2.l.sd) = false
      rw [hclear, Bool.and_false]
    rw [Nat.count_succ, if_pos harrived]
    exact congrArg (· + 1) hcount

/-- It reads `sz` bytes from the register. -/
theorem polled_exits (harrives : Arrives arrivals) :
    ∃ c, Exits (serialReadStep (polledBody txInit sz) sz arrivals)
        (serialReadStart sd (some d) u) c ∧ PolledInv sd d u sz arrivals c ∧ sz ≤ c.2.l.i := by
  have hinit : PolledInv sd d u sz arrivals (serialReadStart sd (some d) u) :=
    ⟨rfl, rfl, by simp [serialReadStart, splice], rfl, (Nat.count_zero _).symm, Nat.zero_le sz⟩
  have hinv := fun c c' (h : PolledInv sd d u sz arrivals c)
    (hstep : serialReadStep (polledBody txInit sz) sz arrivals c = some c') =>
      h.step hused hclear hd hu hstep
  -- it does not go on once `sz` bytes have arrived
  obtain ⟨n, hn⟩ := harrives.unbounded sz
  have hnone : steps (serialReadStep (polledBody txInit sz) sz arrivals) (n + 1)
      (serialReadStart sd (some d) u) = none := by
    refine Option.eq_none_iff_forall_ne_some.mpr fun c' hc' => ?_
    obtain ⟨c, hc, hlast⟩ := steps_succ_eq_some_last hc'
    have hcount := (steps_invariant hinv hinit hc).count
    have hlt := (serialReadStep_eq_some hlast).2.1
    rw [serialReadStep_clock rfl hc] at hcount
    omega
  obtain ⟨c, hexit⟩ := exits_of_steps_eq_none hnone
  have hc := hexit.invariant hinv hinit
  exact ⟨c, hexit, hc, serialReadStep_eq_none hexit.2 hc.goes⟩

end

/-! ## With interrupts -/

section

variable {txInit : Bool} {sz : Nat} {s : UartRead}

/-- The body takes what is wanted of what is in the FIFO. -/
theorem interruptBody_spec {q : List UInt8} {arrived : Nat} (h : Rep s.l.sd.rxfifo q)
    (hfit : (s.uart.take arrived).length ≤ fifoGetfree s.l.sd.rxfifo) :
    ∃ rd, rd = min (q.length + (s.uart.take arrived).length) (sz - s.l.i) ∧
      Rep (interruptBody txInit sz s arrived).l.sd.rxfifo ((q ++ s.uart.take arrived).drop rd) ∧
      (interruptBody txInit sz s arrived).l.sd.status = s.l.sd.status ∧
      (interruptBody txInit sz s arrived).l.i = s.l.i + rd ∧
      (interruptBody txInit sz s arrived).l.data = s.l.data.map (fun d =>
        d.take s.l.i ++ splice (d.drop s.l.i) 0 ((q ++ s.uart.take arrived).take rd)) := by
  rw [fifoGetfree_eq h] at hfit
  obtain ⟨hrep, hstatus⟩ := foldl_serialIntRxavail h hfit
  have hused := fifoGetused_eq hrep
  rw [List.length_append] at hused
  refine ⟨_, rfl, ?_⟩
  have hrd : (if q.length + (s.uart.take arrived).length > sz - s.l.i then sz - s.l.i
      else q.length + (s.uart.take arrived).length) =
        min (q.length + (s.uart.take arrived).length) (sz - s.l.i) := by
    split_ifs <;> omega
  dsimp only [interruptBody, serialReadBody]
  rw [hused, hrd, if_pos rfl]
  generalize hmin : min (q.length + (s.uart.take arrived).length) (sz - s.l.i) = rd
  have hle : rd ≤ (q ++ s.uart.take arrived).length := by
    rw [List.length_append]
    omega
  by_cases hzero : rd = 0
  · subst hzero
    rw [if_neg (not_not.mpr rfl)]
    refine ⟨hrep, hstatus, rfl, ?_⟩
    cases hdata : s.l.data with
    | none => rfl
    | some d => simp [splice]
  · rw [if_pos hzero]
    have hdrain := serialDrain_spec (l := { s.l with
      sd := (s.uart.take arrived).foldl serialIntRxavail s.l.sd }) hrep hle
    exact ⟨hdrain.1, hdrain.2.1.trans hstatus, rfl, hdrain.2.2⟩

end

/-- What has arrived by an iteration. -/
def arrivedBytes (u : List UInt8) (arrivals : Nat → Nat) (n : Nat) : List UInt8 :=
  u.take (∑ m ∈ Finset.range n, arrivals m)

/-- Everything that has arrived is in the FIFO or was read, and it was read as
    far as it is wanted. -/
structure InterruptInv (sd : SerialData) (data : Option (List UInt8)) (q u : List UInt8) (sz : Nat)
    (arrivals : Nat → Nat) (c : Nat × UartRead) : Prop where
  goes : c.2.stopped = false
  status : c.2.l.sd.status = sd.status
  uart : c.2.uart = u.drop (∑ m ∈ Finset.range c.1, arrivals m)
  fifo : Rep c.2.l.sd.rxfifo ((q ++ arrivedBytes u arrivals c.1).drop c.2.l.i)
  stored : c.2.l.data = data.map fun d => splice d 0 ((q ++ arrivedBytes u arrivals c.1).take c.2.l.i)
  le : c.2.l.i ≤ min sz (q ++ arrivedBytes u arrivals c.1).length
  all : 0 < c.1 → c.2.l.i = min sz (q ++ arrivedBytes u arrivals c.1).length

section

variable {txInit : Bool} {sd : SerialData} {data : Option (List UInt8)} {q u : List UInt8} {sz : Nat}
  {arrivals : Nat → Nat}

theorem InterruptInv.step {c c' : Nat × UartRead} (hclear : errorFlagged sd = false)
    (h : InterruptInv sd data q u sz arrivals c)
    (hroom : (c.2.uart.take (arrivals c.1)).length ≤ fifoGetfree c.2.l.sd.rxfifo)
    (hstep : serialReadStep (interruptBody txInit sz) sz arrivals c = some c') :
    InterruptInv sd data q u sz arrivals c' := by
  obtain ⟨-, hlt, rfl⟩ := serialReadStep_eq_some hstep
  obtain ⟨rd, hrd, hrep, hstatus, hi, hdata⟩ :=
    @interruptBody_spec txInit sz _ _ _ h.fifo hroom
  obtain ⟨-, hold, huart, -, hstored, hle, -⟩ := h
  -- what has arrived by the next iteration
  have hnext : q ++ arrivedBytes u arrivals (c.1 + 1) =
      q ++ arrivedBytes u arrivals c.1 ++ c.2.uart.take (arrivals c.1) := by
    rw [arrivedBytes, Finset.sum_range_succ, List.take_add, huart, arrivedBytes,
      List.append_assoc]
  have hstatus' : (interruptBody txInit sz c.2 (arrivals c.1)).l.sd.status = sd.status :=
    hstatus.trans hold
  have hclear' : errorFlagged (interruptBody txInit sz c.2 (arrivals c.1)).l.sd = false := by
    rw [errorFlagged, hstatus']
    exact hclear
  rw [UartRead.check_of_clear hclear']
  generalize q ++ arrivedBytes u arrivals c.1 = w at *
  generalize harr : c.2.uart.take (arrivals c.1) = taken at *
  rw [← List.drop_append_of_le_length (by omega)] at hrep hdata
  rw [List.length_drop] at hrd
  have hall : c.2.l.i + rd = min sz (w ++ taken).length := by
    rw [List.length_append]
    omega
  refine ⟨rfl, hstatus', ?_, ?_, ?_, ?_, ?_⟩
  · show c.2.uart.drop (arrivals c.1) = _
    rw [Finset.sum_range_succ, huart, List.drop_drop]
  · dsimp only
    rw [hnext, hi, ← List.drop_drop]
    exact hrep
  · dsimp only
    rw [hdata, hstored, hnext, hi, Option.map_map]
    refine congrArg (Option.map · data) (funext fun d => ?_)
    have hlen : (w.take c.2.l.i).length = c.2.l.i := List.length_take_of_le (by omega)
    have happ := splice_zero_append d (w.take c.2.l.i) (((w ++ taken).drop c.2.l.i).take rd)
    rw [hlen] at happ
    rw [List.take_add, List.take_append_of_le_length (by omega)]
    exact happ
  · dsimp only
    rw [hnext, hi, hall]
  · intro _
    dsimp only
    rw [hnext, hi, hall]

/-- The interrupt-driven path reads exactly `sz` bytes of the stream. -/
theorem interrupt_reads (hrep : Rep sd.rxfifo q) (hclear : errorFlagged sd = false)
    (havail : sz ≤ q.length + u.length) (harrives : Arrives arrivals)
    (hroom : NoOverrun (serialReadStep (interruptBody txInit sz) sz arrivals) arrivals
      (serialReadStart sd data u)) :
    ∃ c, Exits (serialReadStep (interruptBody txInit sz) sz arrivals) (serialReadStart sd data u) c ∧
      ∃ k, ReadsExactly q u data sz k c.2 := by
  have hinit : InterruptInv sd data q u sz arrivals (serialReadStart sd data u) := by
    refine ⟨rfl, rfl, rfl, ?_, ?_, Nat.zero_le _, fun h => absurd h (Nat.lt_irrefl 0)⟩
    · simpa [serialReadStart, arrivedBytes] using hrep
    · cases data with
      | none => rfl
      | some d => simp [serialReadStart, splice]
  have hrun : ∀ n c, steps (serialReadStep (interruptBody txInit sz) sz arrivals) n
      (serialReadStart sd data u) = some c → InterruptInv sd data q u sz arrivals c := by
    intro n
    induction n with
    | zero => exact fun c hc => Option.some.inj hc ▸ hinit
    | succ n ih =>
        intro c' hc'
        obtain ⟨c, hc, hlast⟩ := steps_succ_eq_some_last hc'
        exact (ih c hc).step hclear (hroom n c hc) hlast
  -- once `sz` bytes have arrived, it does not go on
  obtain ⟨n, hn⟩ := harrives.unbounded sz
  have hsum := hn.trans (count_le_sum arrivals n)
  have hnone : steps (serialReadStep (interruptBody txInit sz) sz arrivals) (n + 1)
      (serialReadStart sd data u) = none := by
    refine Option.eq_none_iff_forall_ne_some.mpr fun c' hc' => ?_
    obtain ⟨c, hc, hlast⟩ := steps_succ_eq_some_last hc'
    have hlt := (serialReadStep_eq_some hlast).2.1
    have hclock := serialReadStep_clock rfl hc
    have hall := (hrun n c hc).all
    rw [hclock, arrivedBytes, List.length_append, List.length_take] at hall
    by_cases hpos : 0 < n
    · have hi := hall hpos
      omega
    · obtain rfl : n = 0 := Nat.eq_zero_of_not_pos hpos
      rw [Nat.count_zero] at hn
      omega
  obtain ⟨c, hexit⟩ := exits_of_steps_eq_none hnone
  obtain ⟨k, hk⟩ := hexit.1
  have hc := hrun k c hk
  have hle := hc.le
  have hi : c.2.l.i = sz := by
    have hge := serialReadStep_eq_none hexit.2 hc.goes
    omega
  refine ⟨c, hexit, ∑ m ∈ Finset.range c.1, arrivals m, hi, ?_, .inl ?_, hc.uart⟩
  · rw [hc.stored, hi]
    refine congrArg (Option.map · data) (funext fun d => ?_)
    have hw : q ++ u = q ++ arrivedBytes u arrivals c.1 ++
        u.drop (∑ m ∈ Finset.range c.1, arrivals m) := by
      rw [arrivedBytes, List.append_assoc, List.take_append_drop]
    have htake : (q ++ u).take sz = (q ++ arrivedBytes u arrivals c.1).take sz := by
      rw [hw]
      exact List.take_append_of_le_length (by omega)
    rw [htake]
  · rw [← hi]
    exact hc.fifo

end

/-! ## What goes wrong without interrupts -/

section

variable {txInit : Bool} {sd : SerialData} {data : Option (List UInt8)} {q u : List UInt8} {sz : Nat}

/-- A byte is counted only if it comes from the register, and there is a
    buffer. -/
theorem polledBody_cases (s : UartRead) (arrived : Nat) :
    (polledBody txInit sz s arrived).l.data.isSome = s.l.data.isSome ∧
      ((polledBody txInit sz s arrived).l.i = s.l.i ∧ (polledBody txInit sz s arrived).uart = s.uart ∨
        ∃ byte, s.uart = byte :: (polledBody txInit sz s arrived).uart ∧
          (polledBody txInit sz s arrived).l.i = if s.l.data.isSome then s.l.i + 1 else s.l.i) := by
  by_cases hfifo : txInit = true ∧ fifoGetused s.l.sd.rxfifo ≠ 0
  · simp [polledBody, serialReadBody, hfifo, serialDrain_isSome]
  · by_cases harrived : arrived = 0
    · simp [polledBody, serialReadBody, harrived, hfifo]
    · cases huart : s.uart with
      | nil => simp [polledBody, serialReadBody, harrived, hfifo, huart]
      | cons byte rest =>
          cases hdata : s.l.data <;>
            simp [polledBody, serialReadBody, harrived, hfifo, huart, hdata]

/-- Without a buffer nothing is counted. -/
theorem polled_null {arrivals : Nat → Nat} {c : Nat × UartRead}
    (h : Exits (serialReadStep (polledBody txInit sz) sz arrivals) (serialReadStart sd none u) c) :
    c.2.l.i = 0 := by
  have hinv := h.invariant (I := fun c => c.2.l.data.isSome = false ∧ c.2.l.i = 0)
    (fun s t hs hstep => ?_) ⟨rfl, rfl⟩
  · exact hinv.2
  · obtain ⟨-, -, rfl⟩ := serialReadStep_eq_some hstep
    obtain ⟨hdata, hcases⟩ := @polledBody_cases txInit sz s.2 (arrivals s.1)
    refine ⟨hdata.trans hs.1, ?_⟩
    rcases hcases with ⟨hi, -⟩ | ⟨byte, -, hi⟩
    · exact hi.trans hs.2
    · rw [hs.1, if_neg Bool.false_ne_true] at hi
      exact hi.trans hs.2

/-- With a buffer, what is counted is what comes from the register. -/
theorem polled_counts {arrivals : Nat → Nat} {d : List UInt8} {c : Nat × UartRead}
    (h : Exits (serialReadStep (polledBody txInit sz) sz arrivals) (serialReadStart sd (some d) u) c) :
    c.2.l.i + c.2.uart.length = u.length := by
  have hinv := h.invariant
    (I := fun c => c.2.l.data.isSome = true ∧ c.2.l.i + c.2.uart.length = u.length)
    (fun s t hs hstep => ?_) ⟨rfl, Nat.zero_add _⟩
  · exact hinv.2
  · obtain ⟨-, -, rfl⟩ := serialReadStep_eq_some hstep
    obtain ⟨hdata, hcases⟩ := @polledBody_cases txInit sz s.2 (arrivals s.1)
    refine ⟨hdata.trans hs.1, ?_⟩
    show (polledBody txInit sz s.2 (arrivals s.1)).l.i +
      (polledBody txInit sz s.2 (arrivals s.1)).uart.length = u.length
    rcases hcases with ⟨hi, huart⟩ | ⟨byte, huart, hi⟩
    · rw [hi, huart]
      exact hs.2
    · have hlen := hs.2
      rw [huart, List.length_cons] at hlen
      rw [hi, if_pos hs.1]
      omega

theorem arrives_one : Arrives fun _ => 1 := fun n => ⟨n, Nat.le_refl n, Nat.one_ne_zero⟩

/-- The paths agree at most for a caller with a buffer, and an empty FIFO. -/
theorem ReadsAgree.fifo_empty (h : ReadsAgree txInit sd data q u sz) (hsz : sz ≠ 0) :
    data.isSome = true ∧ q = [] := by
  obtain ⟨c, hexit, hreads⟩ := h.polled _ arrives_one
  have hcount := hreads.count
  cases data with
  | none =>
      rw [polled_null hexit] at hcount
      exact absurd hcount.symm hsz
  | some d =>
      refine ⟨rfl, List.eq_nil_of_length_eq_zero ?_⟩
      have hall := polled_counts hexit
      rw [hcount, hreads.uart, List.length_drop] at hall
      omega

/-- They do not if an error is flagged, which ends the call early. -/
theorem ReadsAgree.clear (hrx : RxHolds sd.rxfifo []) {d : List UInt8}
    (h : ReadsAgree txInit sd (some d) [] u sz) (hsz : sz ≠ 0) : errorFlagged sd = false := by
  by_contra hflag
  rw [Bool.not_eq_false] at hflag
  -- nothing has arrived in front of the first iteration
  obtain ⟨c, hexit, hreads⟩ := h.polled (fun n => if n = 0 then 0 else 1)
    fun n => ⟨n + 1, Nat.le_succ n, by simp⟩
  have hfirst : steps (serialReadStep (polledBody txInit sz) sz fun n => if n = 0 then 0 else 1) 1
      (serialReadStart sd (some d) u) = some (1, ⟨⟨sd, some d, 0⟩, u, true⟩) := by
    have hidle : polledBody txInit sz (serialReadStart sd (some d) u).2 0 =
        (serialReadStart sd (some d) u).2 := polledBody_idle hrx.used
    have hstop : (serialReadStart sd (some d) u).2.check = ⟨⟨sd, some d, 0⟩, u, true⟩ := by
      simp [UartRead.check, serialReadStart, hflag]
    have hgoes : ¬ (serialReadStart sd (some d) u).2.stopped = true := Bool.false_ne_true
    have hlt : (serialReadStart sd (some d) u).2.l.i < sz := Nat.pos_of_ne_zero hsz
    rw [steps_succ, serialReadStep, if_neg hgoes, if_pos hlt]
    show some (1, (polledBody txInit sz (serialReadStart sd (some d) u).2 0).check) = _
    rw [hidle, hstop]
  have hsame := hexit.unique ⟨⟨1, hfirst⟩, rfl⟩
  have hcount := hreads.count
  rw [hsame] at hcount
  exact hsz hcount.symm

/-- A call for no bytes at all. -/
theorem readsAgree_zero (hrx : RxHolds sd.rxfifo q) : ReadsAgree txInit sd data q u 0 := by
  have hreads : ReadsExactly q u data 0 0 (serialReadStart sd data u).2 := by
    refine ⟨rfl, ?_, ?_, rfl⟩
    · cases data with
      | none => rfl
      | some d => simp [serialReadStart, splice]
    · simpa [serialReadStart] using hrx
  refine ⟨fun arrivals _ => ⟨_, ⟨⟨0, rfl⟩, rfl⟩, ?_⟩, fun _ arrivals _ _ =>
    ⟨_, ⟨⟨0, rfl⟩, rfl⟩, 0, hreads⟩⟩
  rw [Nat.zero_sub]
  exact hreads

end

/-- **Both paths.**  Whatever the RX FIFO holds and arrives at the UART, a call
    for no more bytes than there are takes the same bytes with interrupts and
    without, if and only if it asks for none, or there is a buffer, nothing in
    the FIFO and no error flagged. -/
theorem serialRead_agrees_iff {txInit : Bool} {sd : SerialData} {data : Option (List UInt8)}
    {q u : List UInt8} {sz : Nat} (hrx : RxHolds sd.rxfifo q)
    (hbuf : ∀ d ∈ data, sz ≤ d.length) (havail : sz ≤ q.length + u.length) :
    ReadsAgree txInit sd data q u sz ↔
      sz = 0 ∨ data.isSome = true ∧ q = [] ∧ errorFlagged sd = false := by
  constructor
  · intro h
    by_cases hsz : sz = 0
    · exact .inl hsz
    · obtain ⟨hdata, rfl⟩ := h.fifo_empty hsz
      obtain ⟨d, rfl⟩ := Option.isSome_iff_exists.mp hdata
      exact .inr ⟨rfl, rfl, h.clear hrx hsz⟩
  · rintro (rfl | ⟨hdata, rfl, hclear⟩)
    · exact readsAgree_zero hrx
    · obtain ⟨d, rfl⟩ := Option.isSome_iff_exists.mp hdata
      rw [List.length_nil, Nat.zero_add] at havail
      refine ⟨fun arrivals harrives => ?_, fun hrep arrivals harrives hroom => ?_⟩
      · obtain ⟨c, hexit, hc, hge⟩ :=
          @polled_exits txInit _ _ _ _ _ hrx.used hclear (hbuf d rfl) havail harrives
        have hi : c.2.l.i = sz := Nat.le_antisymm hc.le hge
        refine ⟨c, hexit, hi, ?_, ?_, ?_⟩
        · rw [hc.stored, hi]
          rfl
        · rw [hc.same]
          simpa using hrx
        · rw [hc.uart, hi]
          rfl
      · exact interrupt_reads hrep hclear (by simpa using havail) harrives hroom

/-- A port with a byte in its RX FIFO. -/
def oneByteSd : SerialData where
  cfg := 0
  mcrVal := serialInitMcr
  status := 0
  fifoLow := 12
  rxfifo := (fifoWrite (fifoInit (List.replicate 16 0) 16) [0x41]).2

/-- A port whose FIFO is empty. -/
def noByteSd : SerialData := { oneByteSd with rxfifo := fifoInit (List.replicate 16 0) 16 }

theorem noByteSd_rep : Rep noByteSd.rxfifo [] :=
  fifoInit_rep (by decide) (by decide) (by decide)

theorem serialRead_agrees_two : ReadsAgree true noByteSd (some [0, 0]) [] [0x41, 0x42] 2 :=
  (serialRead_agrees_iff (.inl noByteSd_rep) (by simp) (by decide)).mpr (.inr ⟨rfl, rfl, rfl⟩)

/-- The unconditional statement fails: the byte in the FIFO is lost. -/
theorem serialRead_not_agrees : Rep oneByteSd.rxfifo [0x41] ∧
    ¬ ReadsAgree true oneByteSd (some [0]) [0x41] [0x42] 1 := by
  refine ⟨(fifoWrite_fits noByteSd_rep (by decide)).2, fun h => ?_⟩
  exact List.cons_ne_nil _ _ (h.fifo_empty Nat.one_ne_zero).2

end LBoot.Io
