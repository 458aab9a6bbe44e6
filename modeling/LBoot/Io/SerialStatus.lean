/-
  LBoot.Io.SerialStatus

  What the status of an input handle says (src/io/serial.c, inc/io/input.h).

  An error is flagged in `sdata->status` by the interrupt handler and passed
  on to `in->status` at the end of `_serial_read`.  Every statement there is a
  step of its own, and so is every iteration of the loop; the handler may come
  between any two steps.

  The two flags of the handle are one bit, and nothing clears it, so it says
  the truth only where both kinds of error or none occurred, and none has been
  reported before (`Separable`).  An error that is flagged behind its test is
  reported one call late.
-/

import LBoot.Io.SerialPoll

namespace LBoot.Io

open LBoot.Data LBoot.Lib

/-- `1U << SERIALREG_LSR_OE__POS`. -/
def serialregLsrOe : UInt8 := 0x02

/-- `1U << SERIALREG_LSR_FE__POS`. -/
def serialregLsrFe : UInt8 := 0x08

namespace SerialData

/-- `SERIALSTATUS_OVERRUN` is set. -/
def overrun (sd : SerialData) : Bool := sd.status &&& serialstatusOverrun ≠ 0

/-- `SERIALSTATUS_FRAMING` is set. -/
def framing (sd : SerialData) : Bool := sd.status &&& serialstatusFraming ≠ 0

/-- `fifo_isinitialized(&sdata->rxfifo)`. -/
def rxInit (sd : SerialData) : Bool := fifoIsinitialized sd.rxfifo

end SerialData

/-! ## The handler -/

/-- `_serial_int_handler`, case `SERIALREG_IIR_INTID_RXAVAIL`. -/
def serialIntRx (sd : SerialData) (byte : UInt8) : SerialData :=
  if sd.rxInit then serialIntRxavail sd byte else sd

/-- The byte does not fit. -/
def fifoOverruns (sd : SerialData) (byte : UInt8) : Bool :=
  sd.rxInit && decide ((fifoWrite sd.rxfifo [byte]).1 ≠ 0)

/-- Case `SERIALREG_IIR_INTID_RXLINESTATUS`, with this line status. -/
def serialIntLine (sd : SerialData) (lsr : UInt8) : SerialData :=
  let sd := if lsr &&& serialregLsrOe ≠ 0 then
    { sd with status := sd.status ||| serialstatusOverrun } else sd
  if lsr &&& serialregLsrFe ≠ 0 then
    { sd with status := sd.status ||| serialstatusFraming } else sd

/-! ## The machine -/

/-- Program points of `_serial_read`. -/
inductive StatusPc where
  | idle
  /-- `while(i < sz)`, and the body -/
  | loop
  /-- the tests at the end of the body -/
  | check
  /-- `sdata->status & SERIALSTATUS_OVERRUN` -/
  | overTest
  /-- `in->status |= INPUTSTATUS_OVERRUN` -/
  | overPass
  /-- `sdata->status &= ~SERIALSTATUS_OVERRUN` -/
  | overClear
  /-- `sdata->status & SERIALSTATUS_FRAMING` -/
  | frameTest
  /-- `in->status |= INPUTSTATUS_DATAERR` -/
  | framePass
  /-- `sdata->status &= ~SERIALSTATUS_FRAMING` -/
  | frameClear
  /-- `return i` -/
  | ret
  deriving DecidableEq, Repr

/-- An overrun that is flagged is still passed on. -/
def StatusPc.overPending : StatusPc → Bool
  | .frameTest | .framePass | .frameClear | .ret => false
  | _ => true

/-- A framing error that is flagged is still passed on. -/
def StatusPc.framePending : StatusPc → Bool
  | .ret => false
  | _ => true

/-- The active call: its arguments, if interrupts are enabled and the TX FIFO
    initialised, and the loop counter. -/
structure StatusCall where
  ints : Bool
  txInit : Bool
  data : Option (List UInt8)
  sz : Nat
  timeout : Nat
  i : Nat
  deriving DecidableEq, Repr

/-- The status of the handle when a call returned, and the errors since the one
    before it. -/
structure ErrorReport where
  status : UInt8
  overrun : Bool
  frame : Bool
  deriving DecidableEq, Repr

structure StatusState where
  sd : SerialData
  /-- `in->status` -/
  inStatus : UInt8
  pc : StatusPc
  call : StatusCall
  /-- the errors since the last call returned -/
  overrun : Bool
  frame : Bool
  /-- of the last call that returned -/
  last : Option ErrorReport
  deriving DecidableEq, Repr

inductive StatusEvent where
  | call (ints txInit : Bool) (data : Option (List UInt8)) (sz timeout : Nat)
  /-- a step of `_serial_read`: what is in the receive register, and the
      answer of `time_ispast` -/
  | main (ready : Option UInt8) (past : Bool)
  | rx (byte : UInt8)
  | line (lsr : UInt8)
  deriving DecidableEq, Repr

namespace StatusState

/-- The loop body. -/
def body (s : StatusState) (ready : Option UInt8) : ReadLoop :=
  serialReadBody (s.call.ints && s.sd.rxInit) s.call.txInit s.call.sz
    ⟨s.sd, s.call.data, s.call.i⟩ ready

/-- One step of `_serial_read`. -/
def mainStep (s : StatusState) (ready : Option UInt8) (past : Bool) : Option StatusState :=
  match s.pc with
  | .idle => none
  | .loop =>
      some (if s.call.i < s.call.sz then
        { s with
          sd := (s.body ready).sd
          call := { s.call with data := (s.body ready).data, i := (s.body ready).i }
          pc := .check }
      else { s with pc := .overTest })
  | .check =>
      some { s with pc :=
        if s.call.data.isSome ∧ errorFlagged s.sd then .overTest
        else if s.call.timeout ≠ 0 ∧ past then .overTest
        else .loop }
  | .overTest => some { s with pc := if s.sd.overrun then .overPass else .frameTest }
  | .overPass => some { s with inStatus := s.inStatus ||| inputstatusOverrun, pc := .overClear }
  | .overClear =>
      some { s with
        sd := { s.sd with status := s.sd.status &&& ~~~ serialstatusOverrun }
        pc := .frameTest }
  | .frameTest => some { s with pc := if s.sd.framing then .framePass else .ret }
  | .framePass => some { s with inStatus := s.inStatus ||| inputstatusDataerr, pc := .frameClear }
  | .frameClear =>
      some { s with
        sd := { s.sd with status := s.sd.status &&& ~~~ serialstatusFraming }
        pc := .ret }
  | .ret =>
      some { s with
        pc := .idle
        last := some ⟨s.inStatus, s.overrun, s.frame⟩
        overrun := false
        frame := false }

/-- One event.  A timeout needs interrupts. -/
def step (s : StatusState) : StatusEvent → Option StatusState
  | .call ints txInit data sz timeout =>
      if s.pc = .idle ∧ (timeout = 0 ∨ ints) then
        some { s with call := ⟨ints, txInit, data, sz, timeout, 0⟩, pc := .loop }
      else none
  | .main ready past => s.mainStep ready past
  | .rx byte => some { s with
      sd := serialIntRx s.sd byte
      overrun := s.overrun || fifoOverruns s.sd byte }
  | .line lsr =>
      some { s with
        sd := serialIntLine s.sd lsr
        overrun := s.overrun || lsr &&& serialregLsrOe ≠ 0
        frame := s.frame || lsr &&& serialregLsrFe ≠ 0 }

end StatusState

/-- `_serial_read` and both interrupts. -/
def statusMachine : Machine StatusState StatusEvent := ⟨StatusState.step⟩

/-- A new handle: what is flagged has occurred since the last call. -/
def statusInit (sd : SerialData) : StatusState where
  sd := sd
  inStatus := 0
  pc := .idle
  call := ⟨false, false, none, 0, 0, 0⟩
  overrun := sd.overrun
  frame := sd.framing
  last := none

/-- What the last call reported is what has occurred: each flag is set for its
    kind of error only. -/
def Accurate (s : StatusState) : Prop :=
  ∀ r ∈ s.last, (r.status &&& inputstatusOverrun ≠ 0 ↔ r.overrun = true) ∧
    (r.status &&& inputstatusDataerr ≠ 0 ↔ r.frame = true)

/-- The handle already had an error flagged when the last call returned. -/
def StatusState.stale (s : StatusState) : Bool := s.last.elim false fun r => r.status ≠ 0

/-- Errors come while their flag is still passed on.  When a call returns,
    errors of both kinds have occurred since the last one, or of none, and of
    both if the handle has an error flagged from an earlier call. -/
def Separable (s : StatusState) : StatusEvent → Prop
  | .call .. => True
  | .main _ _ => s.pc = .ret → s.overrun = s.frame ∧ (s.stale → s.overrun)
  | .rx byte => fifoOverruns s.sd byte → s.pc.overPending
  | .line lsr =>
      (lsr &&& serialregLsrOe ≠ 0 → s.pc.overPending) ∧
        (lsr &&& serialregLsrFe ≠ 0 → s.pc.framePending)

instance : ∀ (s : StatusState) (e : StatusEvent), Decidable (Separable s e)
  | _, .call _ _ _ _ _ => inferInstanceAs (Decidable True)
  | s, .main _ _ =>
      inferInstanceAs (Decidable (s.pc = .ret → s.overrun = s.frame ∧ (s.stale → s.overrun)))
  | s, .rx byte => inferInstanceAs (Decidable (fifoOverruns s.sd byte → s.pc.overPending))
  | s, .line lsr =>
      inferInstanceAs (Decidable ((lsr &&& serialregLsrOe ≠ 0 → s.pc.overPending) ∧
        (lsr &&& serialregLsrFe ≠ 0 → s.pc.framePending)))

/-! ## Flags -/

section

variable (m l k : UInt8)

theorem or_and_flag (hl : l ≠ 0) : (m ||| l) &&& l ≠ 0 := by
  have hset : (m ||| l) &&& l = (m &&& l) ||| (l &&& l) :=
    UInt8.toBitVec_inj.1 BitVec.and_or_distrib_right
  simp [hset, hl]

theorem or_and_other (hk : l &&& k = 0) : (m ||| l) &&& k = m &&& k := by
  have hset : (m ||| l) &&& k = (m &&& k) ||| (l &&& k) :=
    UInt8.toBitVec_inj.1 BitVec.and_or_distrib_right
  rw [hset, hk, UInt8.or_zero]

theorem clear_and_flag : m &&& ~~~ l &&& l = 0 := by
  rw [UInt8.and_assoc, UInt8.not_and_self, UInt8.and_zero]

theorem clear_and_other (hk : l &&& k = 0) : m &&& ~~~ l &&& k = m &&& k := by
  have hkeep : ~~~ l &&& k = k := by
    have hall : (l ||| ~~~ l) &&& k = (l &&& k) ||| (~~~ l &&& k) :=
      UInt8.toBitVec_inj.1 BitVec.and_or_distrib_right
    simpa [hk] using hall.symm
  rw [UInt8.and_assoc, hkeep]

end

/-- The status byte of a handle. -/
def handleFlag (b : Bool) : UInt8 := if b then 1 else 0

theorem handleFlag_or (b : Bool) : handleFlag b ||| 1 = handleFlag true := by cases b <;> rfl

theorem handleFlag_and (b : Bool) : handleFlag b &&& 1 ≠ 0 ↔ b = true := by cases b <;> decide

/-! ## What the handler and the loop do to the flags -/

theorem serialIntRx_flags (sd : SerialData) (byte : UInt8) :
    (serialIntRx sd byte).overrun = (sd.overrun || fifoOverruns sd byte) ∧
      (serialIntRx sd byte).framing = sd.framing := by
  rw [serialIntRx, fifoOverruns]
  cases hinit : sd.rxInit with
  | false => simp
  | true =>
      rw [if_pos rfl, Bool.true_and]
      by_cases hret : (fifoWrite sd.rxfifo [byte]).1 = 0
      · have hstatus : (serialIntRxavail sd byte).status = sd.status := by
          rw [serialIntRxavail_eq, serialRxFlowcontrol_status, if_neg (not_not.mpr hret)]
        simp [SerialData.overrun, SerialData.framing, hstatus, hret]
      · have hstatus : (serialIntRxavail sd byte).status = sd.status ||| serialstatusOverrun := by
          rw [serialIntRxavail_eq, serialRxFlowcontrol_status, if_pos hret]
        have hover := or_and_flag sd.status serialstatusOverrun (by decide)
        have hframe := or_and_other sd.status serialstatusOverrun serialstatusFraming (by decide)
        simp [SerialData.overrun, SerialData.framing, hstatus, hret, hover, hframe]

theorem serialIntLine_flags (sd : SerialData) (lsr : UInt8) :
    (serialIntLine sd lsr).overrun = (sd.overrun || lsr &&& serialregLsrOe ≠ 0) ∧
      (serialIntLine sd lsr).framing = (sd.framing || lsr &&& serialregLsrFe ≠ 0) := by
  have hover (m : UInt8) := or_and_flag m serialstatusOverrun (by decide)
  have hframe (m : UInt8) := or_and_flag m serialstatusFraming (by decide)
  have hkeepFrame (m : UInt8) := or_and_other m serialstatusOverrun serialstatusFraming (by decide)
  have hkeepOver (m : UInt8) := or_and_other m serialstatusFraming serialstatusOverrun (by decide)
  by_cases hoe : lsr &&& serialregLsrOe = 0
  · by_cases hfe : lsr &&& serialregLsrFe = 0
    · simp [serialIntLine, SerialData.overrun, SerialData.framing, hoe, hfe]
    · simp [serialIntLine, SerialData.overrun, SerialData.framing, hoe, hfe, hframe, hkeepOver]
  · by_cases hfe : lsr &&& serialregLsrFe = 0
    · simp [serialIntLine, SerialData.overrun, SerialData.framing, hoe, hfe, hover, hkeepFrame]
    · simp [serialIntLine, SerialData.overrun, SerialData.framing, hoe, hfe, hover, hframe, hkeepOver]

theorem serialDrain_status (l : ReadLoop) (rd : Nat) :
    (serialDrain l rd).sd.status = l.sd.status := by
  rw [serialDrain]
  exact serialRxFlowcontrol_status _

/-- The loop body leaves the flags alone. -/
theorem serialReadBody_status (ints txInit : Bool) (sz : Nat) (l : ReadLoop) (ready : Option UInt8) :
    (serialReadBody ints txInit sz l ready).sd.status = l.sd.status := by
  unfold serialReadBody
  dsimp only
  generalize (if fifoGetused l.sd.rxfifo > sz - l.i then sz - l.i
    else fifoGetused l.sd.rxfifo) = rd
  split_ifs
  · exact serialDrain_status ..
  · rfl
  · exact serialDrain_status ..
  · rcases ready with _ | byte
    · rfl
    · cases l.data <;> rfl

/-! ## The invariant -/

/-- Behind `in->status |= INPUTSTATUS_OVERRUN`, or where it is skipped. -/
def StatusPc.overPassed : StatusPc → Bool
  | .overClear | .frameTest | .framePass | .frameClear | .ret => true
  | _ => false

/-- Behind `in->status |= INPUTSTATUS_DATAERR`, or where it is skipped. -/
def StatusPc.framePassed : StatusPc → Bool
  | .frameClear | .ret => true
  | _ => false

/-- Along separable steps, each error is flagged until it has been passed on,
    and what has been passed on is in the handle. -/
structure StatusInv (s : StatusState) : Prop where
  overrun : s.sd.overrun = (s.overrun && s.pc.overPending)
  frame : s.sd.framing = (s.frame && s.pc.framePending)
  overBranch : s.pc = .overPass ∨ s.pc = .overClear → s.overrun = true
  frameBranch : s.pc = .framePass ∨ s.pc = .frameClear → s.frame = true
  status : s.inStatus = handleFlag
    (s.stale || (s.overrun && s.pc.overPassed || s.frame && s.pc.framePassed))
  accurate : Accurate s

/-- The handler, whichever errors it flags. -/
theorem StatusInv.handler {s : StatusState} (h : StatusInv s) {sd : SerialData} {a b : Bool}
    (hover : sd.overrun = (s.sd.overrun || a)) (hframe : sd.framing = (s.sd.framing || b))
    (ha : a = true → s.pc.overPending = true) (hb : b = true → s.pc.framePending = true) :
    StatusInv { s with sd, overrun := s.overrun || a, frame := s.frame || b } := by
  obtain ⟨ho, hf, hob, hfb, hs, hacc⟩ := h
  refine ⟨?_, ?_, fun hpc => ?_, fun hpc => ?_, ?_, hacc⟩
  · show sd.overrun = ((s.overrun || a) && s.pc.overPending)
    rw [hover, ho]
    cases a with
    | false => simp
    | true => simp [ha rfl]
  · show sd.framing = ((s.frame || b) && s.pc.framePending)
    rw [hframe, hf]
    cases b with
    | false => simp
    | true => simp [hb rfl]
  · show (s.overrun || a) = true
    rw [hob hpc, Bool.true_or]
  · show (s.frame || b) = true
    rw [hfb hpc, Bool.true_or]
  · -- an error that is new has not been passed on
    show s.inStatus = handleFlag
      (s.stale || ((s.overrun || a) && s.pc.overPassed || (s.frame || b) && s.pc.framePassed))
    have hnew : ((s.overrun || a) && s.pc.overPassed) = (s.overrun && s.pc.overPassed) := by
      cases a with
      | false => rw [Bool.or_false]
      | true =>
          have hpend := ha rfl
          cases hpc : s.pc <;> rw [hpc] at hpend hob <;>
            simp [StatusPc.overPending, StatusPc.overPassed] at hpend hob ⊢
          exact hob
    have hnewFrame : ((s.frame || b) && s.pc.framePassed) = (s.frame && s.pc.framePassed) := by
      cases b with
      | false => rw [Bool.or_false]
      | true =>
          have hret := hb rfl
          cases hpc : s.pc <;> rw [hpc] at hret hfb <;>
            simp [StatusPc.framePending, StatusPc.framePassed] at hret hfb ⊢
          exact hfb
    rw [hnew, hnewFrame]
    exact hs

/-- A step of `_serial_read` in front of `return`. -/
theorem StatusInv.main {s t : StatusState} (h : StatusInv s) {ready : Option UInt8} {past : Bool}
    (hret : s.pc ≠ .ret) (hstep : s.mainStep ready past = some t) : StatusInv t := by
  obtain ⟨ho, hf, hob, hfb, hs, hacc⟩ := h
  rw [StatusState.mainStep] at hstep
  -- what the invariant says at this program point
  cases hpc : s.pc <;> simp only [hpc, StatusPc.overPending, StatusPc.framePending,
    StatusPc.overPassed, StatusPc.framePassed, Bool.and_true, Bool.and_false, Bool.or_false,
    reduceCtorEq, Option.some.injEq, or_false, false_or, forall_const]
      at hstep ho hf hob hfb hs
  case loop =>
    obtain rfl := hstep
    split_ifs
    · -- the body leaves the flags alone
      have hstatus := serialReadBody_status (s.call.ints && s.sd.rxInit) s.call.txInit s.call.sz
        ⟨s.sd, s.call.data, s.call.i⟩ ready
      refine ⟨?_, ?_, by simp, by simp, ?_, hacc⟩
      · simpa [SerialData.overrun, StatusState.body, hstatus, StatusPc.overPending] using ho
      · simpa [SerialData.framing, StatusState.body, hstatus, StatusPc.framePending] using hf
      · simpa [StatusPc.overPassed, StatusPc.framePassed, StatusState.stale] using hs
    · exact ⟨by simpa [StatusPc.overPending] using ho, by simpa [StatusPc.framePending] using hf,
        by simp, by simp,
        by simpa [StatusPc.overPassed, StatusPc.framePassed, StatusState.stale] using hs, hacc⟩
  case check =>
    obtain rfl := hstep
    split_ifs <;>
      exact ⟨by simpa [StatusPc.overPending] using ho, by simpa [StatusPc.framePending] using hf,
        by simp, by simp,
        by simpa [StatusPc.overPassed, StatusPc.framePassed, StatusState.stale] using hs, hacc⟩
  case overTest =>
    obtain rfl := hstep
    split_ifs with hflag
    · rw [ho] at hflag
      exact ⟨by simpa [StatusPc.overPending] using ho, by simpa [StatusPc.framePending] using hf,
        fun _ => hflag, by simp,
        by simpa [StatusPc.overPassed, StatusPc.framePassed, StatusState.stale] using hs, hacc⟩
    · rw [ho, Bool.not_eq_true] at hflag
      exact ⟨by simpa [StatusPc.overPending, hflag] using ho,
        by simpa [StatusPc.framePending] using hf,
        by simp, by simp,
        by simpa [StatusPc.overPassed, StatusPc.framePassed, StatusState.stale, hflag] using hs, hacc⟩
  case overPass =>
    obtain rfl := hstep
    refine ⟨by simpa [StatusPc.overPending] using ho, by simpa [StatusPc.framePending] using hf,
      fun _ => hob, by simp, ?_, hacc⟩
    show s.inStatus ||| inputstatusOverrun = _
    rw [hs, inputstatusOverrun, handleFlag_or]
    simp [StatusPc.overPassed, StatusPc.framePassed, StatusState.stale, hob]
  case overClear =>
    obtain rfl := hstep
    have hclear := clear_and_flag s.sd.status serialstatusOverrun
    have hkeep := clear_and_other s.sd.status serialstatusOverrun serialstatusFraming (by decide)
    refine ⟨?_, ?_, by simp, by simp, ?_, hacc⟩
    · simp [SerialData.overrun, hclear, StatusPc.overPending]
    · simpa [SerialData.framing, hkeep, StatusPc.framePending] using hf
    · simpa [StatusPc.overPassed, StatusPc.framePassed, StatusState.stale] using hs
  case frameTest =>
    obtain rfl := hstep
    split_ifs with hflag
    · rw [hf] at hflag
      exact ⟨by simpa [StatusPc.overPending] using ho, by simpa [StatusPc.framePending] using hf,
        by simp, fun _ => hflag,
        by simpa [StatusPc.overPassed, StatusPc.framePassed, StatusState.stale] using hs, hacc⟩
    · rw [hf, Bool.not_eq_true] at hflag
      exact ⟨by simpa [StatusPc.overPending] using ho,
        by simpa [StatusPc.framePending, hflag] using hf,
        by simp, by simp,
        by simpa [StatusPc.overPassed, StatusPc.framePassed, StatusState.stale, hflag] using hs, hacc⟩
  case framePass =>
    obtain rfl := hstep
    refine ⟨by simpa [StatusPc.overPending] using ho, by simpa [StatusPc.framePending] using hf,
      by simp, fun _ => hfb, ?_, hacc⟩
    show s.inStatus ||| inputstatusDataerr = _
    rw [hs, inputstatusDataerr, handleFlag_or]
    simp [StatusPc.overPassed, StatusPc.framePassed, StatusState.stale, hfb]
  case frameClear =>
    obtain rfl := hstep
    have hclear := clear_and_flag s.sd.status serialstatusFraming
    have hkeep := clear_and_other s.sd.status serialstatusFraming serialstatusOverrun (by decide)
    refine ⟨?_, ?_, by simp, by simp, ?_, hacc⟩
    · simpa [SerialData.overrun, hkeep, StatusPc.overPending] using ho
    · simp [SerialData.framing, hclear, StatusPc.framePending]
    · simpa [StatusPc.overPassed, StatusPc.framePassed, StatusState.stale, hfb] using hs
  case ret => exact absurd hpc hret

/-- At `return`, everything since the last call is in the handle, with what was
    there before. -/
theorem StatusInv.status_ret {s : StatusState} (h : StatusInv s) (hpc : s.pc = .ret) :
    s.inStatus = handleFlag (s.stale || (s.overrun || s.frame)) := by
  rw [h.status, hpc]
  simp only [StatusPc.overPassed, StatusPc.framePassed, Bool.and_true]

/-- What a call reports is accurate exactly if the two kinds of error cannot be
    confused, nor taken for an earlier one. -/
theorem StatusInv.accurate_iff {s t : StatusState} (h : StatusInv s) {ready : Option UInt8}
    {past : Bool} (hpc : s.pc = .ret) (hstep : s.mainStep ready past = some t) :
    Accurate t ↔ s.overrun = s.frame ∧ (s.stale → s.overrun) := by
  rw [StatusState.mainStep, hpc] at hstep
  obtain rfl := Option.some.inj hstep
  rw [Accurate, h.status_ret hpc]
  simp only [Option.mem_def, Option.some.injEq, forall_eq', inputstatusOverrun, inputstatusDataerr,
    handleFlag_and]
  cases s.overrun <;> cases s.frame <;> cases s.stale <;> simp

/-- `return`. -/
theorem StatusInv.ret {s t : StatusState} (h : StatusInv s) {ready : Option UInt8} {past : Bool}
    (hpc : s.pc = .ret) (hsep : s.overrun = s.frame ∧ (s.stale → s.overrun))
    (hstep : s.mainStep ready past = some t) : StatusInv t := by
  have hacc := (h.accurate_iff hpc hstep).mpr hsep
  have hstatus := h.status_ret hpc
  obtain ⟨ho, hf, -, -, -, -⟩ := h
  rw [hpc] at ho hf
  rw [StatusState.mainStep, hpc] at hstep
  obtain rfl := Option.some.inj hstep
  refine ⟨?_, ?_, by simp, by simp, ?_, hacc⟩
  · simpa [StatusPc.overPending] using ho
  · simpa [StatusPc.framePending] using hf
  · -- nothing has occurred since, and the handle is as it was returned
    show s.inStatus = handleFlag (decide (s.inStatus ≠ 0) || (false || false))
    rw [hstatus]
    generalize (s.stale || (s.overrun || s.frame)) = b
    cases b <;> rfl

theorem StatusInv.call {s t : StatusState} (h : StatusInv s) {ints txInit : Bool}
    {data : Option (List UInt8)} {sz timeout : Nat}
    (hstep : s.step (.call ints txInit data sz timeout) = some t) : StatusInv t := by
  rw [StatusState.step] at hstep
  split_ifs at hstep with hidle
  obtain rfl := Option.some.inj hstep
  obtain ⟨ho, hf, -, -, hs, hacc⟩ := h
  rw [hidle.1] at ho hf hs
  exact ⟨ho, hf, by simp, by simp, hs, hacc⟩

theorem StatusInv.step (s : StatusState) (e : StatusEvent) (t : StatusState) (h : StatusInv s)
    (hsep : Separable s e) (hstep : s.step e = some t) : StatusInv t := by
  cases e with
  | call ints txInit data sz timeout => exact h.call hstep
  | main ready past =>
      by_cases hpc : s.pc = .ret
      · exact h.ret hpc (hsep hpc) hstep
      · exact h.main hpc hstep
  | rx byte =>
      obtain rfl := Option.some.inj hstep
      obtain ⟨hover, hframe⟩ := serialIntRx_flags s.sd byte
      have hnew := h.handler (b := false) hover (by rw [hframe, Bool.or_false]) hsep
        fun hb => nomatch hb
      rw [Bool.or_false] at hnew
      exact hnew
  | line lsr =>
      obtain rfl := Option.some.inj hstep
      obtain ⟨hover, hframe⟩ := serialIntLine_flags s.sd lsr
      exact h.handler hover hframe (fun ha => hsep.1 (of_decide_eq_true ha))
        fun hb => hsep.2 (of_decide_eq_true hb)

theorem statusInit_inv (sd : SerialData) : StatusInv (statusInit sd) where
  overrun := by simp [statusInit, StatusPc.overPending]
  frame := by simp [statusInit, StatusPc.framePending]
  overBranch := by simp [statusInit]
  frameBranch := by simp [statusInit]
  status := by
    simp [statusInit, StatusPc.overPassed, StatusPc.framePassed, StatusState.stale, handleFlag]
  accurate := by simp [statusInit, Accurate]

/-- **The status of a handle.**  In every run of calls and interrupts all of
    whose steps are separable, every call reports exactly the errors since the
    last one. -/
theorem serialStatus_accurate (sd : SerialData) (es : List StatusEvent) (s : StatusState)
    (hsep : statusMachine.Along Separable (statusInit sd) es)
    (hrun : statusMachine.run (statusInit sd) es = some s) : Accurate s :=
  (Machine.run_invariant_along StatusInv.step (statusInit_inv sd) hsep hrun).accurate

/-- A call for no bytes, and an error of both kinds in front of it. -/
def statusExample : List StatusEvent :=
  [.line 0x0a, .call true false none 0 0, .main none false, .main none false, .main none false,
    .main none false, .main none false, .main none false, .main none false, .main none false]

theorem serialStatus_accurate_both : ∃ s,
    statusMachine.run (statusInit noByteSd) statusExample = some s ∧ Accurate s := by
  have hrun : (statusMachine.run (statusInit noByteSd) statusExample).isSome := by decide
  obtain ⟨s, hs⟩ := Option.isSome_iff_exists.mp hrun
  exact ⟨s, hs, serialStatus_accurate noByteSd statusExample s (by decide) hs⟩

/-- The unconditional statement fails: a framing error alone is reported as an
    overrun, too. -/
theorem serialStatus_confused : ∃ s,
    statusMachine.run (statusInit noByteSd) [.line 0x08, .call true false none 0 0, .main none false,
      .main none false, .main none false, .main none false, .main none false, .main none false]
        = some s ∧ ¬ Accurate s := by
  refine ⟨_, rfl, fun h => ?_⟩
  have hreport := (h ⟨1, false, true⟩ rfl).1.mp (by decide)
  cases hreport

end LBoot.Io
