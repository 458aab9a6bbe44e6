/-
  LBoot.Io.SerialFlow

  Receive flow control (src/io/serial.c), where an incoming byte with its
  interrupt and a call of `_serial_read` each happen as a whole.

  Whatever the modem control register holds, `_serial_rx_flowcontrol` leaves
  the configured lines asserted exactly below the threshold.  The FIFO only
  changes in front of such a call, so the lines follow its level all the time
  (`LineFollows`).

  The threshold is three quarters of the FIFO.  A sender that stops within a
  quarter less one byte of a line going off therefore finds room for every
  byte: above the threshold, the level is at most what was sent since
  (`WithinSlack`, `SlackInv`).
-/

import LBoot.Io.SerialRead

namespace LBoot.Io

open LBoot.Data LBoot.Lib

/-! ## The port -/

/-- What `serial_init` writes to the modem control register, and reads back:
    DTR, RTS, OUT1 and OUT2. -/
def serialInitMcr : UInt8 := 0x0f

/-- The receive side after `serial_init`, with a FIFO of `2 ^ n` bytes. -/
def serialInitRx (cfg n : Nat) (mem : List UInt8) : SerialData :=
  let fifoSz := 2 ^ n
  { cfg
    mcrVal := serialInitMcr
    status := 0
    fifoLow := fifoSz - fifoSz >>> 2
    rxfifo := fifoInit mem fifoSz }

/-- The state of the loop of `_serial_read`. -/
structure ReadLoop where
  sd : SerialData
  data : Option (List UInt8)
  i : Nat
  deriving DecidableEq, Repr

/-- `fifo_read` to the place of byte `i`, and `_serial_rx_flowcontrol`. -/
def serialDrain (l : ReadLoop) (rdSz : Nat) : ReadLoop :=
  match fifoRead l.sd.rxfifo (l.data.map (List.drop l.i)) rdSz with
  | (_, dst, rxfifo) =>
      { l with
        sd := serialRxFlowcontrol { l.sd with rxfifo }
        data := l.data.bind fun d => dst.map (d.take l.i ++ ·) }

/-- The body of that loop up to the tests at its end; `ready` is the byte in
    the receive register, if there is one.  Where interrupts are off, bytes
    taken from the FIFO are not counted, and a byte read from the register is
    only counted if there is a buffer for it. -/
def serialReadBody (ints txInit : Bool) (sz : Nat) (l : ReadLoop) (ready : Option UInt8) :
    ReadLoop :=
  let used := fifoGetused l.sd.rxfifo
  let rdSz := if used > sz - l.i then sz - l.i else used
  if ints then
    if rdSz ≠ 0 then { serialDrain l rdSz with i := l.i + rdSz } else l
  else if txInit ∧ used ≠ 0 then serialDrain l rdSz
  else
    match ready, l.data with
    | some byte, some d => { l with data := some (d.set l.i byte), i := l.i + 1 }
    | _, _ => l

/-- The loop of `_serial_read`, with what the receive register and
    `time_ispast` answer in each iteration: `none` if it has not ended by
    then. -/
def serialReadLoop (ints txInit : Bool) (sz timeout : Nat) :
    List (Option UInt8 × Bool) → ReadLoop → Option ReadLoop
  | [], l => if l.i < sz then none else some l
  | (ready, past) :: answers, l =>
      if l.i < sz then
        let l := serialReadBody ints txInit sz l ready
        if l.data.isSome ∧ l.sd.status &&& (serialstatusOverrun ||| serialstatusFraming) ≠ 0 then
          some l
        else if timeout ≠ 0 ∧ past then some l
        else serialReadLoop ints txInit sz timeout answers l
      else some l

/-- A port, with what was sent since its line went off, and the bytes
    `fifo_write` did not take. -/
structure Port where
  sd : SerialData
  /-- `in->status` -/
  inStatus : UInt8
  since : Nat
  lost : Nat
  deriving DecidableEq, Repr

inductive PortEvent where
  /-- a byte arrives, and its interrupt is handled -/
  | rx (byte : UInt8)
  /-- a call of `_serial_read`, with interrupts on or off -/
  | read (ints txInit : Bool) (data : Option (List UInt8)) (sz timeout : Nat)
      (answers : List (Option UInt8 × Bool))
  deriving DecidableEq, Repr

namespace SerialData

def rts (sd : SerialData) : Prop := sd.mcrVal &&& serialregMcrRts ≠ 0

def dtr (sd : SerialData) : Prop := sd.mcrVal &&& serialregMcrDtr ≠ 0

/-- The lines that are configured are asserted. -/
def asserted (sd : SerialData) : Prop := (sd.useRts → sd.rts) ∧ (sd.useDtr → sd.dtr)

instance (sd : SerialData) : Decidable sd.rts := inferInstanceAs (Decidable (_ ≠ _))

instance (sd : SerialData) : Decidable sd.dtr := inferInstanceAs (Decidable (_ ≠ _))

instance (sd : SerialData) : Decidable sd.asserted := inferInstanceAs (Decidable (_ ∧ _))

end SerialData

/-- The count of what was sent since the line went off, `sent` bytes on. -/
def Port.count (p : Port) (sd : SerialData) (sent : Nat) : Nat :=
  if sd.asserted ∨ p.sd.asserted then 0 else p.since + sent

def Port.step (p : Port) : PortEvent → Option Port
  | .rx byte =>
      let sd := serialIntRxavail p.sd byte
      some { p with
        sd
        since := p.count sd 1
        lost := if (fifoWrite p.sd.rxfifo [byte]).1 ≠ 0 then p.lost + 1 else p.lost }
  | .read ints txInit data sz timeout answers =>
      -- the timeout needs interrupts
      if timeout ≠ 0 ∧ ¬ ints then none
      else
        (serialReadLoop ints txInit sz timeout answers ⟨p.sd, data, 0⟩).map fun l =>
          let (status, inStatus) := passStatus l.sd.status p.inStatus
          let sd := { l.sd with status }
          { p with sd, inStatus, since := p.count sd 0 }

/-- The receive interrupt and `_serial_read`. -/
def portMachine : Machine Port PortEvent := ⟨Port.step⟩

def portInit (cfg n : Nat) (mem : List UInt8) : Port := ⟨serialInitRx cfg n mem, 0, 0, 0⟩

/-! ## The lines -/

/-- The lines that are configured are asserted exactly below the threshold. -/
def LineFollows (sd : SerialData) : Prop :=
  (sd.useRts → (sd.rts ↔ fifoGetused sd.rxfifo < sd.fifoLow)) ∧
    (sd.useDtr → (sd.dtr ↔ fifoGetused sd.rxfifo < sd.fifoLow))

section Lines

variable (m l k : UInt8) (use : Bool)

theorem clear_line : (if m &&& l ≠ 0 ∧ use then m &&& ~~~ l else m) &&& l ≠ 0 ↔
    m &&& l ≠ 0 ∧ use = false := by
  split
  · next h =>
      have hclear : m &&& ~~~ l &&& l = 0 := by
        rw [UInt8.and_assoc, UInt8.not_and_self, UInt8.and_zero]
      simp [hclear, h.2]
  · next h => cases use <;> simp_all

theorem set_line (hl : l ≠ 0) : (if ¬ (m &&& l ≠ 0) ∧ use then m ||| l else m) &&& l ≠ 0 ↔
    m &&& l ≠ 0 ∨ use = true := by
  split
  · next h =>
      have hset : (m ||| l) &&& l = (m &&& l) ||| (l &&& l) :=
        UInt8.toBitVec_inj.1 BitVec.and_or_distrib_right
      simp [hset, h.2, hl]
  · next h => cases use <;> simp_all

theorem clear_line_other (hk : l &&& k = 0) :
    (if m &&& l ≠ 0 ∧ use then m &&& ~~~ l else m) &&& k = m &&& k := by
  split
  · have hkeep : ~~~ l &&& k = k := by
      have hall : (l ||| ~~~ l) &&& k = (l &&& k) ||| (~~~ l &&& k) :=
        UInt8.toBitVec_inj.1 BitVec.and_or_distrib_right
      simpa [hk] using hall.symm
    rw [UInt8.and_assoc, hkeep]
  · rfl

theorem set_line_other (hk : l &&& k = 0) :
    (if ¬ (m &&& l ≠ 0) ∧ use then m ||| l else m) &&& k = m &&& k := by
  split
  · have hset : (m ||| l) &&& k = (m &&& k) ||| (l &&& k) :=
      UInt8.toBitVec_inj.1 BitVec.and_or_distrib_right
    rw [hset, hk, UInt8.or_zero]
  · rfl

end Lines

theorem flowcontrolMcr_rts (sd : SerialData) (m : UInt8) (used : Nat) (h : sd.useRts) :
    flowcontrolMcr sd m used &&& serialregMcrRts ≠ 0 ↔ used < sd.fifoLow := by
  have hdr : serialregMcrDtr &&& serialregMcrRts = 0 := by decide
  rw [flowcontrolMcr]
  by_cases hge : used ≥ sd.fifoLow
  · rw [if_pos hge]
    dsimp only
    rw [clear_line_other _ _ _ _ hdr, clear_line, h]
    simp [Nat.not_lt.mpr hge]
  · rw [if_neg hge]
    dsimp only
    rw [set_line_other _ _ _ _ hdr, set_line _ _ _ (by decide), h]
    simp [Nat.lt_of_not_ge hge]

theorem flowcontrolMcr_dtr (sd : SerialData) (m : UInt8) (used : Nat) (h : sd.useDtr) :
    flowcontrolMcr sd m used &&& serialregMcrDtr ≠ 0 ↔ used < sd.fifoLow := by
  rw [flowcontrolMcr]
  by_cases hge : used ≥ sd.fifoLow
  · rw [if_pos hge]
    dsimp only
    rw [clear_line, h]
    simp [Nat.not_lt.mpr hge]
  · rw [if_neg hge]
    dsimp only
    rw [set_line _ _ _ (by decide), h]
    simp [Nat.lt_of_not_ge hge]

@[simp] theorem serialRxFlowcontrol_cfg (sd : SerialData) :
    (serialRxFlowcontrol sd).cfg = sd.cfg := by
  rw [serialRxFlowcontrol, serialRxFlowcontrolBody]
  split_ifs <;> rfl

@[simp] theorem serialRxFlowcontrol_fifoLow (sd : SerialData) :
    (serialRxFlowcontrol sd).fifoLow = sd.fifoLow := by
  rw [serialRxFlowcontrol, serialRxFlowcontrolBody]
  split_ifs <;> rfl

@[simp] theorem serialRxFlowcontrol_status (sd : SerialData) :
    (serialRxFlowcontrol sd).status = sd.status := by
  rw [serialRxFlowcontrol, serialRxFlowcontrolBody]
  split_ifs <;> rfl

theorem serialRxFlowcontrol_mcrVal {sd : SerialData} (h : sd.useRts ∨ sd.useDtr) :
    (serialRxFlowcontrol sd).mcrVal =
      flowcontrolMcr sd sd.mcrVal (fifoGetused sd.rxfifo) := by
  rw [serialRxFlowcontrol, if_neg (not_not.mpr h), serialRxFlowcontrolBody]
  split
  · rfl
  · next hsame => exact (not_not.mp hsame).symm

/-- Behind `_serial_rx_flowcontrol` the lines follow the level, whatever the
    register held. -/
theorem serialRxFlowcontrol_follows (sd : SerialData) : LineFollows (serialRxFlowcontrol sd) := by
  have huse (k : Nat) : (serialRxFlowcontrol sd).cfg.testBit k = sd.cfg.testBit k := by
    rw [serialRxFlowcontrol_cfg]
  refine ⟨fun hrts => ?_, fun hdtr => ?_⟩
  · have hr : sd.useRts := (huse serialCfgFlowctrlRtsPos).symm.trans hrts
    rw [SerialData.rts, serialRxFlowcontrol_mcrVal (Or.inl hr), serialRxFlowcontrol_rxfifo,
      serialRxFlowcontrol_fifoLow]
    exact flowcontrolMcr_rts sd _ _ hr
  · have hd : sd.useDtr := (huse serialCfgFlowctrlDtrPos).symm.trans hdtr
    rw [SerialData.dtr, serialRxFlowcontrol_mcrVal (Or.inr hd), serialRxFlowcontrol_rxfifo,
      serialRxFlowcontrol_fifoLow]
    exact flowcontrolMcr_dtr sd _ _ hd

/-! ## One event -/

theorem serialIntRxavail_eq (sd : SerialData) (byte : UInt8) :
    serialIntRxavail sd byte = serialRxFlowcontrol { sd with
      status := if (fifoWrite sd.rxfifo [byte]).1 ≠ 0 then sd.status ||| serialstatusOverrun
        else sd.status
      rxfifo := (fifoWrite sd.rxfifo [byte]).2 } := by
  rw [serialIntRxavail]
  dsimp only
  split_ifs <;> rfl

/-- What every event keeps of the receive side. -/
structure RxRep (cfg n : Nat) (sd : SerialData) : Prop where
  cfg_eq : sd.cfg = cfg
  fifoLow_eq : sd.fifoLow = 2 ^ n - 2 ^ n >>> 2
  size_eq : sd.rxfifo.size = 2 ^ n
  rep : ∃ q, Rep sd.rxfifo q
  follows : LineFollows sd

namespace RxRep

variable {cfg n : Nat} {sd : SerialData}

/-- `_serial_rx_flowcontrol` behind any change of the FIFO's contents. -/
theorem flowcontrol (h : RxRep cfg n sd) {status : UInt8} {f : Fifo} {q : List UInt8}
    (hf : Rep f q) (hsize : f.size = 2 ^ n) :
    RxRep cfg n (serialRxFlowcontrol { sd with status, rxfifo := f }) where
  cfg_eq := by simp [h.cfg_eq]
  fifoLow_eq := by simp [h.fifoLow_eq]
  size_eq := by simp [hsize]
  rep := ⟨q, by simpa using hf⟩
  follows := serialRxFlowcontrol_follows _

theorem asserted_iff (h : RxRep cfg n sd)
    (huse : cfg.testBit serialCfgFlowctrlRtsPos ∨ cfg.testBit serialCfgFlowctrlDtrPos) :
    sd.asserted ↔ fifoGetused sd.rxfifo < sd.fifoLow := by
  obtain ⟨hrts, hdtr⟩ := h.follows
  refine ⟨fun ha => ?_, fun hlow => ⟨fun hr => (hrts hr).mpr hlow, fun hd => (hdtr hd).mpr hlow⟩⟩
  rw [← h.cfg_eq] at huse
  rcases huse with hr | hd
  · exact (hrts hr).mp (ha.1 hr)
  · exact (hdtr hd).mp (ha.2 hd)

/-- The handler's branch, also where `fifo_write` refuses the byte. -/
theorem rx (h : RxRep cfg n sd) (byte : UInt8) : RxRep cfg n (serialIntRxavail sd byte) := by
  have hsize : (fifoWrite sd.rxfifo [byte]).2.size = 2 ^ n := by rw [fifoWrite_size, h.size_eq]
  obtain ⟨q, hq⟩ := h.rep
  have hrep : ∃ q', Rep (fifoWrite sd.rxfifo [byte]).2 q' := by
    by_cases hfit : [byte].length ≤ sd.rxfifo.size - 1 - q.length
    · exact ⟨_, (fifoWrite_fits hq hfit).2⟩
    · exact ⟨q, by rw [fifoWrite_full hq (by omega)]; exact hq⟩
  obtain ⟨q', hq'⟩ := hrep
  rw [serialIntRxavail_eq]
  exact h.flowcontrol hq' hsize

/-- Where the FIFO is not full, the byte goes in and nothing is flagged. -/
theorem rx_fits (h : RxRep cfg n sd) (byte : UInt8) (hroom : fifoGetused sd.rxfifo + 1 < 2 ^ n) :
    (fifoWrite sd.rxfifo [byte]).1 = 0 ∧ (serialIntRxavail sd byte).status = sd.status ∧
      fifoGetused (serialIntRxavail sd byte).rxfifo = fifoGetused sd.rxfifo + 1 := by
  obtain ⟨q, hq⟩ := h.rep
  rw [fifoGetused_eq hq] at hroom ⊢
  have hlen : [byte].length ≤ sd.rxfifo.size - 1 - q.length := by
    rw [h.size_eq, List.length_singleton]
    omega
  obtain ⟨hret, hrep⟩ := fifoWrite_fits hq hlen
  refine ⟨hret, ?_, ?_⟩
  · rw [serialIntRxavail_eq, serialRxFlowcontrol_status, if_neg (not_not.mpr hret)]
  · rw [serialIntRxavail_rxfifo, fifoGetused_eq hrep, List.length_append, List.length_singleton]

end RxRep

/-- What `_serial_read` keeps, from `sd` to `sd'`: it only takes bytes out. -/
structure Drains (cfg n : Nat) (sd sd' : SerialData) : Prop where
  rep : RxRep cfg n sd'
  status_eq : sd'.status = sd.status
  used_le : fifoGetused sd'.rxfifo ≤ fifoGetused sd.rxfifo

namespace Drains

variable {cfg n : Nat}

theorem refl {sd : SerialData} (h : RxRep cfg n sd) : Drains cfg n sd sd := ⟨h, rfl, Nat.le_refl _⟩

theorem trans {sd sd' sd'' : SerialData} (h : Drains cfg n sd sd') (h' : Drains cfg n sd' sd'') :
    Drains cfg n sd sd'' :=
  ⟨h'.rep, h'.status_eq.trans h.status_eq, Nat.le_trans h'.used_le h.used_le⟩

theorem drain {l : ReadLoop} (h : RxRep cfg n l.sd) {rdSz : Nat}
    (hrd : rdSz ≤ fifoGetused l.sd.rxfifo) : Drains cfg n l.sd (serialDrain l rdSz).sd := by
  obtain ⟨q, hq⟩ := h.rep
  have hlen := fifoGetused_eq hq
  obtain ⟨-, -, hrep⟩ := fifoRead_avail hq (hlen ▸ hrd) (l.data.map (List.drop l.i))
  have hsize := fifoRead_size l.sd.rxfifo (l.data.map (List.drop l.i)) rdSz
  rw [serialDrain]
  exact {
    rep := h.flowcontrol hrep (hsize.trans h.size_eq)
    status_eq := by simp
    used_le := by
      rw [serialRxFlowcontrol_rxfifo, fifoGetused_eq hrep, List.length_drop, hlen]
      omega }

theorem readBody {l : ReadLoop} (h : RxRep cfg n l.sd) (ints txInit : Bool) (sz : Nat)
    (ready : Option UInt8) :
    Drains cfg n l.sd (serialReadBody ints txInit sz l ready).sd := by
  have hrd : (if fifoGetused l.sd.rxfifo > sz - l.i then sz - l.i
      else fifoGetused l.sd.rxfifo) ≤ fifoGetused l.sd.rxfifo := by
    split <;> omega
  unfold serialReadBody
  dsimp only
  generalize (if fifoGetused l.sd.rxfifo > sz - l.i then sz - l.i
    else fifoGetused l.sd.rxfifo) = rdSz at hrd
  split_ifs
  · exact drain h hrd
  · exact refl h
  · exact drain h hrd
  · -- a byte from the register does not pass through the FIFO
    rcases ready with _ | byte
    · exact refl h
    · cases l.data <;> exact refl h

theorem readLoop {ints txInit : Bool} {sz timeout : Nat} {answers : List (Option UInt8 × Bool)} :
    ∀ {l l' : ReadLoop}, RxRep cfg n l.sd →
      serialReadLoop ints txInit sz timeout answers l = some l' → Drains cfg n l.sd l'.sd := by
  induction answers with
  | nil =>
      intro l l' h hloop
      rw [serialReadLoop] at hloop
      split at hloop
      · exact absurd hloop (by simp)
      · exact Option.some.inj hloop ▸ refl h
  | cons answer answers ih =>
      obtain ⟨ready, past⟩ := answer
      intro l l' h hloop
      have hbody := readBody h ints txInit sz ready
      rw [serialReadLoop] at hloop
      dsimp only at hloop
      split_ifs at hloop with hlt herr hpast
      · exact Option.some.inj hloop ▸ hbody
      · exact Option.some.inj hloop ▸ hbody
      · exact hbody.trans (ih hbody.rep hloop)
      · exact Option.some.inj hloop ▸ refl h

end Drains

/-! ## Runs -/

theorem fifoLow_eq {n : Nat} (hn : 4 ≤ n) :
    2 ^ n - 2 ^ n >>> 2 = 3 * (2 ^ n / 4) ∧ 2 ^ n = 4 * (2 ^ n / 4) ∧ 4 ≤ 2 ^ n / 4 := by
  obtain ⟨m, rfl⟩ := Nat.exists_eq_add_of_le hn
  have hm := Nat.two_pow_pos m
  rw [Nat.shiftRight_eq_div_pow, Nat.pow_add]
  omega

theorem portInit_used (cfg : Nat) {n : Nat} {mem : List UInt8} (hn : 4 ≤ n) (hn32 : n < 32)
    (hmem : mem.length = 2 ^ n) :
    fifoGetused (portInit cfg n mem).sd.rxfifo < (portInit cfg n mem).sd.fifoLow := by
  have hsz : 2 ^ n < 2 ^ 32 := Nat.pow_lt_pow_right (by omega) hn32
  have hrep := fifoInit_rep (Nat.two_pow_pos n) hsz hmem
  have harith := fifoLow_eq hn
  have hused : fifoGetused (portInit cfg n mem).sd.rxfifo = ([] : List UInt8).length :=
    fifoGetused_eq hrep
  rw [hused, portInit, serialInitRx, List.length_nil]
  dsimp only
  omega

theorem portInit_rep (cfg : Nat) {n : Nat} {mem : List UInt8} (hn : 4 ≤ n) (hn32 : n < 32)
    (hmem : mem.length = 2 ^ n) : RxRep cfg n (portInit cfg n mem).sd := by
  have hsz : 2 ^ n < 2 ^ 32 := Nat.pow_lt_pow_right (by omega) hn32
  have hlow := portInit_used cfg hn hn32 hmem
  have hmcr : serialInitMcr &&& serialregMcrRts ≠ 0 ∧ serialInitMcr &&& serialregMcrDtr ≠ 0 := by
    decide
  exact {
    cfg_eq := rfl
    fifoLow_eq := rfl
    size_eq := rfl
    rep := ⟨[], fifoInit_rep (Nat.two_pow_pos n) hsz hmem⟩
    follows := ⟨fun _ => iff_of_true hmcr.1 hlow, fun _ => iff_of_true hmcr.2 hlow⟩ }

/-- What a call of `_serial_read` does to the port. -/
theorem Port.step_read {cfg n : Nat} {p p' : Port} (h : RxRep cfg n p.sd) {ints txInit : Bool}
    {data : Option (List UInt8)} {sz timeout : Nat} {answers : List (Option UInt8 × Bool)}
    (hstep : p.step (.read ints txInit data sz timeout answers) = some p') :
    ∃ sd, Drains cfg n p.sd sd ∧
      p' = { p with
        sd := { sd with status := (passStatus sd.status p.inStatus).1 }
        inStatus := (passStatus sd.status p.inStatus).2
        since := p.count { sd with status := (passStatus sd.status p.inStatus).1 } 0 } := by
  rw [Port.step] at hstep
  split at hstep
  · exact absurd hstep (by simp)
  · obtain ⟨l, hl, rfl⟩ := Option.map_eq_some_iff.mp hstep
    exact ⟨l.sd, Drains.readLoop h hl, rfl⟩

/-- The flags do not matter to the rest. -/
theorem RxRep.setStatus {cfg n : Nat} {sd : SerialData} (h : RxRep cfg n sd) (status : UInt8) :
    RxRep cfg n { sd with status } :=
  ⟨h.cfg_eq, h.fifoLow_eq, h.size_eq, h.rep, h.follows⟩

theorem Port.step_rep {cfg n : Nat} {p p' : Port} {e : PortEvent} (h : RxRep cfg n p.sd)
    (hstep : p.step e = some p') : RxRep cfg n p'.sd := by
  cases e with
  | rx byte =>
      rw [← Option.some.inj hstep]
      exact h.rx byte
  | read ints txInit data sz timeout answers =>
      obtain ⟨sd, hsd, rfl⟩ := Port.step_read h hstep
      exact hsd.rep.setStatus _

/-- At most `size / 4 - 1` bytes arrive after a line goes off. -/
def WithinSlack (n : Nat) (p : Port) : PortEvent → Prop
  | .rx _ => p.sd.asserted ∨ p.since + 1 ≤ 2 ^ n / 4 - 1
  | .read .. => True

instance (n : Nat) (p : Port) : ∀ e, Decidable (WithinSlack n p e)
  | .rx _ => inferInstanceAs (Decidable (_ ∨ _))
  | .read .. => isTrue trivial

/-- Nothing is lost, and above the threshold the level is at most what was
    sent since the line went off. -/
structure SlackInv (cfg n : Nat) (p : Port) : Prop where
  rep : RxRep cfg n p.sd
  lost_eq : p.lost = 0
  status_eq : p.sd.status = 0
  inStatus_eq : p.inStatus = 0
  level : fifoGetused p.sd.rxfifo < p.sd.fifoLow ∨
    fifoGetused p.sd.rxfifo ≤ p.sd.fifoLow + p.since ∧ p.since ≤ 2 ^ n / 4 - 1

namespace SlackInv

variable {cfg n : Nat} {p p' : Port}

theorem step_rx (hn : 4 ≤ n)
    (huse : cfg.testBit serialCfgFlowctrlRtsPos ∨ cfg.testBit serialCfgFlowctrlDtrPos)
    (h : SlackInv cfg n p) {byte : UInt8} (hG : WithinSlack n p (.rx byte))
    (hstep : p.step (.rx byte) = some p') : SlackInv cfg n p' := by
  obtain ⟨hlow, hsz, hq⟩ := fifoLow_eq hn
  have hfl := h.rep.fifoLow_eq
  have hasserted := h.rep.asserted_iff huse
  -- below the threshold there is room anyway, above it by the sender's slack
  have hroom : fifoGetused p.sd.rxfifo + 1 < 2 ^ n := by
    rcases hG with ha | hslack
    · have := hasserted.mp ha
      omega
    · rcases h.level with hl | ⟨hl, -⟩ <;> omega
  obtain ⟨hret, hstatus, hused⟩ := h.rep.rx_fits byte hroom
  have hrep := h.rep.rx byte
  have hasserted' := hrep.asserted_iff huse
  have hfl' := hrep.fifoLow_eq
  rw [← Option.some.inj hstep]
  exact {
    rep := hrep
    lost_eq := by rw [if_neg (not_not.mpr hret)]; exact h.lost_eq
    status_eq := hstatus.trans h.status_eq
    inStatus_eq := h.inStatus_eq
    level := by
      show fifoGetused (serialIntRxavail p.sd byte).rxfifo < (serialIntRxavail p.sd byte).fifoLow ∨
        fifoGetused (serialIntRxavail p.sd byte).rxfifo ≤ (serialIntRxavail p.sd byte).fifoLow +
          p.count (serialIntRxavail p.sd byte) 1 ∧
        p.count (serialIntRxavail p.sd byte) 1 ≤ 2 ^ n / 4 - 1
      rw [Port.count, hused, hfl']
      split
      · next hon =>
          rw [hasserted', hasserted, hused, hfl', hfl] at hon
          omega
      · next hoff =>
          obtain ⟨hoff', hoff⟩ := not_or.mp hoff
          have hslack := hG.resolve_left hoff
          have hlevel := h.level
          rw [hasserted] at hoff
          omega }

theorem step_read
    (huse : cfg.testBit serialCfgFlowctrlRtsPos ∨ cfg.testBit serialCfgFlowctrlDtrPos)
    (h : SlackInv cfg n p) {ints txInit : Bool} {data : Option (List UInt8)} {sz timeout : Nat}
    {answers : List (Option UInt8 × Bool)}
    (hstep : p.step (.read ints txInit data sz timeout answers) = some p') :
    SlackInv cfg n p' := by
  obtain ⟨sd, hsd, rfl⟩ := Port.step_read h.rep hstep
  have hpass : passStatus sd.status p.inStatus = (0, 0) := by
    rw [hsd.status_eq, h.status_eq, h.inStatus_eq]
    decide
  have hrep := hsd.rep.setStatus 0
  have hasserted := h.rep.asserted_iff huse
  have hasserted' := hrep.asserted_iff huse
  have hle := hsd.used_le
  have hfl := h.rep.fifoLow_eq
  have hfl' := hsd.rep.fifoLow_eq
  rw [hpass]
  exact {
    rep := hrep
    lost_eq := h.lost_eq
    status_eq := rfl
    inStatus_eq := rfl
    level := by
      show fifoGetused sd.rxfifo < sd.fifoLow ∨
        fifoGetused sd.rxfifo ≤ sd.fifoLow + p.count { sd with status := 0 } 0 ∧
          p.count { sd with status := 0 } 0 ≤ 2 ^ n / 4 - 1
      -- asserted, the level is low; otherwise it only fell, and nothing was sent
      rw [Port.count]
      split
      · next hon =>
          rw [hasserted', hasserted] at hon
          rcases hon with hon | hon
          · exact Or.inl hon
          · omega
      · next hoff =>
          obtain ⟨hoff', hoff⟩ := not_or.mp hoff
          rw [hasserted] at hoff
          rcases h.level with hl | hl <;> omega }

end SlackInv

/-- The lines follow the level in every run, and if the sender stops in time,
    nothing is lost. -/
theorem serial_flow_control (cfg n : Nat) (mem : List UInt8) (hn : 4 ≤ n) (hn32 : n < 32)
    (hmem : mem.length = 2 ^ n)
    (huse : cfg.testBit serialCfgFlowctrlRtsPos ∨ cfg.testBit serialCfgFlowctrlDtrPos)
    (es : List PortEvent) (p : Port) (hrun : portMachine.run (portInit cfg n mem) es = some p) :
    LineFollows p.sd ∧ (portMachine.Along (WithinSlack n) (portInit cfg n mem) es →
      p.lost = 0 ∧ p.sd.status = 0 ∧ p.inStatus = 0) := by
  have hinit := portInit_rep cfg hn hn32 hmem
  constructor
  · have hrep : RxRep cfg n p.sd := Machine.run_invariant
      (I := fun p => RxRep cfg n p.sd) (fun _ _ _ h hstep => Port.step_rep h hstep) hinit hrun
    exact hrep.follows
  · intro hslack
    have hslack0 : SlackInv cfg n (portInit cfg n mem) :=
      ⟨hinit, rfl, rfl, rfl, Or.inl (portInit_used cfg hn hn32 hmem)⟩
    have h : SlackInv cfg n p := Machine.run_invariant_along (I := SlackInv cfg n)
      (fun p e p' h hG hstep => by
        cases e with
        | rx byte => exact h.step_rx hn huse hG hstep
        | read ints txInit data sz timeout answers => exact h.step_read huse hstep)
      hslack0 hslack hrun
    exact ⟨h.lost_eq, h.status_eq, h.inStatus_eq⟩

/-- With sixteen bytes and RTS, twelve bytes switch the line off, three more
    fit, and a read of eight switches it on again. -/
def flowExample : List PortEvent :=
  List.replicate 15 (.rx 0x41) ++ [.read true true none 8 0 [(none, false)]]

theorem serial_flow_control_sixteen :
    portMachine.Along (WithinSlack 4) (portInit 0x400 4 (List.replicate 16 0)) flowExample ∧
    ∃ p, portMachine.run (portInit 0x400 4 (List.replicate 16 0)) flowExample = some p ∧
      LineFollows p.sd ∧ p.sd.rts ∧ p.lost = 0 ∧ p.sd.status = 0 ∧ p.inStatus = 0 := by
  have hslack : portMachine.Along (WithinSlack 4) (portInit 0x400 4 (List.replicate 16 0))
      flowExample := by
    decide +kernel
  have hrun : ∃ p ∈ portMachine.run (portInit 0x400 4 (List.replicate 16 0)) flowExample,
      p.sd.rts := by
    decide +kernel
  obtain ⟨p, hrun⟩ := hrun
  obtain ⟨hfollows, hnone⟩ := serial_flow_control 0x400 4 (List.replicate 16 0) (by decide)
    (by decide) (by decide) (Or.inl (by decide)) flowExample p hrun.1
  exact ⟨hslack, p, hrun.1, hfollows, hrun.2, hnone hslack⟩

end LBoot.Io
