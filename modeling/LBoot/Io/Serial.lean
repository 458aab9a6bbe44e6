/-
  LBoot.Io.Serial

  State of one serial port (src/io/serial.c) and the parts that the receive
  path and the interrupt handler share: flow control and the handler's
  RX-available branch.

  The modem control register is represented by `mcrVal`, the driver's own
  copy, which every write to the register also updates.
-/

import LBoot.Data.Fifo

namespace LBoot.Io

open LBoot.Data

/-- `SERIAL_CFG_FLOWCTRL_RTS__POS`. -/
def serialCfgFlowctrlRtsPos : Nat := 10

/-- `SERIAL_CFG_FLOWCTRL_DTR__POS`. -/
def serialCfgFlowctrlDtrPos : Nat := 11

/-- `1U << SERIALREG_MCR_DTR__POS`. -/
def serialregMcrDtr : UInt8 := 0x01

/-- `1U << SERIALREG_MCR_RTS__POS`. -/
def serialregMcrRts : UInt8 := 0x02

/-- `SERIALSTATUS_OVERRUN`. -/
def serialstatusOverrun : UInt8 := 0x01

/-- `SERIALSTATUS_FRAMING`. -/
def serialstatusFraming : UInt8 := 0x02

/-- `INPUTSTATUS_OVERRUN`. -/
def inputstatusOverrun : UInt8 := 0x01

/-- `INPUTSTATUS_DATAERR`, the same bit as `INPUTSTATUS_OVERRUN` in the source. -/
def inputstatusDataerr : UInt8 := 0x01

/-- `serial_data_t`, the fields of the receive side. -/
structure SerialData where
  cfg : Nat
  mcrVal : UInt8
  status : UInt8
  fifoLow : Nat
  rxfifo : Fifo
  deriving DecidableEq, Repr

namespace SerialData

/-- RTS flow control is configured. -/
def useRts (sd : SerialData) : Bool := sd.cfg.testBit serialCfgFlowctrlRtsPos

/-- DTR flow control is configured. -/
def useDtr (sd : SerialData) : Bool := sd.cfg.testBit serialCfgFlowctrlDtrPos

end SerialData

/-- The new register value `_serial_rx_flowcontrol` computes from its copy
    `newMcr` of `mcr_val` and from what `fifo_getused` returned. -/
def flowcontrolMcr (sd : SerialData) (newMcr : UInt8) (used : Nat) : UInt8 :=
  if used ≥ sd.fifoLow then
    let newMcr := if newMcr &&& serialregMcrRts ≠ 0 ∧ sd.useRts
      then newMcr &&& ~~~ serialregMcrRts else newMcr
    if newMcr &&& serialregMcrDtr ≠ 0 ∧ sd.useDtr
      then newMcr &&& ~~~ serialregMcrDtr else newMcr
  else
    let newMcr := if ¬ (newMcr &&& serialregMcrRts ≠ 0) ∧ sd.useRts
      then newMcr ||| serialregMcrRts else newMcr
    if ¬ (newMcr &&& serialregMcrDtr ≠ 0) ∧ sd.useDtr
      then newMcr ||| serialregMcrDtr else newMcr

/-- `_serial_rx_flowcontrol` from the result of `fifo_getused` on. -/
def serialRxFlowcontrolBody (sd : SerialData) (newMcr : UInt8) (used : Nat) : SerialData :=
  let newMcr := flowcontrolMcr sd newMcr used
  if newMcr ≠ sd.mcrVal then { sd with mcrVal := newMcr } else sd

/-- `_serial_rx_flowcontrol`, run without interruption. -/
def serialRxFlowcontrol (sd : SerialData) : SerialData :=
  if ¬ (sd.useRts ∨ sd.useDtr) then sd
  else serialRxFlowcontrolBody sd sd.mcrVal (fifoGetused sd.rxfifo)

/-- `_serial_int_handler`, case `SERIALREG_IIR_INTID_RXAVAIL` with the RX FIFO
    initialised: `data` is the byte in the receive register. -/
def serialIntRxavail (sd : SerialData) (data : UInt8) : SerialData :=
  let (ret, f) := fifoWrite sd.rxfifo [data]
  let sd := { sd with rxfifo := f }
  let sd := if ret ≠ 0 then { sd with status := sd.status ||| serialstatusOverrun } else sd
  serialRxFlowcontrol sd

@[simp] theorem serialRxFlowcontrolBody_rxfifo (sd : SerialData) (m : UInt8) (used : Nat) :
    (serialRxFlowcontrolBody sd m used).rxfifo = sd.rxfifo := by
  unfold serialRxFlowcontrolBody
  dsimp only
  split <;> rfl

@[simp] theorem serialRxFlowcontrol_rxfifo (sd : SerialData) :
    (serialRxFlowcontrol sd).rxfifo = sd.rxfifo := by
  unfold serialRxFlowcontrol
  split
  · rfl
  · exact serialRxFlowcontrolBody_rxfifo ..

/-- The handler leaves in the FIFO what `fifo_write` leaves there. -/
@[simp] theorem serialIntRxavail_rxfifo (sd : SerialData) (data : UInt8) :
    (serialIntRxavail sd data).rxfifo = (fifoWrite sd.rxfifo [data]).2 := by
  unfold serialIntRxavail
  dsimp only
  rw [serialRxFlowcontrol_rxfifo]
  split <;> rfl

end LBoot.Io
