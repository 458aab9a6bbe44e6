/-
  LBoot.Io.SerialInit

  `serial_init` and the interrupt enable register (src/io/serial.c).

  The data of a port is shared by all handles on it, and a FIFO stays once it
  is there.  The enable mask is put together anew in each call, from what that
  call is given: a call without an input handle leaves the receive interrupt
  off, also where an earlier one has set up the RX FIFO, and so for the
  transmit interrupt.

  What is written to the UART is logged by register.  The divisor latch and
  the interrupt enable register have one address, told apart by DLAB.
-/

import LBoot.Io.SerialStatus

namespace LBoot.Io

open LBoot.Data LBoot.Lib

/-- `MAX_PORT_COUNT`. -/
abbrev maxPortCount : Nat := 2

/-- `1U << SERIALREG_IER_RXAVAIL__POS`. -/
def serialregIerRxavail : UInt8 := 0x01

/-- `1U << SERIALREG_IER_TXEMPTY__POS`. -/
def serialregIerTxempty : UInt8 := 0x02

/-- `1U << SERIALREG_IER_RXLINESTATUS__POS`. -/
def serialregIerRxlinestatus : UInt8 := 0x04

/-! ## Model -/

/-- The registers that are written. -/
inductive SerialReg where
  | ier | lcr | dll | dlm | fcr | mcr
  deriving DecidableEq, Repr

/-- A write to a register of a port. -/
structure PortOut where
  port : Nat
  reg : SerialReg
  value : UInt8
  deriving DecidableEq, Repr

/-- `serial_data_t`. -/
structure PortData where
  port : Nat
  sd : SerialData
  txfifo : Fifo
  deriving DecidableEq, Repr

/-- The entry `_serial_find_portdata` allocates and clears. -/
def PortData.new (port : Nat) : PortData :=
  ⟨port, ⟨0, 0, 0, 0, ⟨[], 0, 0, 0⟩⟩, ⟨[], 0, 0, 0⟩⟩

def PortData.rxInit (pd : PortData) : Bool := pd.sd.rxInit

def PortData.txInit (pd : PortData) : Bool := fifoIsinitialized pd.txfifo

/-- `int_id_e`, the serial ones. -/
inductive IntId where
  | com1 | com2
  deriving DecidableEq, Repr

/-- `_port_data`, what has been written to the ports, and the interrupts the
    handler is registered for, with the port it is given. -/
structure SerialPorts where
  portData : List (Option PortData)
  outs : List PortOut
  registered : List (IntId × Nat)
  deriving DecidableEq, Repr

/-- The arguments of `serial_init`, a handle being there or NULL, and the
    memory `alloc` returns for the FIFOs. -/
structure InitCall where
  inHand : Bool
  outHand : Bool
  baud : Nat
  cfg : Nat
  rxMem : List UInt8
  txMem : List UInt8
  deriving DecidableEq, Repr

inductive InitError where
  /-- -1 is returned -/
  | failed
  /-- `panic` -/
  | panicked
  deriving DecidableEq, Repr

/-- `_serial_find_portdata`: the entry of a port, and its place. -/
def serialFindPortdata (slots : List (Option PortData)) (port : Nat) : Option (Nat × PortData) :=
  match slots.findIdx? fun e => e.any (·.port = port) with
  | some k => some (k, (slots.getD k none).getD (.new port))
  | none => (slots.findIdx? Option.isNone).map fun k => (k, .new port)

/-- The port and its interrupt, COM1 to COM4. -/
def serialPort (cfg : Nat) : Option (Nat × IntId) :=
  match cfg &&& 0x03 with
  | 0 => some (0x03f8, .com1)
  | 1 => some (0x02f8, .com2)
  | 2 => some (0x03e8, .com1)
  | 3 => some (0x02e8, .com2)
  | _ => none

/-- `2^n` as configured, 16 at least; 0 means no buffer. -/
def bufferSize (n : Nat) : Nat := if n ≠ 0 then 1 <<< (if n < 4 then 4 else n) else 0

/-- The block `if(in)`: the receive side, and the interrupts enabled. -/
def initIn (c : InitCall) (sd : SerialData) (intEn : UInt8) : SerialData × UInt8 :=
  if fifoIsinitialized sd.rxfifo then (sd, intEn ||| serialregIerRxavail)
  else
    let fifoSz := bufferSize (c.cfg >>> 2 &&& 0x0f)
    if fifoSz ≠ 0 then
      ({ sd with rxfifo := fifoInit c.rxMem fifoSz, fifoLow := fifoSz - fifoSz >>> 2 },
        intEn ||| serialregIerRxavail)
    else (sd, intEn)

/-- The block `if(out)`. -/
def initOut (c : InitCall) (txfifo : Fifo) (intEn : UInt8) : Fifo × UInt8 :=
  let (txfifo, intEn) :=
    if fifoIsinitialized txfifo then (txfifo, intEn ||| serialregIerTxempty)
    else
      let fifoSz := bufferSize (c.cfg >>> 6 &&& 0x0f)
      if fifoSz ≠ 0 then (fifoInit c.txMem fifoSz, intEn ||| serialregIerTxempty)
      else (txfifo, intEn)
  (txfifo, intEn ||| serialregIerRxlinestatus)

/-- Both blocks: the entry as the call leaves it, and `int_en`. -/
def initPort (c : InitCall) (pd : PortData) : PortData × UInt8 :=
  let sd := { pd.sd with cfg := c.cfg }
  let (sd, intEn) := if c.inHand then initIn c sd 0 else (sd, 0)
  let (txfifo, intEn) := if c.outHand then initOut c pd.txfifo intEn else (pd.txfifo, intEn)
  ({ pd with sd := { sd with mcrVal := serialInitMcr }, txfifo }, intEn)

/-- What is written in front of `_serial_find_portdata`: interrupts off, the
    divisor, 8n1, hardware FIFOs off, and the modem lines. -/
def initOuts (port baud : Nat) : List PortOut :=
  let div := 115200 / baud
  [⟨port, .ier, 0⟩, ⟨port, .lcr, 0x80⟩, ⟨port, .dll, UInt8.ofNat div⟩,
    ⟨port, .dlm, UInt8.ofNat (div >>> 8)⟩, ⟨port, .lcr, 0x03⟩, ⟨port, .fcr, 0x06⟩,
    ⟨port, .mcr, serialInitMcr⟩]

/-- `serial_init`. -/
def serialInit (st : SerialPorts) (c : InitCall) : Except InitError SerialPorts :=
  if c.baud > 115200 ∨ c.baud < 50 then .error .failed
  else
    match serialPort c.cfg with
    | none => .error .failed
    | some (port, intId) =>
        match serialFindPortdata st.portData port with
        | none => .error .panicked
        | some (k, pd) =>
            let (pd, intEn) := initPort c pd
            let outs := st.outs ++ initOuts port c.baud
            .ok {
              portData := st.portData.set k (some pd)
              outs := if intEn ≠ 0 then outs ++ [⟨port, .ier, intEn⟩] else outs
              registered :=
                if intEn ≠ 0 then st.registered ++ [(intId, port)] else st.registered }

/-- Before the first call. -/
def serialPorts : SerialPorts := ⟨List.replicate maxPortCount none, [], []⟩

/-- Successful calls. -/
def initMachine : Machine SerialPorts InitCall := ⟨fun st c => (serialInit st c).toOption⟩

/-! ## What is enabled -/

/-- The last value written to a port's interrupt enable register. -/
def lastIer (outs : List PortOut) (port : Nat) : UInt8 :=
  outs.foldl (fun v o => if o.port = port ∧ o.reg = .ier then o.value else v) 0

/-- The interrupts enabled are those of the FIFOs that are initialised. -/
def IerMatches (ier : UInt8) (pd : PortData) : Prop :=
  (ier &&& serialregIerRxavail ≠ 0 ↔ pd.rxInit = true) ∧
    (ier &&& serialregIerTxempty ≠ 0 ↔ pd.txInit = true)

/-- So it is on every port in use. -/
def InterruptsMatch (st : SerialPorts) : Prop :=
  ∀ (k : Nat) (pd : PortData), st.portData[k]? = some (some pd) →
    IerMatches (lastIer st.outs pd.port) pd

/-- A call that is not refused passes a handle for each FIFO its port already
    has. -/
def PassesHandles (st : SerialPorts) (c : InitCall) : Prop :=
  50 ≤ c.baud → c.baud ≤ 115200 → ∀ (k : Nat) (pd : PortData), st.portData[k]? = some (some pd) →
    (serialPort c.cfg).map Prod.fst = some pd.port →
      (pd.rxInit → c.inHand) ∧ (pd.txInit → c.outHand)

/-- A port has one entry. -/
def OneEntry (st : SerialPorts) : Prop :=
  ∀ (i j : Nat) (pd pd' : PortData), st.portData[i]? = some (some pd) →
    st.portData[j]? = some (some pd') → pd.port = pd'.port → i = j

/-! ## One call -/

theorem lastIer_append (outs outs' : List PortOut) (port : Nat) :
    lastIer (outs ++ outs') port =
      outs'.foldl (fun v o => if o.port = port ∧ o.reg = .ier then o.value else v)
        (lastIer outs port) := List.foldl_append

theorem lastIer_init (outs : List PortOut) (port baud q : Nat) :
    lastIer (outs ++ initOuts port baud) q = if port = q then 0 else lastIer outs q := by
  rw [lastIer_append]
  by_cases hq : port = q
  · simp [initOuts, hq]
  · simp [initOuts, hq]

/-- What a call leaves in the enable registers. -/
theorem lastIer_call (outs : List PortOut) (port baud q : Nat) (intEn : UInt8) :
    lastIer (if intEn ≠ 0 then outs ++ initOuts port baud ++ [⟨port, .ier, intEn⟩]
      else outs ++ initOuts port baud) q = if port = q then intEn else lastIer outs q := by
  split_ifs with hen hq
  · rw [lastIer_append, lastIer_init]
    simp [hq]
  · rw [lastIer_append, lastIer_init]
    simp [hq]
  · next hq =>
      rw [lastIer_init, if_pos hq]
      exact (not_not.mp hen).symm
  · next hq => rw [lastIer_init, if_neg hq]

/-- The entry found is that of the port, or a new one in a free place. -/
theorem serialFindPortdata_cases {slots : List (Option PortData)} {port k : Nat} {pd : PortData}
    (h : serialFindPortdata slots port = some (k, pd)) :
    pd.port = port ∧ (slots[k]? = some (some pd) ∨
      slots[k]? = some none ∧ pd = .new port ∧
        ∀ (i : Nat) (pd' : PortData), slots[i]? = some (some pd') → pd'.port ≠ port) := by
  rw [serialFindPortdata] at h
  cases hfind : slots.findIdx? fun e => e.any (·.port = port) with
  | some i =>
      rw [hfind] at h
      obtain ⟨hi, hmatch, -⟩ := List.findIdx?_eq_some_iff_getElem.mp hfind
      cases hslot : slots[i] with
      | none =>
          rw [hslot] at hmatch
          cases hmatch
      | some pd' =>
          rw [hslot] at hmatch
          have hget : slots[i]? = some (some pd') := by
            rw [List.getElem?_eq_getElem hi, hslot]
          have hpair : (i, pd') = (k, pd) := by
            simpa [List.getD_eq_getElem?_getD, hget] using h
          obtain ⟨rfl, rfl⟩ := Prod.mk.inj hpair
          exact ⟨of_decide_eq_true hmatch, .inl hget⟩
  | none =>
      rw [hfind] at h
      obtain ⟨i, hfree, hpair⟩ := Option.map_eq_some_iff.mp h
      obtain ⟨rfl, rfl⟩ := Prod.mk.inj hpair
      obtain ⟨hi, hnone, -⟩ := List.findIdx?_eq_some_iff_getElem.mp hfree
      refine ⟨rfl, .inr ⟨?_, rfl, fun j pd' hj hport => ?_⟩⟩
      · rw [List.getElem?_eq_getElem hi, Option.isNone_iff_eq_none.mp hnone]
      · have hall := List.findIdx?_eq_none_iff.mp hfind (some pd') (List.mem_of_getElem? hj)
        simp [hport] at hall

/-- A successful call. -/
theorem serialInit_ok {st st' : SerialPorts} {c : InitCall} (h : serialInit st c = .ok st') :
    (50 ≤ c.baud ∧ c.baud ≤ 115200) ∧ ∃ port intId k pd, serialPort c.cfg = some (port, intId) ∧
      serialFindPortdata st.portData port = some (k, pd) ∧
      st'.portData = st.portData.set k (some (initPort c pd).1) ∧
      ∀ q, lastIer st'.outs q = if port = q then (initPort c pd).2 else lastIer st.outs q := by
  rw [serialInit] at h
  split_ifs at h with hbaud
  rw [not_or] at hbaud
  refine ⟨by omega, ?_⟩
  cases hport : serialPort c.cfg with
  | none =>
      rw [hport] at h
      cases h
  | some pr =>
      obtain ⟨port, intId⟩ := pr
      rw [hport] at h
      dsimp only at h
      cases hfind : serialFindPortdata st.portData port with
      | none =>
          rw [hfind] at h
          cases h
      | some found =>
          obtain ⟨k, pd⟩ := found
          rw [hfind] at h
          obtain rfl := Except.ok.inj h
          exact ⟨port, intId, k, pd, rfl, hfind, rfl, fun q => lastIer_call _ _ _ _ _⟩

/-! ## The enable mask -/

@[simp] theorem fifoInit_isinitialized (mem : List UInt8) (sz : Nat) :
    fifoIsinitialized (fifoInit mem sz) = decide (sz ≠ 0) := rfl

/-- The mask that enables these interrupts. -/
def ierMask (rx tx line : Bool) : UInt8 :=
  (if rx then serialregIerRxavail else 0) ||| (if tx then serialregIerTxempty else 0) |||
    (if line then serialregIerRxlinestatus else 0)

theorem ierMask_rx (rx tx line : Bool) :
    ierMask rx tx line &&& serialregIerRxavail ≠ 0 ↔ rx = true := by
  cases rx <;> cases tx <;> cases line <;> decide

theorem ierMask_tx (rx tx line : Bool) :
    ierMask rx tx line &&& serialregIerTxempty ≠ 0 ↔ tx = true := by
  cases rx <;> cases tx <;> cases line <;> decide

section

variable (c : InitCall)

theorem initIn_intEn (sd : SerialData) :
    (initIn c sd 0).2 = ierMask (initIn c sd 0).1.rxInit false false := by
  by_cases hinit : fifoIsinitialized sd.rxfifo = true
  · simp [initIn, SerialData.rxInit, hinit, ierMask]
  · by_cases hsize : bufferSize (c.cfg >>> 2 &&& 0x0f) = 0
    · simp [initIn, SerialData.rxInit, hinit, hsize, ierMask]
    · simp [initIn, SerialData.rxInit, hinit, hsize, ierMask]

theorem initOut_intEn (txfifo : Fifo) (rx : Bool) :
    (initOut c txfifo (ierMask rx false false)).2 =
      ierMask rx (fifoIsinitialized (initOut c txfifo (ierMask rx false false)).1) true := by
  by_cases hinit : fifoIsinitialized txfifo = true
  · simp [initOut, hinit, ierMask]
  · by_cases hsize : bufferSize (c.cfg >>> 6 &&& 0x0f) = 0
    · simp [initOut, hinit, hsize, ierMask]
    · simp [initOut, hinit, hsize, ierMask]

/-- `int_en`: a FIFO counts only in a call that has its handle. -/
theorem initPort_intEn (pd : PortData) :
    (initPort c pd).2 = ierMask (c.inHand && (initPort c pd).1.rxInit)
      (c.outHand && (initPort c pd).1.txInit) c.outHand := by
  rw [initPort]
  cases hin : c.inHand <;> cases hout : c.outHand
  · simp [ierMask]
  · exact initOut_intEn c pd.txfifo false
  · exact initIn_intEn c _
  · have hrx := initIn_intEn c { pd.sd with cfg := c.cfg }
    dsimp only [if_true]
    rw [if_pos rfl, if_pos rfl, hrx]
    exact initOut_intEn c pd.txfifo _

/-- A FIFO stays, whatever is asked for; without its handle none is set up. -/
theorem initPort_rxInit (pd : PortData) :
    (pd.rxInit → (initPort c pd).1.rxInit) ∧
      (c.inHand = false → (initPort c pd).1.rxInit = pd.rxInit) := by
  constructor
  · intro hrx
    have hinit : fifoIsinitialized pd.sd.rxfifo = true := hrx
    cases hin : c.inHand with
    | false => simpa [initPort, PortData.rxInit, SerialData.rxInit, hin] using hinit
    | true => simp [initPort, PortData.rxInit, SerialData.rxInit, hin, initIn, hinit]
  · intro hin
    simp [initPort, PortData.rxInit, SerialData.rxInit, hin]

theorem initPort_txInit (pd : PortData) :
    (pd.txInit → (initPort c pd).1.txInit) ∧
      (c.outHand = false → (initPort c pd).1.txInit = pd.txInit) := by
  constructor
  · intro htx
    have hinit : fifoIsinitialized pd.txfifo = true := htx
    cases hout : c.outHand with
    | false => simpa [initPort, PortData.txInit, hout] using hinit
    | true => simp [initPort, PortData.txInit, hout, initOut, hinit]
  · intro hout
    simp [initPort, PortData.txInit, hout]

@[simp] theorem initPort_port (pd : PortData) : (initPort c pd).1.port = pd.port := rfl

/-- What a call enables is what there is, exactly if it has the handles of the
    FIFOs that were there. -/
theorem initPort_matches_iff (pd : PortData) :
    IerMatches (initPort c pd).2 (initPort c pd).1 ↔
      (pd.rxInit → c.inHand) ∧ (pd.txInit → c.outHand) := by
  have hrx := initPort_rxInit c pd
  have htx := initPort_txInit c pd
  rw [IerMatches, initPort_intEn, ierMask_rx, ierMask_tx]
  refine and_congr ?_ ?_
  · generalize (initPort c pd).1.rxInit = rx at hrx ⊢
    cases hin : c.inHand with
    | true => simp
    | false =>
        obtain rfl := hrx.2 hin
        simp
  · generalize (initPort c pd).1.txInit = tx at htx ⊢
    cases hout : c.outHand with
    | true => simp
    | false =>
        obtain rfl := htx.2 hout
        simp

end

/-! ## All ports -/

/-- What holds after each call as long as the handles are passed. -/
def PortsInv (st : SerialPorts) : Prop := OneEntry st ∧ InterruptsMatch st

theorem serialPorts_inv : PortsInv serialPorts := by
  have hfree : ∀ (k : Nat) (pd : PortData), serialPorts.portData[k]? ≠ some (some pd) := by
    intro k pd hk
    obtain hmem := List.mem_of_getElem? hk
    simp [serialPorts] at hmem
  exact ⟨fun i _ pd _ hi => absurd hi (hfree i pd), fun k pd hk => absurd hk (hfree k pd)⟩

/-- The entries after a call: its own, and those there were. -/
theorem portData_set {slots : List (Option PortData)} {k i : Nat} {new pd : PortData}
    (h : (slots.set k (some new))[i]? = some (some pd)) :
    i = k ∧ pd = new ∨ i ≠ k ∧ slots[i]? = some (some pd) := by
  by_cases hik : i = k
  · subst hik
    obtain hlt | hge := Nat.lt_or_ge i slots.length
    · rw [List.getElem?_set_self hlt] at h
      exact .inl ⟨rfl, (Option.some.inj (Option.some.inj h)).symm⟩
    · rw [List.getElem?_eq_none (by simpa using hge)] at h
      cases h
  · rw [List.getElem?_set_ne (Ne.symm hik)] at h
    exact .inr ⟨hik, h⟩

section

variable {st st' : SerialPorts} {c : InitCall}

/-- No other place has the port of the entry found. -/
theorem OneEntry.found_ne (hone : OneEntry st) {port k : Nat} {pd : PortData}
    (hfind : serialFindPortdata st.portData port = some (k, pd)) {i : Nat} {pd' : PortData}
    (hi : st.portData[i]? = some (some pd')) (hik : i ≠ k) : pd'.port ≠ port := by
  obtain ⟨hport, hslot | ⟨-, -, hnone⟩⟩ := serialFindPortdata_cases hfind
  · exact fun hpd' => hik (hone i k pd' pd hi hslot (hpd'.trans hport.symm))
  · exact hnone i pd' hi

theorem serialInit_oneEntry (hone : OneEntry st) (h : serialInit st c = .ok st') :
    OneEntry st' := by
  obtain ⟨-, port, _, k, pd, -, hfind, hdata, -⟩ := serialInit_ok h
  have hport : pd.port = port := (serialFindPortdata_cases hfind).1
  intro i j pdi pdj hi hj hij
  rw [hdata] at hi hj
  obtain ⟨rfl, rfl⟩ | ⟨hik, hi'⟩ := portData_set hi
  · obtain ⟨rfl, -⟩ | ⟨hjk, hj'⟩ := portData_set hj
    · rfl
    · exact absurd (hij.symm.trans hport) (hone.found_ne hfind hj' hjk)
  · obtain ⟨rfl, rfl⟩ | ⟨hjk, hj'⟩ := portData_set hj
    · exact absurd (hij.trans hport) (hone.found_ne hfind hi' hik)
    · exact hone i j pdi pdj hi' hj' hij

/-- A new entry has no FIFO, so a call passes the handles that count. -/
theorem PassesHandles.found (hpass : PassesHandles st c) {port k : Nat} {intId : IntId}
    {pd : PortData} (hbaud : 50 ≤ c.baud ∧ c.baud ≤ 115200)
    (hcfg : serialPort c.cfg = some (port, intId))
    (hfind : serialFindPortdata st.portData port = some (k, pd)) :
    (pd.rxInit → c.inHand) ∧ (pd.txInit → c.outHand) := by
  obtain ⟨hport, hslot | ⟨-, hnew, -⟩⟩ := serialFindPortdata_cases hfind
  · exact hpass hbaud.1 hbaud.2 k pd hslot (by rw [hcfg, hport]; rfl)
  · subst hnew
    constructor
    · intro hrx
      cases hrx
    · intro htx
      cases htx

theorem serialInit_inv (hinv : PortsInv st) (hpass : PassesHandles st c)
    (h : serialInit st c = .ok st') : PortsInv st' := by
  refine ⟨serialInit_oneEntry hinv.1 h, ?_⟩
  obtain ⟨hbaud, port, _, k, pd, hcfg, hfind, hdata, hier⟩ := serialInit_ok h
  have hport : pd.port = port := (serialFindPortdata_cases hfind).1
  intro i pdi hi
  rw [hdata] at hi
  rw [hier]
  obtain ⟨rfl, rfl⟩ | ⟨hik, hi⟩ := portData_set hi
  · rw [initPort_port, if_pos hport.symm]
    exact (initPort_matches_iff c pd).mpr (hpass.found hbaud hcfg hfind)
  · rw [if_neg (hinv.1.found_ne hfind hi hik).symm]
    exact hinv.2 i pdi hi

/-- Baud rates that are refused. -/
theorem serialInit_failed (hbaud : ¬ (50 ≤ c.baud ∧ c.baud ≤ 115200)) :
    serialInit st c = .error .failed := by
  rw [serialInit, if_pos (by omega)]

/-- Where an entry is found, the call goes through. -/
theorem serialInit_of_found (hbaud : 50 ≤ c.baud ∧ c.baud ≤ 115200) {port : Nat} {intId : IntId}
    {found : Nat × PortData} (hcfg : serialPort c.cfg = some (port, intId))
    (hfind : serialFindPortdata st.portData port = some found) :
    ∃ st', serialInit st c = .ok st' := by
  rw [serialInit, if_neg (by omega), hcfg]
  dsimp only
  rw [hfind]
  exact ⟨_, rfl⟩

/-- The entry of a port is found. -/
theorem serialInit_of_entry (hbaud : 50 ≤ c.baud ∧ c.baud ≤ 115200) {k : Nat} {pd : PortData}
    (hslot : st.portData[k]? = some (some pd))
    (hcfg : (serialPort c.cfg).map Prod.fst = some pd.port) :
    ∃ st', serialInit st c = .ok st' := by
  obtain ⟨⟨port, intId⟩, hcfg, rfl⟩ := Option.map_eq_some_iff.mp hcfg
  have hfound : serialFindPortdata st.portData pd.port ≠ none := by
    intro hnone
    rw [serialFindPortdata] at hnone
    cases hfind : st.portData.findIdx? fun e => e.any (·.port = pd.port) with
    | none =>
        have hall := List.findIdx?_eq_none_iff.mp hfind (some pd) (List.mem_of_getElem? hslot)
        simp at hall
    | some i =>
        rw [hfind] at hnone
        cases hnone
  obtain ⟨found, hfind⟩ := Option.ne_none_iff_exists'.mp hfound
  exact serialInit_of_found hbaud hcfg hfind

/-- A call without the handle of a FIFO its port has leaves that interrupt
    off. -/
theorem serialInit_not_match (hone : OneEntry st) (hpass : ¬ PassesHandles st c) :
    ∃ st', serialInit st c = .ok st' ∧ ¬ InterruptsMatch st' := by
  simp only [PassesHandles, not_forall] at hpass
  obtain ⟨hlo, hhi, k, pd, hslot, hcfg, hnot⟩ := hpass
  obtain ⟨st', h⟩ := serialInit_of_entry ⟨hlo, hhi⟩ hslot hcfg
  refine ⟨st', h, fun hmatch => hnot ?_⟩
  obtain ⟨-, port, _, k', pd', hcfg', hfind, hdata, hier⟩ := serialInit_ok h
  obtain rfl : port = pd.port := by
    rw [hcfg'] at hcfg
    exact Option.some.inj hcfg
  obtain ⟨hport, hslot'⟩ := serialFindPortdata_cases hfind
  -- the entry found is this one, as a port has one
  obtain rfl : k = k' := by
    by_contra hne
    exact hone.found_ne hfind hslot hne rfl
  obtain rfl : pd' = pd := by
    obtain hslot' | ⟨hslot', -⟩ := hslot'
    · rw [hslot] at hslot'
      exact (Option.some.inj (Option.some.inj hslot')).symm
    · rw [hslot] at hslot'
      cases hslot'
  have hlen : k < st.portData.length := (List.getElem?_eq_some_iff.mp hslot).1
  have hentry := hmatch k (initPort c pd').1 (by rw [hdata, List.getElem?_set_self hlen])
  rw [hier, initPort_port, if_pos rfl] at hentry
  exact (initPort_matches_iff c pd').mp hentry

theorem initMachine_step : initMachine.step st c = some st' ↔ serialInit st c = .ok st' := by
  show (serialInit st c).toOption = some st' ↔ _
  cases serialInit st c with
  | error e => simp [Except.toOption]
  | ok u => simp [Except.toOption]

end

/-- The interrupts enabled after each call are those of the FIFOs there are,
    exactly in the runs that pass both handles to a port once it has the
    FIFOs. -/
theorem initMachine_match_iff (es : List InitCall) :
    initMachine.Along PassesHandles serialPorts es ↔
      ∀ es' st, es' <+: es → initMachine.run serialPorts es' = some st → InterruptsMatch st := by
  refine Machine.along_iff_forall_initial (fun st c st' hinv hpass h => ?_)
    (fun st hinv => hinv.2) (fun st c hinv hpass => ?_) serialPorts_inv
  · exact serialInit_inv hinv hpass (initMachine_step.mp h)
  · obtain ⟨st', h, hmatch⟩ := serialInit_not_match hinv.1 hpass
    exact ⟨st', initMachine_step.mpr h, hmatch⟩

/-- Input with an RX FIFO of 16 bytes, then output on the same port: the
    receive interrupt is off, and the first handle gets nothing more. -/
theorem initMachine_not_match :
    ¬ ∀ st, initMachine.run serialPorts
      [⟨true, false, 9600, 0x010, List.replicate 16 0, []⟩,
        ⟨false, true, 9600, 0x100, [], List.replicate 16 0⟩] = some st → InterruptsMatch st := by
  intro hall
  have hmatch := hall _ rfl 0 _ rfl
  have hrx := hmatch.1.mpr rfl
  revert hrx
  decide

end LBoot.Io
