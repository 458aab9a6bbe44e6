/-
  LBoot.Lib.Pic

  The 8259A interrupt controller, alone and as the pair of a PC.

  A controller asks for the requested line of highest priority that is not
  masked, line 0 before line 7, unless that line or one of higher priority is
  in service.  An end of interrupt without a level takes the line of highest
  priority out of service.

  The output of the second controller is line 2 of the first one; its own
  lines count as 8 to 15.  A request that goes away before it is acknowledged
  is answered with line 7, which is not put in service for it.

  Where no line is in service, no request is held back
  (`PicPair.exists_request`), and an end of interrupt sent to the controllers
  that have acknowledged leaves no line in service again.
-/

import Mathlib.Algebra.Group.Nat.Defs
import Mathlib.Data.List.Basic

namespace LBoot.Lib

/-! ## Registers -/

/-- Bit `i` of a register. -/
def regBit (v : UInt8) (i : Nat) : Bool := v.toBitVec.getLsbD i

/-- The register of line `i` alone. -/
def lineMask (i : Nat) : UInt8 := UInt8.ofNat (2 ^ i)

@[simp] theorem regBit_or (v w : UInt8) (i : Nat) :
    regBit (v ||| w) i = (regBit v i || regBit w i) := by
  rw [regBit, UInt8.toBitVec_or, BitVec.getLsbD_or]
  rfl

@[simp] theorem regBit_and (v w : UInt8) (i : Nat) :
    regBit (v &&& w) i = (regBit v i && regBit w i) := by
  rw [regBit, UInt8.toBitVec_and, BitVec.getLsbD_and]
  rfl

@[simp] theorem regBit_zero (i : Nat) : regBit 0 i = false := BitVec.getLsbD_zero

theorem regBit_not {v : UInt8} {i : Nat} (hi : i < 8) : regBit (~~~v) i = !regBit v i := by
  rw [regBit, UInt8.toBitVec_not, BitVec.getLsbD_not, decide_eq_true hi, Bool.true_and]
  rfl

theorem regBit_lineMask {i j : Nat} (hj : j < 8) : regBit (lineMask i) j = decide (i = j) := by
  rw [regBit, lineMask, UInt8.toBitVec_ofNat', BitVec.getLsbD_ofNat, decide_eq_true hj,
    Bool.true_and, Nat.testBit_two_pow]

/-- A register is its eight bits. -/
theorem eq_of_regBit {v w : UInt8} (h : ∀ i < 8, regBit v i = regBit w i) : v = w :=
  UInt8.toBitVec_inj.mp (BitVec.eq_of_getLsbD_eq h)

/-! ## One controller -/

/-- The word of an initialisation a controller waits for. -/
inductive PicInit where
  | ready | icw2 | icw3 | icw4
  deriving DecidableEq, Repr

/-- An 8259A. -/
structure Pic where
  irr : UInt8
  isr : UInt8
  imr : UInt8
  /-- the vector of line 0 -/
  base : UInt8
  /-- the lines with a controller behind them, or the number of the own line -/
  icw3 : UInt8
  /-- the mode; bit 1 is the automatic end of interrupt -/
  icw4 : UInt8
  /-- ICW4 is part of the initialisation -/
  needs4 : Bool
  /-- ICW3 is not -/
  single : Bool
  init : PicInit
  deriving DecidableEq, Repr

namespace Pic

/-- The line of highest priority in service. -/
def served (p : Pic) : Option Nat := (List.range 8).find? fun i => regBit p.isr i

/-- A line is requested, and not masked. -/
def pending (p : Pic) (i : Nat) : Bool := regBit p.irr i && !regBit p.imr i

/-- The line asked for. -/
def request (p : Pic) : Option Nat :=
  ((List.range 8).find? fun i => regBit p.isr i || p.pending i).filter fun i => !regBit p.isr i

/-- A device raises its line. -/
def raise (p : Pic) (i : Nat) : Pic := { p with irr := p.irr ||| lineMask i }

/-- The request goes away. -/
def drop (p : Pic) (i : Nat) : Pic := { p with irr := p.irr &&& ~~~lineMask i }

/-- The line is put in service. -/
def putInService (p : Pic) (i : Nat) : Pic :=
  if regBit p.icw4 1 then p else { p with isr := p.isr ||| lineMask i }

/-- The line is acknowledged. -/
def ack (p : Pic) (i : Nat) : Pic := (p.drop i).putInService i

/-- End of interrupt without a level. -/
def eoi (p : Pic) : Pic :=
  match p.served with
  | none => p
  | some i => { p with isr := p.isr &&& ~~~lineMask i }

/-- A write to the command port: the first word of an initialisation, or an
    end of interrupt, without a level or with one. -/
def writeCommand (p : Pic) (v : UInt8) : Pic :=
  if regBit v 4 then
    { p with
      irr := 0
      imr := 0
      icw4 := 0
      needs4 := regBit v 0
      single := regBit v 1
      init := .icw2 }
  else if v = 0x20 then p.eoi
  else if v &&& 0xf8 = 0x60 then { p with isr := p.isr &&& ~~~lineMask (v &&& 0x07).toNat }
  else p

/-- A write to the data port. -/
def writeData (p : Pic) (v : UInt8) : Pic :=
  match p.init with
  | .ready => { p with imr := v }
  | .icw2 =>
      { p with
        base := v &&& 0xf8
        init := if p.single then (if p.needs4 then .icw4 else .ready) else .icw3 }
  | .icw3 => { p with icw3 := v, init := if p.needs4 then .icw4 else .ready }
  | .icw4 => { p with icw4 := v, init := .ready }

/-- A read of the data port. -/
def readData (p : Pic) : UInt8 := p.imr

variable {p : Pic}

theorem writeData_of_ready (h : p.init = .ready) (v : UInt8) :
    p.writeData v = { p with imr := v } := by
  rw [writeData]
  split
  · rfl
  all_goals
    rename_i hinit
    rw [h] at hinit
    cases hinit

theorem served_of_isr_eq_zero (h : p.isr = 0) : p.served = none := by
  rw [served, List.find?_range_eq_none, h]
  simp

theorem eoi_of_isr_eq_zero (h : p.isr = 0) : p.eoi = p := by
  rw [eoi, served_of_isr_eq_zero h]

/-- The only line in service is taken out of it. -/
theorem eoi_of_isr_eq_lineMask {i : Nat} (hi : i < 8) (h : p.isr = lineMask i) :
    p.eoi = { p with isr := 0 } := by
  have hserved : p.served = some i := by
    rw [served, List.find?_range_eq_some, h, regBit_lineMask hi]
    refine ⟨decide_eq_true rfl, List.mem_range.mpr hi, fun j hj => ?_⟩
    rw [regBit_lineMask (Nat.lt_trans hj hi), decide_eq_false (Nat.ne_of_gt hj)]
    rfl
  have hclear : lineMask i &&& ~~~lineMask i = 0 := by
    apply eq_of_regBit
    intro j hj
    rw [regBit_and, regBit_not hj, Bool.and_not_self, regBit_zero]
  rw [eoi, hserved]
  dsimp only
  rw [h, hclear]

/-- With nothing in service, the first line pending is asked for. -/
theorem request_of_isr_eq_zero (h : p.isr = 0) : p.request = (List.range 8).find? p.pending := by
  have hclear : (fun i => regBit p.isr i || p.pending i) = p.pending := by
    funext j
    rw [h, regBit_zero, Bool.false_or]
  rw [request, hclear, h]
  cases (List.range 8).find? p.pending with
  | none => rfl
  | some i => simp

theorem request_eq_some_iff (h : p.isr = 0) {i : Nat} :
    p.request = some i ↔ i < 8 ∧ p.pending i = true ∧ ∀ j < i, p.pending j = false := by
  rw [request_of_isr_eq_zero h, List.find?_range_eq_some, List.mem_range]
  simp only [Bool.not_eq_true']
  exact and_left_comm

theorem request_isSome_iff (h : p.isr = 0) :
    p.request.isSome ↔ ∃ i < 8, p.pending i = true := by
  rw [request_of_isr_eq_zero h, List.find?_isSome]
  simp only [List.mem_range]

/-- What is in service afterwards depends on what was. -/
theorem eoi_isr_congr {q : Pic} (h : q.isr = p.isr) : q.eoi.isr = p.eoi.isr := by
  have hserved : q.served = p.served := by rw [served, served, h]
  rw [eoi, eoi, hserved]
  cases p.served with
  | none => exact h
  | some i =>
      dsimp only
      rw [h]

/-! Acknowledging and ending leave requests and masks alone, but for the
line's own request. -/

@[simp] theorem putInService_irr (i : Nat) : (p.putInService i).irr = p.irr := by
  rw [putInService]
  split <;> rfl

@[simp] theorem putInService_imr (i : Nat) : (p.putInService i).imr = p.imr := by
  rw [putInService]
  split <;> rfl

@[simp] theorem eoi_irr : p.eoi.irr = p.irr := by
  rw [eoi]
  split <;> rfl

@[simp] theorem eoi_imr : p.eoi.imr = p.imr := by
  rw [eoi]
  split <;> rfl

@[simp] theorem putInService_pending (i j : Nat) :
    (p.putInService i).pending j = p.pending j := by
  rw [pending, pending, putInService_irr, putInService_imr]

@[simp] theorem eoi_pending (j : Nat) : p.eoi.pending j = p.pending j := by
  rw [pending, pending, eoi_irr, eoi_imr]

theorem drop_pending {i j : Nat} (hj : j < 8) :
    (p.drop i).pending j = (p.pending j && !decide (i = j)) := by
  rw [pending, drop, regBit_and, regBit_not hj, regBit_lineMask hj, pending, Bool.and_right_comm]

@[simp] theorem drop_isr (i : Nat) : (p.drop i).isr = p.isr := rfl

@[simp] theorem raise_isr (i : Nat) : (p.raise i).isr = p.isr := rfl

/-- With the automatic end of interrupt off, and nothing in service before. -/
theorem putInService_isr (hauto : regBit p.icw4 1 = false) (h : p.isr = 0) (i : Nat) :
    (p.putInService i).isr = lineMask i := by
  rw [putInService, hauto, if_neg Bool.false_ne_true, h]
  exact UInt8.zero_or

theorem ack_isr (hauto : regBit p.icw4 1 = false) (h : p.isr = 0) (i : Nat) :
    (p.ack i).isr = lineMask i := @putInService_isr (p.drop i) hauto h i

end Pic

/-! ## The pair of a PC -/

/-- The line of the first controller that the second one is wired to. -/
abbrev cascadeLine : Nat := 2

structure PicPair where
  master : Pic
  slave : Pic
  deriving DecidableEq, Repr

namespace PicPair

/-- The first controller with the output of the second one on its line. -/
def wired (p : PicPair) : Pic :=
  if p.slave.request.isSome then p.master.raise cascadeLine else p.master.drop cascadeLine

/-- The line that the pair asks for. -/
def request (p : PicPair) : Option Nat :=
  match p.wired.request with
  | none => none
  | some i => if i = cascadeLine then p.slave.request.map (8 + ·) else some i

/-- The vector of a line. -/
def vector (p : PicPair) (n : Nat) : UInt8 :=
  if n < 8 then p.master.base + UInt8.ofNat n else p.slave.base + UInt8.ofNat (n - 8)

def raise (p : PicPair) (n : Nat) : PicPair :=
  if n < 8 then { p with master := p.master.raise n } else { p with slave := p.slave.raise (n - 8) }

def drop (p : PicPair) (n : Nat) : PicPair :=
  if n < 8 then { p with master := p.master.drop n } else { p with slave := p.slave.drop (n - 8) }

/-- The line is acknowledged, the second controller's by both. -/
def ack (p : PicPair) (n : Nat) : PicPair :=
  if n < 8 then { p with master := p.master.ack n }
  else { master := p.master.putInService cascadeLine, slave := p.slave.ack (n - 8) }

/-- The request went away: the first controller answers, or the second one
    does. -/
def ackSpurious (p : PicPair) (slave : Bool) : PicPair :=
  if slave then { p with master := p.master.putInService cascadeLine } else p

/-- Both are initialised, as a pair, without the automatic end of
    interrupt. -/
structure Cascaded (p : PicPair) : Prop where
  master_ready : p.master.init = .ready
  slave_ready : p.slave.init = .ready
  master_icw3 : p.master.icw3 = lineMask cascadeLine
  slave_icw3 : p.slave.icw3 = UInt8.ofNat cascadeLine
  master_auto : regBit p.master.icw4 1 = false
  slave_auto : regBit p.slave.icw4 1 = false

/-- No line is in service. -/
structure Free (p : PicPair) : Prop where
  master : p.master.isr = 0
  slave : p.slave.isr = 0

/-- The line is requested, and neither it nor the cascade is masked. -/
def Pending (p : PicPair) (n : Nat) : Prop :=
  if n < 8 then n ≠ cascadeLine ∧ p.master.pending n = true
  else n < 16 ∧ regBit p.master.imr cascadeLine = false ∧ p.slave.pending (n - 8) = true

/-- The order of the lines, with those of the second controller in place of
    line 2. -/
def rank (n : Nat) : Nat := if n < 8 then 8 * n else 8 * cascadeLine + (n - 8)

variable {p : PicPair}

instance (p : PicPair) (n : Nat) : Decidable (p.Pending n) :=
  if h : n < 8 then
    decidable_of_iff (n ≠ cascadeLine ∧ p.master.pending n = true) (by rw [Pending, if_pos h])
  else
    decidable_of_iff
      (n < 16 ∧ regBit p.master.imr cascadeLine = false ∧ p.slave.pending (n - 8) = true)
      (by rw [Pending, if_neg h])

theorem wired_isr : p.wired.isr = p.master.isr := by
  rw [wired]
  split <;> rfl

/-- The lines of the first controller are as they are, but for the cascade. -/
theorem wired_pending {i : Nat} (hi : i < 8) :
    p.wired.pending i =
      if i = cascadeLine then p.slave.request.isSome && !regBit p.master.imr cascadeLine
      else p.master.pending i := by
  have hmask := regBit_lineMask (i := cascadeLine) hi
  rw [wired]
  split_ifs with hreq hline hline
  · subst hline
    simp [Pic.pending, Pic.raise, hmask, hreq]
  · simp [Pic.pending, Pic.raise, hmask, Ne.symm hline]
  · subst hline
    rw [Bool.not_eq_true] at hreq
    simp [Pic.pending, Pic.drop, hmask, regBit_not hi, hreq]
  · simp [Pic.pending, Pic.drop, hmask, regBit_not hi, Ne.symm hline]

/-- With nothing in service, what the pair asks for is the pending line of
    highest priority. -/
theorem request_spec (hfree : p.Free) {n : Nat} (h : p.request = some n) :
    p.Pending n ∧ n < 16 ∧ ∀ m, rank m < rank n → ¬ p.Pending m := by
  have hisr : p.wired.isr = 0 := wired_isr.trans hfree.master
  rw [request] at h
  cases hwired : p.wired.request with
  | none =>
      rw [hwired] at h
      cases h
  | some i =>
      obtain ⟨hi, hpend, hfirst⟩ := (Pic.request_eq_some_iff hisr).mp hwired
      rw [wired_pending hi] at hpend
      -- a line of the first controller in front of this one
      have hbefore : ∀ m < i, m ≠ cascadeLine → ¬ p.Pending m := by
        intro m hm hne hpm
        have hlow := hfirst m hm
        rw [wired_pending (Nat.lt_trans hm hi), if_neg hne] at hlow
        rw [Pending, if_pos (Nat.lt_trans hm hi), hlow] at hpm
        cases hpm.2
      rw [hwired] at h
      dsimp only at h
      split_ifs at h with hcas
      · subst hcas
        rw [if_pos rfl, Bool.and_eq_true, Bool.not_eq_true'] at hpend
        obtain ⟨j, hj, rfl⟩ := Option.map_eq_some_iff.mp h
        obtain ⟨hj8, hjpend, hjfirst⟩ := (Pic.request_eq_some_iff hfree.slave).mp hj
        refine ⟨?_, by omega, fun m hm hpm => ?_⟩
        · rw [Pending, if_neg (by omega), Nat.add_sub_cancel_left]
          exact ⟨by omega, hpend.2, hjpend⟩
        · rw [rank, rank, if_neg (by omega : ¬ 8 + j < 8)] at hm
          split_ifs at hm with hm8
          · rw [Pending, if_pos hm8] at hpm
            exact hbefore m (by omega) hpm.1 (by rwa [Pending, if_pos hm8])
          · rw [Pending, if_neg hm8, hjfirst (m - 8) (by omega)] at hpm
            cases hpm.2.2
      · obtain rfl := Option.some.inj h
        rw [if_neg hcas] at hpend
        refine ⟨?_, by omega, fun m hm hpm => ?_⟩
        · rw [Pending, if_pos hi]
          exact ⟨hcas, hpend⟩
        · rw [rank, rank, if_pos hi] at hm
          split_ifs at hm with hm8
          · rw [Pending, if_pos hm8] at hpm
            exact hbefore m (by omega) hpm.1 (by rwa [Pending, if_pos hm8])
          · -- a line of the second controller would be asked for first
            rw [Pending, if_neg hm8] at hpm
            have hslave : p.slave.request.isSome = true :=
              (Pic.request_isSome_iff hfree.slave).mpr ⟨m - 8, by omega, hpm.2.2⟩
            have hlow := hfirst cascadeLine (by omega)
            rw [wired_pending (by omega), if_pos rfl, hslave, hpm.2.1] at hlow
            cases hlow

/-- With nothing in service, a pending line is not held back. -/
theorem exists_request (hfree : p.Free) {n : Nat} (h : p.Pending n) :
    ∃ m, p.request = some m := by
  have hisr : p.wired.isr = 0 := wired_isr.trans hfree.master
  have hsome : p.wired.request.isSome = true := by
    rw [Pic.request_isSome_iff hisr]
    rw [Pending] at h
    split_ifs at h with hn
    · refine ⟨n, hn, ?_⟩
      rw [wired_pending hn, if_neg h.1]
      exact h.2
    · have hslave : p.slave.request.isSome = true :=
        (Pic.request_isSome_iff hfree.slave).mpr ⟨n - 8, by omega, h.2.2⟩
      refine ⟨cascadeLine, by decide, ?_⟩
      rw [wired_pending (by decide), if_pos rfl, hslave, h.2.1]
      rfl
  obtain ⟨i, hi⟩ := Option.isSome_iff_exists.mp hsome
  rw [request, hi]
  dsimp only
  split_ifs with hcas
  · subst hcas
    obtain ⟨hi8, hpend, -⟩ := (Pic.request_eq_some_iff hisr).mp hi
    rw [wired_pending hi8, if_pos rfl, Bool.and_eq_true] at hpend
    obtain ⟨j, hj⟩ := Option.isSome_iff_exists.mp hpend.1
    exact ⟨8 + j, by rw [hj]; rfl⟩
  · exact ⟨i, rfl⟩

/-- A line that alone is pending is asked for. -/
theorem request_eq_ite (hfree : p.Free) {n : Nat} (honly : ∀ m, p.Pending m → m = n) :
    p.request = if p.Pending n then some n else none := by
  cases hreq : p.request with
  | none =>
      rw [if_neg]
      intro hn
      obtain ⟨m, hm⟩ := exists_request hfree hn
      rw [hreq] at hm
      cases hm
  | some m =>
      obtain ⟨hm, -, -⟩ := request_spec hfree hreq
      obtain rfl := honly m hm
      rw [if_pos hm]

/-! ### What is in service -/

/-- An end of interrupt to the first controller, or to both. -/
def eoi (p : PicPair) (slave : Bool) : PicPair :=
  { master := p.master.eoi, slave := if slave then p.slave.eoi else p.slave }

theorem eoi_free_congr {q : PicPair} (hmaster : q.master.isr = p.master.isr)
    (hslave : q.slave.isr = p.slave.isr) (b : Bool) : (q.eoi b).Free ↔ (p.eoi b).Free := by
  have hm : (q.eoi b).master.isr = (p.eoi b).master.isr := Pic.eoi_isr_congr hmaster
  have hs : (q.eoi b).slave.isr = (p.eoi b).slave.isr := by
    cases b with
    | false => exact hslave
    | true => exact Pic.eoi_isr_congr hslave
  constructor
  · intro h
    exact ⟨hm.symm.trans h.master, hs.symm.trans h.slave⟩
  · intro h
    exact ⟨hm.trans h.master, hs.trans h.slave⟩

/-- What is put in service for a line is taken out by one end of interrupt to
    each controller that has acknowledged. -/
theorem free_ack_eoi (hc : p.Cascaded) (hfree : p.Free) {n : Nat} (hn : n < 16) :
    ((p.ack n).eoi (decide (8 ≤ n))).Free := by
  rw [ack]
  split_ifs with hlow
  · have hmaster := Pic.ack_isr hc.master_auto hfree.master n
    rw [decide_eq_false (by omega)]
    exact ⟨by rw [eoi, Pic.eoi_of_isr_eq_lineMask hlow hmaster], hfree.slave⟩
  · have hmaster := Pic.putInService_isr hc.master_auto hfree.master cascadeLine
    have hslave := Pic.ack_isr hc.slave_auto hfree.slave (n - 8)
    rw [decide_eq_true (by omega)]
    refine ⟨?_, ?_⟩
    · rw [eoi, Pic.eoi_of_isr_eq_lineMask (by decide) hmaster]
    · rw [eoi, if_pos rfl, Pic.eoi_of_isr_eq_lineMask (by omega) hslave]

/-- So it is where the request has gone away. -/
theorem free_ackSpurious_eoi (hc : p.Cascaded) (hfree : p.Free) (slave : Bool) :
    ((p.ackSpurious slave).eoi slave).Free := by
  cases slave with
  | false =>
      refine ⟨?_, hfree.slave⟩
      show p.master.eoi.isr = 0
      rw [Pic.eoi_of_isr_eq_zero hfree.master, hfree.master]
  | true =>
      have hmaster := Pic.putInService_isr hc.master_auto hfree.master cascadeLine
      refine ⟨?_, ?_⟩
      · show (p.master.putInService cascadeLine).eoi.isr = 0
        rw [Pic.eoi_of_isr_eq_lineMask (by decide) hmaster]
      · show p.slave.eoi.isr = 0
        rw [Pic.eoi_of_isr_eq_zero hfree.slave, hfree.slave]

/-! ### Serving one line after the other -/

/-- The lines in the order of their priority; the cascade is none of them. -/
def lineOrder : List Nat := [0, 1, 8, 9, 10, 11, 12, 13, 14, 15, 3, 4, 5, 6, 7]

theorem lineOrder_pairwise : lineOrder.Pairwise fun m n => rank m < rank n := by decide

theorem mem_lineOrder_iff {n : Nat} : n ∈ lineOrder ↔ n < 16 ∧ n ≠ cascadeLine := by
  constructor
  · intro h
    have hall : ∀ m ∈ lineOrder, m < 16 ∧ m ≠ cascadeLine := by decide
    exact hall n h
  · rintro ⟨hn, hcas⟩
    have hall : ∀ m < 16, m ≠ cascadeLine → m ∈ lineOrder := by decide
    exact hall n hn hcas

theorem Pending.mem_lineOrder {n : Nat} (h : p.Pending n) : n ∈ lineOrder := by
  rw [mem_lineOrder_iff]
  rw [Pending] at h
  split_ifs at h with hn
  · exact ⟨by omega, h.1⟩
  · exact ⟨h.1, by rw [cascadeLine]; omega⟩

/-- The pending lines in the order of their priority. -/
def pendingLines (p : PicPair) : List Nat := lineOrder.filter fun n => decide (p.Pending n)

theorem mem_pendingLines {n : Nat} : n ∈ p.pendingLines ↔ p.Pending n := by
  rw [pendingLines, List.mem_filter, decide_eq_true_iff]
  exact ⟨And.right, fun h => ⟨h.mem_lineOrder, h⟩⟩

theorem pendingLines_pairwise (p : PicPair) :
    p.pendingLines.Pairwise fun m n => rank m < rank n := lineOrder_pairwise.filter _

/-- What the pair asks for is the first one. -/
theorem request_eq_head? (hfree : p.Free) : p.request = p.pendingLines.head? := by
  cases hlines : p.pendingLines with
  | nil =>
      cases hreq : p.request with
      | none => rfl
      | some n =>
          have hmem := mem_pendingLines.mpr (request_spec hfree hreq).1
          rw [hlines] at hmem
          cases hmem
  | cons n rest =>
      have hn : p.Pending n := mem_pendingLines.mp (by rw [hlines]; exact List.mem_cons_self)
      obtain ⟨m, hm⟩ := exists_request hfree hn
      obtain ⟨hpend, -, hfirst⟩ := request_spec hfree hm
      have hmem := mem_pendingLines.mpr hpend
      have hsorted := p.pendingLines_pairwise
      rw [hlines] at hmem hsorted
      rw [hm, List.head?_cons]
      rcases List.mem_cons.mp hmem with rfl | hlater
      · rfl
      · exact absurd hn (hfirst n ((List.pairwise_cons.mp hsorted).1 m hlater))

/-- A line that has been acknowledged is pending no more, the others are as
    they were; an end of interrupt changes nothing about that. -/
theorem pending_ack_eoi {n m : Nat} (hn : n ∈ lineOrder) (slave : Bool) :
    ((p.ack n).eoi slave).Pending m ↔ p.Pending m ∧ m ≠ n := by
  obtain ⟨hn16, hcas⟩ := mem_lineOrder_iff.mp hn
  have hslave : (if slave then ((p.ack n).slave).eoi else (p.ack n).slave).pending (m - 8) =
      (p.ack n).slave.pending (m - 8) := by
    split
    · exact Pic.eoi_pending _
    · rfl
  rw [Pending, Pending, eoi]
  dsimp only
  rw [Pic.eoi_pending, Pic.eoi_imr, hslave, ack]
  by_cases hn8 : n < 8 <;> by_cases hm8 : m < 8
  · rw [if_pos hn8, if_pos hm8, if_pos hm8, Pic.ack, Pic.putInService_pending,
      Pic.drop_pending hm8, Bool.and_eq_true, Bool.not_eq_true', decide_eq_false_iff_not, and_assoc,
      ne_comm (a := m) (b := n)]
  · rw [if_pos hn8, if_neg hm8, if_neg hm8, Pic.ack, Pic.putInService_imr]
    have hne : m ≠ n := by omega
    simp only [Pic.drop, hne, ne_eq, not_false_eq_true, and_true]
  · rw [if_neg hn8, if_pos hm8, if_pos hm8]
    have hne : m ≠ n := by omega
    simp only [Pic.putInService_pending, hne, ne_eq, not_false_eq_true, and_true]
  · rw [if_neg hn8, if_neg hm8, if_neg hm8]
    dsimp only
    rw [Pic.putInService_imr, Pic.ack, Pic.putInService_pending]
    by_cases hm16 : m < 16
    · rw [Pic.drop_pending (by omega), Bool.and_eq_true, Bool.not_eq_true', decide_eq_false_iff_not]
      have hne : n - 8 = m - 8 ↔ m = n := by omega
      rw [hne, and_assoc, and_assoc]
    · simp only [hm16, false_and]

/-- **Serving the line asked for** takes it off the list. -/
theorem pendingLines_serve (hfree : p.Free) {n : Nat} (h : p.request = some n) (slave : Bool) :
    p.pendingLines = n :: ((p.ack n).eoi slave).pendingLines := by
  rw [request_eq_head? hfree] at h
  obtain ⟨rest, hlines⟩ := List.head?_eq_some_iff.mp h
  have hn : p.Pending n := mem_pendingLines.mp (by rw [hlines]; exact List.mem_cons_self)
  have hsorted := p.pendingLines_pairwise
  rw [hlines, List.pairwise_cons] at hsorted
  have hrest : ((p.ack n).eoi slave).pendingLines = p.pendingLines.filter fun m => m ≠ n := by
    rw [pendingLines, pendingLines, List.filter_filter]
    congr 1
    funext m
    simp only [pending_ack_eoi hn.mem_lineOrder, Bool.decide_and, Bool.and_comm]
  have hne : ∀ m ∈ rest, decide (m ≠ n) = true := by
    intro m hm
    have hlt := hsorted.1 m hm
    rw [decide_eq_true_iff]
    rintro rfl
    exact Nat.lt_irrefl _ hlt
  rw [hrest, hlines, List.filter_cons_of_neg (by simp), List.filter_eq_self.mpr hne]

end PicPair

end LBoot.Lib
