/-
  LBoot.Intr.Interrupts

  The interrupts as a whole (src/intr/interrupts.c, src/bios/bios.c).

  A device raises its line or takes its request back; the processor
  acknowledges what the controllers ask for, which clears the interrupt flag,
  and `interrupt_wrapper` runs: it calls the handler registered for the
  interrupt, sends the end of interrupt and returns, which sets the flag again.
  In between, and outside of it, the program enables and disables interrupts,
  registers handlers and calls the BIOS, in any order.

  Where the interrupt flag is set, nothing is in service, so nothing that is
  requested and unmasked waits for anything but its turn (`run_inv`,
  `drain`).  This rests on one end of interrupt for each interrupt, also for
  one whose request has gone away.
-/

import LBoot.Lib.Tally
import LBoot.Intr.Pic

namespace LBoot.Intr

open LBoot.Lib

/-! ## Handlers -/

/-- `INT_ID_MAX`. -/
abbrev intIdMax : Nat := 48

/-- `isr_entry_t`; the handler `none` is NULL. -/
structure IsrEntry (H : Type*) where
  data : UInt32
  handler : Option H
  deriving DecidableEq, Repr

/-- `_isr_handlers`. -/
abbrev IsrHandlers (H : Type*) : Type _ := Vector (IsrEntry H) intIdMax

variable {H σ : Type*}

/-- `memset(&_isr_handlers, 0, sizeof(_isr_handlers))`. -/
def isrCleared : IsrHandlers H := Vector.replicate intIdMax ⟨0, none⟩

/-- `interrupt_register`. -/
def interruptRegister (intId : UInt8) (handler : Option H) (data : UInt32) (t : IsrHandlers H) :
    Int × IsrHandlers H :=
  if h : intId.toNat < intIdMax then (0, t.set intId.toNat ⟨data, handler⟩) else (-1, t)

/-- What `interrupt_wrapper` calls. -/
inductive WrapperCall (H : Type*) where
  | handler (h : H) (intId : UInt8) (errcode data : UInt32)
  /-- `_handle_exception`, which does not return -/
  | exception (intId errcode : UInt32)
  | nothing
  deriving DecidableEq, Repr

/-- The first `if` of `interrupt_wrapper`. -/
def wrapperCall (t : IsrHandlers H) (intId errcode : UInt32) : WrapperCall H :=
  let entry : IsrEntry H := if h : intId.toNat < intIdMax then t.get ⟨intId.toNat, h⟩ else ⟨0, none⟩
  match entry.handler with
  | some h => .handler h intId.toUInt8 errcode entry.data
  | none => if intId < 32 then .exception intId errcode else .nothing

/-- The second one. -/
def wrapperEoi (intId : UInt32) (p : PicPair) : PicPair :=
  if intId ≥ 32 ∧ intId < 32 + 8 then picEoi (intId - 32).toUInt8 p
  else if intId ≥ 40 ∧ intId < 40 + 8 then picEoi (intId - 40 + 8).toUInt8 p
  else p

/-! ## The machine -/

/-- The interrupts, and what the handlers work on. -/
structure IntrState (H σ : Type*) where
  pics : PicPair
  /-- `EFLAGS_IF` -/
  intFlag : Bool
  handlers : IsrHandlers H
  /-- the interrupt whose wrapper runs -/
  active : Option UInt32
  mem : σ

/-- `interrupts_init`; the descriptor table is left to `LBoot.Intr.Idt`. -/
def interruptsInit (s : IntrState H σ) : IntrState H σ :=
  { s with
    pics := picRemap picOffsetMaster picOffsetSlave s.pics
    handlers := isrCleared
    intFlag := true }

/-- What the machine is given: the handlers, and the BIOS in between the two
    calls of `pic_remap`. -/
structure IntrEnv (H σ : Type*) where
  exec : H → UInt8 → UInt32 → UInt32 → σ → σ
  bios : PicPair → PicPair

/-- `bios_call`, as far as the controllers go. -/
def biosCallPics (bios : PicPair → PicPair) (p : PicPair) : PicPair :=
  picRemap picOffsetMaster picOffsetSlave (bios (picRemap 0x08 0x70 p))

inductive IntrEvent (H : Type*) where
  /-- a device raises its line -/
  | raise (n : Nat)
  /-- a device takes its request back -/
  | drop (n : Nat)
  /-- the interrupt is acknowledged, and the wrapper calls the handler -/
  | accept
  /-- it is, but the request has gone away -/
  | spurious (slave : Bool)
  /-- the rest of the wrapper -/
  | leave
  /-- `interrupts_enable` and `interrupts_disable` -/
  | sti
  | cli
  | enable (intId : UInt8)
  | disable (intId : UInt8)
  | register (intId : UInt8) (handler : Option H) (data : UInt32)
  | biosCall
  deriving DecidableEq, Repr

/-- The handler that `interrupt_wrapper` calls has done its work; an exception
    ends the run. -/
def runCall (exec : H → UInt8 → UInt32 → UInt32 → σ → σ) (m : σ) : WrapperCall H → Option σ
  | .handler h intId errcode data => some (exec h intId errcode data m)
  | .exception _ _ => none
  | .nothing => some m

/-- The processor enters the wrapper of the vector; the error code is the
    zero that the wrapper itself pushes.  Behind the last vector there is no
    descriptor. -/
def enter (env : IntrEnv H σ) (s : IntrState H σ) (p : PicPair) (vector : UInt8) :
    Option (IntrState H σ) :=
  if vector.toNat < intIdMax then
    (runCall env.exec s.mem (wrapperCall s.handlers vector.toUInt32 0)).map fun m =>
      { s with pics := p, intFlag := false, active := some vector.toUInt32, mem := m }
  else none

def intrStep (env : IntrEnv H σ) (s : IntrState H σ) : IntrEvent H → Option (IntrState H σ)
  | .raise n => if n ∈ PicPair.lineOrder then some { s with pics := s.pics.raise n } else none
  | .drop n => if n ∈ PicPair.lineOrder then some { s with pics := s.pics.drop n } else none
  | .accept =>
      if s.intFlag then
        s.pics.request.bind fun n => enter env s (s.pics.ack n) (s.pics.vector n)
      else none
  | .spurious slave =>
      if s.intFlag then
        enter env s (s.pics.ackSpurious slave) (s.pics.vector (if slave then 15 else 7))
      else none
  | .leave =>
      match s.active with
      | none => none
      | some intId =>
          some { s with pics := wrapperEoi intId s.pics, intFlag := true, active := none }
  | .sti => if s.active = none then some { s with intFlag := true } else none
  | .cli => if s.active = none then some { s with intFlag := false } else none
  | .enable intId => some { s with pics := (interruptEnable intId s.pics).2 }
  | .disable intId => some { s with pics := (interruptDisable intId s.pics).2 }
  | .register intId handler data =>
      some { s with handlers := (interruptRegister intId handler data s.handlers).2 }
  | .biosCall =>
      if s.active = none then some { s with pics := biosCallPics env.bios s.pics } else none

def intrMachine (env : IntrEnv H σ) : Machine (IntrState H σ) (IntrEvent H) := ⟨intrStep env⟩

@[simp] theorem intrMachine_step (env : IntrEnv H σ) (s : IntrState H σ) (e : IntrEvent H) :
    (intrMachine env).step s e = intrStep env s e := rfl

/-! ## The invariant -/

/-- What `interrupts_init` has set up, and no interrupt changes. -/
structure Remapped (p : PicPair) : Prop where
  cascaded : p.Cascaded
  master_base : p.master.base = picOffsetMaster
  slave_base : p.slave.base = picOffsetSlave

/-- With the interrupt flag set, no wrapper runs.  Nothing is in service but
    for the wrapper that runs, whose end of interrupt takes it out. -/
structure Inv (s : IntrState H σ) : Prop where
  remapped : Remapped s.pics
  flag : s.intFlag = true → s.active = none
  free : s.active = none → s.pics.Free
  serving : ∀ intId, s.active = some intId → (wrapperEoi intId s.pics).Free

/-- The two pairs differ in requests and masks at most. -/
structure SameService (p q : PicPair) : Prop where
  master_isr : q.master.isr = p.master.isr
  slave_isr : q.slave.isr = p.slave.isr
  remapped : Remapped p → Remapped q

theorem Remapped.ready {p : PicPair} (h : Remapped p) : Ready p :=
  ⟨h.cascaded.master_ready, h.cascaded.slave_ready⟩

theorem picRemap_remapped (p : PicPair) :
    Remapped (picRemap picOffsetMaster picOffsetSlave p) :=
  ⟨picRemap_cascaded _ _ _, (by decide : picOffsetMaster &&& 0xf8 = picOffsetMaster),
    (by decide : picOffsetSlave &&& 0xf8 = picOffsetSlave)⟩

theorem SameService.refl (p : PicPair) : SameService p p := ⟨rfl, rfl, id⟩

/-- Requests and masks of each controller alone are changed. -/
theorem sameService_of_pics {p : PicPair} (irrM imrM irrS imrS : UInt8) :
    SameService p
      { master := { p.master with irr := irrM, imr := imrM }
        slave := { p.slave with irr := irrS, imr := imrS } } := by
  refine ⟨rfl, rfl, fun h => ?_⟩
  have hc := h.cascaded
  exact ⟨⟨hc.master_ready, hc.slave_ready, hc.master_icw3, hc.slave_icw3, hc.master_auto,
    hc.slave_auto⟩, h.master_base, h.slave_base⟩

theorem sameService_raise (p : PicPair) (n : Nat) : SameService p (p.raise n) := by
  rw [PicPair.raise]
  split
  · exact sameService_of_pics _ _ _ _
  · exact sameService_of_pics _ _ _ _

theorem sameService_drop (p : PicPair) (n : Nat) : SameService p (p.drop n) := by
  rw [PicPair.drop]
  split
  · exact sameService_of_pics _ _ _ _
  · exact sameService_of_pics _ _ _ _

theorem sameService_setLine (p : PicPair) (n : Nat) (masked : Bool) :
    SameService p (setLine p n masked) := by
  rw [setLine]
  split
  · exact sameService_of_pics _ _ _ _
  · exact sameService_of_pics _ _ _ _

theorem sameService_enable {p : PicPair} (h : Remapped p) (intId : UInt8) :
    SameService p (interruptEnable intId p).2 := by
  rw [interruptEnable_eq h.ready]
  split
  · exact sameService_setLine p _ _
  · exact SameService.refl p

theorem sameService_disable {p : PicPair} (h : Remapped p) (intId : UInt8) :
    SameService p (interruptDisable intId p).2 := by
  rw [interruptDisable_eq h.ready]
  split
  · exact sameService_setLine p _ _
  · exact SameService.refl p

/-! ### Entering and leaving the wrapper -/

/-- Acknowledging and ending leave the controllers set up. -/
theorem Remapped.ack {p : PicPair} (h : Remapped p) (n : Nat) : Remapped (p.ack n) := by
  have hput (q : Pic) (i : Nat) : ∃ isr, q.putInService i = { q with isr } := by
    rw [Pic.putInService]
    split
    · exact ⟨q.isr, rfl⟩
    · exact ⟨_, rfl⟩
  have hc := h.cascaded
  rw [PicPair.ack]
  split
  · obtain ⟨isr, heq⟩ := hput (p.master.drop n) n
    rw [Pic.ack, heq]
    exact ⟨⟨hc.master_ready, hc.slave_ready, hc.master_icw3, hc.slave_icw3, hc.master_auto,
      hc.slave_auto⟩, h.master_base, h.slave_base⟩
  · obtain ⟨isr, heq⟩ := hput p.master cascadeLine
    obtain ⟨isr', heq'⟩ := hput (p.slave.drop (n - 8)) (n - 8)
    rw [Pic.ack, heq, heq']
    exact ⟨⟨hc.master_ready, hc.slave_ready, hc.master_icw3, hc.slave_icw3, hc.master_auto,
      hc.slave_auto⟩, h.master_base, h.slave_base⟩

theorem Remapped.ackSpurious {p : PicPair} (h : Remapped p) (slave : Bool) :
    Remapped (p.ackSpurious slave) := by
  have hc := h.cascaded
  cases slave with
  | false => exact h
  | true =>
      rw [PicPair.ackSpurious, if_pos rfl, Pic.putInService, hc.master_auto,
        if_neg Bool.false_ne_true]
      exact ⟨⟨hc.master_ready, hc.slave_ready, hc.master_icw3, hc.slave_icw3, hc.master_auto,
        hc.slave_auto⟩, h.master_base, h.slave_base⟩

theorem Remapped.eoi {p : PicPair} (h : Remapped p) (slave : Bool) : Remapped (p.eoi slave) := by
  have heoi (q : Pic) : ∃ isr, q.eoi = { q with isr } := by
    rw [Pic.eoi]
    split
    · exact ⟨q.isr, rfl⟩
    · exact ⟨_, rfl⟩
  have hc := h.cascaded
  obtain ⟨isr, heq⟩ := heoi p.master
  obtain ⟨isr', heq'⟩ := heoi p.slave
  rw [PicPair.eoi, heq, heq']
  cases slave with
  | false =>
      exact ⟨⟨hc.master_ready, hc.slave_ready, hc.master_icw3, hc.slave_icw3, hc.master_auto,
        hc.slave_auto⟩, h.master_base, h.slave_base⟩
  | true =>
      exact ⟨⟨hc.master_ready, hc.slave_ready, hc.master_icw3, hc.slave_icw3, hc.master_auto,
        hc.slave_auto⟩, h.master_base, h.slave_base⟩

/-- The lines are the interrupts from 32 on. -/
theorem vector_eq {p : PicPair} (h : Remapped p) (n : Nat) :
    p.vector n = UInt8.ofNat (32 + n) := by
  rw [PicPair.vector, h.master_base, h.slave_base]
  split
  · exact (UInt8.ofNat_add 32 n).symm
  · have hsum : 32 + n = 40 + (n - 8) := by omega
    rw [hsum]
    exact (UInt8.ofNat_add 40 (n - 8)).symm

theorem toUInt32_ofNat_irq {n : Nat} (hn : n < 16) :
    (UInt8.ofNat (32 + n)).toUInt32.toNat = 32 + n := by
  rw [UInt8.toNat_toUInt32, UInt8.toNat_ofNat_of_lt' (by rw [UInt8.size]; omega)]

/-- The end of interrupt that the wrapper sends. -/
theorem wrapperEoi_eq (intId : UInt32) (p : PicPair) :
    wrapperEoi intId p =
      if 32 ≤ intId.toNat ∧ intId.toNat < 48 then p.eoi (decide (40 ≤ intId.toNat)) else p := by
  have h32 : (32 : UInt32).toNat = 32 := rfl
  have h40 : (40 : UInt32).toNat = 40 := rfl
  have h8 : (8 : UInt32).toNat = 8 := rfl
  have hm : (32 + 8 : UInt32).toNat = 40 := rfl
  have hs : (40 + 8 : UInt32).toNat = 48 := rfl
  have h8' : (8 : UInt8).toNat = 8 := rfl
  have hlt := intId.toNat_lt
  rw [wrapperEoi]
  simp only [ge_iff_le, UInt32.le_iff_toNat_le, UInt32.lt_iff_toNat_lt, h32, h40, hm, hs]
  split_ifs with hmaster hirq hslave hirq hirq
  · rw [picEoi_eq, decide_eq_false (by omega : ¬ 40 ≤ intId.toNat), decide_eq_false]
    rw [ge_iff_le, UInt8.le_iff_toNat_le, UInt32.toNat_toUInt8, UInt32.toNat_sub, h32, h8']
    omega
  · exact absurd ⟨hmaster.1, by omega⟩ hirq
  · rw [picEoi_eq, decide_eq_true (by omega : 40 ≤ intId.toNat), decide_eq_true]
    rw [ge_iff_le, UInt8.le_iff_toNat_le, UInt32.toNat_toUInt8, UInt32.toNat_add, UInt32.toNat_sub,
      h40, h8, h8']
    omega
  · exact absurd ⟨by omega, hslave.2⟩ hirq
  · omega
  · rfl

/-- So the second controller is sent one for its own lines. -/
theorem wrapperEoi_irq {n : Nat} (hn : n < 16) (p : PicPair) :
    wrapperEoi (UInt8.ofNat (32 + n)).toUInt32 p = p.eoi (decide (8 ≤ n)) := by
  rw [wrapperEoi_eq, toUInt32_ofNat_irq hn, if_pos (by omega)]
  congr 1
  rw [decide_eq_decide]
  omega

/-! ### The steps -/

variable {env : IntrEnv H σ} {s t u : IntrState H σ}

theorem inv_of_sameService (h : Inv s) {p : PicPair} (hp : SameService s.pics p) :
    Inv { s with pics := p } where
  remapped := hp.remapped h.remapped
  flag := h.flag
  free := by
    intro hnone
    have hfree := h.free hnone
    exact ⟨hp.master_isr.trans hfree.master, hp.slave_isr.trans hfree.slave⟩
  serving := by
    intro intId hactive
    have hfree := h.serving intId hactive
    rw [wrapperEoi_eq] at hfree ⊢
    split
    · rename_i hirq
      rw [if_pos hirq] at hfree
      exact (PicPair.eoi_free_congr hp.master_isr hp.slave_isr _).mpr hfree
    · rename_i hirq
      rw [if_neg hirq] at hfree
      exact ⟨hp.master_isr.trans hfree.master, hp.slave_isr.trans hfree.slave⟩

theorem enter_eq_some {p : PicPair} {vector : UInt8} (h : enter env s p vector = some t) :
    ∃ m, runCall env.exec s.mem (wrapperCall s.handlers vector.toUInt32 0) = some m ∧
      t = { s with pics := p, intFlag := false, active := some vector.toUInt32, mem := m } := by
  rw [enter] at h
  split at h
  · obtain ⟨m, hm, ht⟩ := Option.map_eq_some_iff.mp h
    exact ⟨m, hm, ht.symm⟩
  · cases h

/-- A line that is acknowledged, or one that is answered in its place. -/
theorem inv_enter {p : PicPair} {n : Nat} (hn : n < 16) (hp : Remapped p)
    (hfree : (p.eoi (decide (8 ≤ n))).Free) {m : σ} :
    Inv { s with
      pics := p
      intFlag := false
      active := some (UInt8.ofNat (32 + n)).toUInt32
      mem := m } where
  remapped := hp
  flag := by
    intro h
    cases h
  free := by
    intro h
    cases h
  serving := by
    intro intId hactive
    obtain rfl := Option.some.inj hactive
    exact (wrapperEoi_irq hn p).symm ▸ hfree

theorem inv_step (hbios : ∀ p : PicPair, p.Free → (env.bios p).Free) (e : IntrEvent H) (h : Inv s)
    (hstep : intrStep env s e = some t) : Inv t := by
  cases e with
  | raise n =>
      rw [intrStep, Option.ite_none_right_eq_some] at hstep
      obtain rfl := Option.some.inj hstep.2
      exact inv_of_sameService h (sameService_raise _ n)
  | drop n =>
      rw [intrStep, Option.ite_none_right_eq_some] at hstep
      obtain rfl := Option.some.inj hstep.2
      exact inv_of_sameService h (sameService_drop _ n)
  | accept =>
      rw [intrStep, Option.ite_none_right_eq_some, Option.bind_eq_some_iff] at hstep
      obtain ⟨hflag, n, hreq, henter⟩ := hstep
      -- interrupts are on, so no handler is active and nothing is in service
      have hfree := h.free (h.flag hflag)
      obtain ⟨-, hn, -⟩ := PicPair.request_spec hfree hreq
      obtain ⟨m, -, rfl⟩ := enter_eq_some henter
      rw [vector_eq h.remapped]
      exact inv_enter hn (h.remapped.ack n) (PicPair.free_ack_eoi h.remapped.cascaded hfree hn)
  | spurious slave =>
      rw [intrStep, Option.ite_none_right_eq_some] at hstep
      obtain ⟨hflag, henter⟩ := hstep
      have hfree := h.free (h.flag hflag)
      have hended := PicPair.free_ackSpurious_eoi h.remapped.cascaded hfree slave
      obtain ⟨m, -, rfl⟩ := enter_eq_some henter
      rw [vector_eq h.remapped]
      cases slave with
      | false => exact inv_enter (n := 7) (by decide) (h.remapped.ackSpurious false) hended
      | true => exact inv_enter (n := 15) (by decide) (h.remapped.ackSpurious true) hended
  | leave =>
      rw [intrStep] at hstep
      cases hactive : s.active with
      | none =>
          rw [hactive] at hstep
          cases hstep
      | some intId =>
          rw [hactive] at hstep
          obtain rfl := Option.some.inj hstep
          -- the end that is given now frees the controllers
          have hfree := h.serving intId hactive
          refine ⟨?_, fun _ => rfl, fun _ => hfree, ?_⟩
          · show Remapped (wrapperEoi intId s.pics)
            rw [wrapperEoi_eq]
            split
            · exact h.remapped.eoi _
            · exact h.remapped
          · intro intId hnone
            cases hnone
  | sti =>
      rw [intrStep, Option.ite_none_right_eq_some] at hstep
      obtain ⟨hnone, hstep⟩ := hstep
      obtain rfl := Option.some.inj hstep
      exact ⟨h.remapped, fun _ => hnone, h.free, h.serving⟩
  | cli =>
      rw [intrStep, Option.ite_none_right_eq_some] at hstep
      obtain ⟨hnone, hstep⟩ := hstep
      obtain rfl := Option.some.inj hstep
      exact ⟨h.remapped, fun _ => hnone, h.free, h.serving⟩
  | enable intId =>
      obtain rfl := Option.some.inj hstep
      exact inv_of_sameService h (sameService_enable h.remapped intId)
  | disable intId =>
      obtain rfl := Option.some.inj hstep
      exact inv_of_sameService h (sameService_disable h.remapped intId)
  | register intId handler data =>
      obtain rfl := Option.some.inj hstep
      exact ⟨h.remapped, h.flag, h.free, h.serving⟩
  | biosCall =>
      rw [intrStep, Option.ite_none_right_eq_some] at hstep
      obtain ⟨hnone, hstep⟩ := hstep
      obtain rfl := Option.some.inj hstep
      -- remapping leaves what is in service as it is
      have hfree := hbios (picRemap 0x08 0x70 s.pics) ⟨(h.free hnone).master, (h.free hnone).slave⟩
      refine ⟨picRemap_remapped _, h.flag, fun _ => ⟨hfree.master, hfree.slave⟩, ?_⟩
      intro intId hactive
      rw [hnone] at hactive
      cases hactive

theorem interruptsInit_inv (hfree : s.pics.Free) (hactive : s.active = none) :
    Inv (interruptsInit s) where
  remapped := picRemap_remapped _
  flag := fun _ => hactive
  free := fun _ => ⟨hfree.master, hfree.slave⟩
  serving := by
    intro intId h
    rw [show (interruptsInit s).active = none from hactive] at h
    cases h

theorem run_inv (hbios : ∀ p : PicPair, p.Free → (env.bios p).Free) (h : Inv s)
    {es : List (IntrEvent H)} (hrun : (intrMachine env).run s es = some t) : Inv t :=
  Machine.run_invariant (fun _ e _ => inv_step hbios e) h hrun

/-! ## Nothing waits for anything but its turn -/

/-- What serving a line does to what the handlers work on. -/
def serve (env : IntrEnv H σ) (handlers : IsrHandlers H) (m : σ) (n : Nat) : σ :=
  if h : 32 + n < intIdMax then
    match (handlers.get ⟨32 + n, h⟩).handler with
    | none => m
    | some f => env.exec f (UInt8.ofNat (32 + n)) 0 (handlers.get ⟨32 + n, h⟩).data m
  else m

theorem runCall_wrapperCall {n : Nat} (hn : n < 16) (handlers : IsrHandlers H) (m : σ) :
    runCall env.exec m (wrapperCall handlers (UInt8.ofNat (32 + n)).toUInt32 0) =
      some (serve env handlers m n) := by
  have hid := toUInt32_ofNat_irq hn
  have hmax : 32 + n < intIdMax := by
    rw [intIdMax]
    omega
  have hlow : ¬ (UInt8.ofNat (32 + n)).toUInt32 < 32 := by
    rw [UInt32.lt_iff_toNat_lt, hid]
    exact Nat.not_lt.mpr (Nat.le_add_right 32 n)
  rw [wrapperCall, serve, dif_pos hmax]
  simp only [hid, dif_pos hmax]
  cases (handlers.get ⟨32 + n, hmax⟩).handler with
  | none => rw [if_neg hlow, runCall]
  | some f => rw [runCall, UInt8.toUInt8_toUInt32]

/-- One interrupt, from its acknowledgement to the return. -/
theorem accept_leave (h : Inv s) (hflag : s.intFlag = true) {n : Nat}
    (hreq : s.pics.request = some n) :
    (intrMachine env).run s [.accept, .leave] =
      some { s with
        pics := (s.pics.ack n).eoi (decide (8 ≤ n))
        mem := serve env s.handlers s.mem n } := by
  have hfree := h.free (h.flag hflag)
  obtain ⟨-, hn, -⟩ := PicPair.request_spec hfree hreq
  have hlt : (UInt8.ofNat (32 + n)).toNat < intIdMax := by
    rw [UInt8.toNat_ofNat_of_lt' (by rw [UInt8.size]; omega), intIdMax]
    omega
  have haccept : intrStep env s .accept =
      some { s with
        pics := s.pics.ack n
        intFlag := false
        active := some (UInt8.ofNat (32 + n)).toUInt32
        mem := serve env s.handlers s.mem n } := by
    rw [intrStep, if_pos hflag, hreq, Option.bind_some, enter, vector_eq h.remapped, if_pos hlt,
      runCall_wrapperCall hn, Option.map_some]
  rw [Machine.run_cons, intrMachine_step, haccept, Option.bind_some, Machine.run_cons,
    intrMachine_step, intrStep]
  dsimp only
  rw [Option.bind_some, Machine.run_nil, wrapperEoi_irq hn, hflag, h.flag hflag]

/-- The interrupts taken one after the other while nothing else happens. -/
def acceptAll (k : Nat) : List (IntrEvent H) := (List.replicate k [.accept, .leave]).flatten

theorem acceptAll_succ (k : Nat) :
    acceptAll (H := H) (k + 1) = [.accept, .leave] ++ acceptAll k := by
  rw [acceptAll, List.replicate_succ, List.flatten_cons, acceptAll]

/-- From a state of the invariant, with the flag set, the pending lines are
    served in the order of their priority, each once. -/
theorem drain_of_inv (env : IntrEnv H σ) {lines : List Nat} (h : Inv s) (hflag : s.intFlag = true)
    (hlines : s.pics.pendingLines = lines) :
    ∃ p, (intrMachine env).run s (acceptAll lines.length) =
        some { s with pics := p, mem := lines.foldl (serve env s.handlers) s.mem } ∧
      p.pendingLines = [] := by
  induction lines generalizing s with
  | nil => exact ⟨s.pics, rfl, hlines⟩
  | cons n lines ih =>
      have hfree := h.free (h.flag hflag)
      have hreq : s.pics.request = some n := by
        rw [PicPair.request_eq_head? hfree, hlines, List.head?_cons]
      obtain ⟨-, hn, -⟩ := PicPair.request_spec hfree hreq
      have hserve := PicPair.pendingLines_serve hfree hreq (decide (8 ≤ n))
      rw [hlines, List.cons.injEq] at hserve
      have hnext : Inv { s with
          pics := (s.pics.ack n).eoi (decide (8 ≤ n))
          mem := serve env s.handlers s.mem n } := by
        refine ⟨(h.remapped.ack n).eoi _, h.flag, fun _ => ?_, ?_⟩
        · exact PicPair.free_ack_eoi h.remapped.cascaded hfree hn
        · intro intId hactive
          exact absurd (hactive.symm.trans (h.flag hflag)) (Option.some_ne_none _)
      obtain ⟨p, hrun, hnone⟩ := ih hnext hflag hserve.2.symm
      refine ⟨p, ?_, hnone⟩
      rw [List.length_cons, acceptAll_succ, Machine.run_append, accept_leave h hflag hreq,
        Option.bind_some, hrun]
      rfl

/-- **The interrupts**: after any run from `interrupts_init` on, where the
    interrupt flag is set no wrapper runs and nothing is in service, and what
    is pending, and nothing else, gets its handler called once each, in the
    order of the lines' priority, as soon as nothing else happens. -/
theorem run_served (hbios : ∀ p : PicPair, p.Free → (env.bios p).Free) (hfree : s.pics.Free)
    (hactive : s.active = none) {es : List (IntrEvent H)}
    (hrun : (intrMachine env).run (interruptsInit s) es = some t) (hflag : t.intFlag = true) :
    t.active = none ∧ t.pics.Free ∧
      ∃ lines : List Nat, (∀ n, n ∈ lines ↔ t.pics.Pending n) ∧
        (lines.Pairwise fun m n => PicPair.rank m < PicPair.rank n) ∧
        ∃ p : PicPair, (∀ n, ¬ p.Pending n) ∧
          (intrMachine env).run t (acceptAll lines.length) =
            some { t with pics := p, mem := lines.foldl (serve env t.handlers) t.mem } := by
  have h : Inv t := run_inv hbios (interruptsInit_inv hfree hactive) hrun
  obtain ⟨p, hdrain, hnone⟩ := drain_of_inv env h hflag rfl
  refine ⟨h.flag hflag, h.free (h.flag hflag), t.pics.pendingLines,
    fun n => PicPair.mem_pendingLines, t.pics.pendingLines_pairwise, p, fun n hn => ?_, hdrain⟩
  have hmem := PicPair.mem_pendingLines.mpr hn
  rw [hnone] at hmem
  cases hmem

/-- Handlers that log the interrupt and their data, and a BIOS that masks all
    lines but the cascade. -/
def logEnv : IntrEnv Unit (List (UInt8 × UInt32)) where
  exec _ intId _ data log := log ++ [(intId, data)]
  bios p := { p with master := { p.master with imr := 0xfb } }

def bootState : IntrState Unit (List (UInt8 × UInt32)) where
  pics := maskedPair
  intFlag := false
  handlers := isrCleared
  active := none
  mem := []

/-- COM1 and the timer are enabled and asked for, with a BIOS call before. -/
def bootRun : List (IntrEvent Unit) :=
  [.register 36 (some ()) 0x1000, .register 32 (some ()) 0, .raise 4, .biosCall, .enable 36,
    .enable 32, .raise 4, .raise 0, .spurious false, .leave]

/-- Both requests are left to be served. -/
def bootEnd : IntrState Unit (List (UInt8 × UInt32)) where
  pics :=
    { master := ⟨0x11, 0, 0xea, 0x20, 0x04, 0x01, true, false, .ready⟩
      slave := ⟨0, 0, 0xff, 0x28, 0x02, 0x01, true, false, .ready⟩ }
  intFlag := true
  handlers := (isrCleared.set 36 ⟨0x1000, some ()⟩).set 32 ⟨0, some ()⟩
  active := none
  mem := []

theorem run_served_boot :
    bootEnd.active = none ∧ bootEnd.pics.Free ∧
      ∃ lines : List Nat, (∀ n, n ∈ lines ↔ bootEnd.pics.Pending n) ∧
        (lines.Pairwise fun m n => PicPair.rank m < PicPair.rank n) ∧
        ∃ p : PicPair, (∀ n, ¬ p.Pending n) ∧
          (intrMachine logEnv).run bootEnd (acceptAll lines.length) = some { bootEnd with
            pics := p
            mem := lines.foldl (serve logEnv bootEnd.handlers) bootEnd.mem } :=
  have hrun : (intrMachine logEnv).run (interruptsInit bootState) bootRun = some bootEnd := rfl
  run_served (fun _ h => ⟨h.master, h.slave⟩) maskedPair_quiet.free rfl hrun rfl

end LBoot.Intr
