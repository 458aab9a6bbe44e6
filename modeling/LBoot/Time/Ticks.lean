/-
  LBoot.Time.Ticks

  The count of the timer interrupts (src/time/time.c).

  A controller remembers one request for a line.  One that is raised is
  handled, is still remembered, or is lost: raised while the one before waits,
  taken back by the device, or waiting at a BIOS call, which remaps the
  controllers (`raised_balance`).  `_current_ticks` is the number of timer
  periods less those that were lost (`ticks_run`).

  A BIOS call is one event, although the BIOS runs with interrupts on.  What is
  raised meanwhile is lost too, as if it had been raised in front of the call.
-/

import LBoot.Intr.Interrupts

namespace LBoot.Time

open LBoot.Lib LBoot.Intr

/-! ## Requests -/

/-- The controllers remember a request of the line. -/
def latched (n : Nat) (p : PicPair) : Bool :=
  if n < 8 then regBit p.master.irr n else regBit p.slave.irr (n - 8)

section Latched

variable {p : PicPair} {n m : Nat}

theorem latched_raise (hn : n < 16) (hm : m < 16) :
    latched m (p.raise n) = (decide (n = m) || latched m p) := by
  rw [latched, latched, PicPair.raise]
  by_cases hn8 : n < 8 <;> by_cases hm8 : m < 8
  · rw [if_pos hn8, if_pos hm8, if_pos hm8, Pic.raise, regBit_or, regBit_lineMask hm8, Bool.or_comm]
  · rw [if_pos hn8, if_neg hm8, if_neg hm8, decide_eq_false (by omega), Bool.false_or]
  · rw [if_neg hn8, if_pos hm8, if_pos hm8, decide_eq_false (by omega), Bool.false_or]
  · rw [if_neg hn8, if_neg hm8, if_neg hm8, Pic.raise, regBit_or, regBit_lineMask (by omega),
      Bool.or_comm]
    congr 1
    rw [decide_eq_decide]
    omega

theorem latched_drop (hn : n < 16) (hm : m < 16) :
    latched m (p.drop n) = (latched m p && !decide (n = m)) := by
  rw [latched, latched, PicPair.drop]
  by_cases hn8 : n < 8 <;> by_cases hm8 : m < 8
  · rw [if_pos hn8, if_pos hm8, if_pos hm8, Pic.drop, regBit_and, regBit_not hm8,
      regBit_lineMask hm8]
  · rw [if_pos hn8, if_neg hm8, if_neg hm8, decide_eq_false (by omega), Bool.not_false,
      Bool.and_true]
  · rw [if_neg hn8, if_pos hm8, if_pos hm8, decide_eq_false (by omega), Bool.not_false,
      Bool.and_true]
  · rw [if_neg hn8, if_neg hm8, if_neg hm8, Pic.drop, regBit_and, regBit_not (by omega),
      regBit_lineMask (by omega)]
    congr 2
    rw [decide_eq_decide]
    omega

theorem latched_congr {q : PicPair} (hmaster : q.master.irr = p.master.irr)
    (hslave : q.slave.irr = p.slave.irr) : latched m q = latched m p := by
  rw [latched, latched, hmaster, hslave]

/-- Acknowledging a line forgets its request. -/
theorem latched_ack : latched m (p.ack n) = latched m (p.drop n) := by
  rw [PicPair.ack, PicPair.drop]
  split
  · exact latched_congr (Pic.putInService_irr _) rfl
  · exact latched_congr (Pic.putInService_irr _) (Pic.putInService_irr _)

theorem latched_eoi (slave : Bool) : latched m (p.eoi slave) = latched m p := by
  cases slave with
  | false => exact latched_congr Pic.eoi_irr rfl
  | true => exact latched_congr Pic.eoi_irr Pic.eoi_irr

theorem latched_ackSpurious (slave : Bool) : latched m (p.ackSpurious slave) = latched m p := by
  cases slave with
  | false => rfl
  | true => exact latched_congr (Pic.putInService_irr _) rfl

theorem latched_setLine (masked : Bool) : latched m (setLine p n masked) = latched m p := by
  rw [setLine]
  split <;> rfl

theorem latched_picRemap (master slave : UInt8) : latched m (picRemap master slave p) = false := by
  rw [latched, picRemap_eq]
  dsimp only [remapped]
  split
  · exact regBit_zero _
  · exact regBit_zero _

theorem latched_of_pending (h : p.Pending n) : latched n p = true := by
  rw [PicPair.Pending] at h
  rw [latched]
  split_ifs at h ⊢
  · exact (Bool.and_eq_true _ _ ▸ h.2 : _ ∧ _).1
  · exact (Bool.and_eq_true _ _ ▸ h.2.2 : _ ∧ _).1

end Latched

/-! ## What becomes of a request -/

section Balance

variable {H σ : Type*} (n : Nat)

/-- The line is raised. -/
def raisedAt (_ : IntrState H σ) : IntrEvent H → Nat
  | .raise m => if m = n then 1 else 0
  | _ => 0

/-- It is acknowledged, and its handler called. -/
def servedAt (s : IntrState H σ) : IntrEvent H → Nat
  | .accept => if s.pics.request = some n then 1 else 0
  | _ => 0

/-- A request is waiting, and another one comes, it is taken back, or the
    controllers are remapped. -/
def lostAt (s : IntrState H σ) : IntrEvent H → Nat
  | .raise m => if m = n then (latched n s.pics).toNat else 0
  | .drop m => if m = n then (latched n s.pics).toNat else 0
  | .biosCall => (latched n s.pics).toNat
  | _ => 0

variable {n} {env : IntrEnv H σ} {s t u : IntrState H σ}

theorem latched_enable {p : PicPair} (h : Remapped p) (intId : UInt8) :
    latched n (interruptEnable intId p).2 = latched n p := by
  rw [interruptEnable_eq h.ready]
  split
  · exact latched_setLine _
  · rfl

theorem latched_disable {p : PicPair} (h : Remapped p) (intId : UInt8) :
    latched n (interruptDisable intId p).2 = latched n p := by
  rw [interruptDisable_eq h.ready]
  split
  · exact latched_setLine _
  · rfl

theorem latched_wrapperEoi (intId : UInt32) (p : PicPair) :
    latched n (wrapperEoi intId p) = latched n p := by
  rw [wrapperEoi_eq]
  split
  · exact latched_eoi _
  · rfl

/-- What one step does with the requests of a line. -/
theorem balance_step (hn : n ∈ PicPair.lineOrder) (h : Inv s) (e : IntrEvent H)
    (hstep : intrStep env s e = some t) :
    (latched n t.pics).toNat + (servedAt n s e + lostAt n s e) =
      (latched n s.pics).toNat + raisedAt n s e := by
  have hn16 : n < 16 := (PicPair.mem_lineOrder_iff.mp hn).1
  cases e with
  | raise m =>
      rw [intrStep, Option.ite_none_right_eq_some] at hstep
      obtain ⟨hm, hstep⟩ := hstep
      obtain rfl := Option.some.inj hstep
      dsimp only [servedAt, lostAt, raisedAt]
      rw [latched_raise (PicPair.mem_lineOrder_iff.mp hm).1 hn16]
      -- a line that is remembered already loses the new request
      by_cases heq : m = n
      · rw [if_pos heq, if_pos heq, decide_eq_true heq, Bool.true_or, Bool.toNat_true]
        omega
      · rw [if_neg heq, if_neg heq, decide_eq_false heq, Bool.false_or]
  | drop m =>
      rw [intrStep, Option.ite_none_right_eq_some] at hstep
      obtain ⟨hm, hstep⟩ := hstep
      obtain rfl := Option.some.inj hstep
      dsimp only [servedAt, lostAt, raisedAt]
      rw [latched_drop (PicPair.mem_lineOrder_iff.mp hm).1 hn16]
      -- a request that is taken back is lost
      by_cases heq : m = n
      · rw [if_pos heq, decide_eq_true heq, Bool.not_true, Bool.and_false, Bool.toNat_false]
        omega
      · rw [if_neg heq, decide_eq_false heq, Bool.not_false, Bool.and_true]
  | accept =>
      rw [intrStep, Option.ite_none_right_eq_some, Option.bind_eq_some_iff] at hstep
      obtain ⟨hflag, m, hreq, henter⟩ := hstep
      obtain ⟨hpend, hm, -⟩ := PicPair.request_spec (h.free (h.flag hflag)) hreq
      obtain ⟨x, -, rfl⟩ := enter_eq_some henter
      dsimp only [servedAt, lostAt, raisedAt]
      simp only [latched_ack, latched_drop hm hn16, hreq, Option.some_inj]
      by_cases heq : m = n
      · -- the line asked for has a request, which is forgotten
        subst heq
        rw [if_pos rfl, decide_eq_true rfl, latched_of_pending hpend]
        rfl
      · rw [if_neg heq, decide_eq_false heq, Bool.not_false, Bool.and_true]
  | spurious slave =>
      rw [intrStep, Option.ite_none_right_eq_some] at hstep
      obtain ⟨x, -, rfl⟩ := enter_eq_some hstep.2
      dsimp only [servedAt, lostAt, raisedAt]
      rw [latched_ackSpurious]
  | leave =>
      rw [intrStep] at hstep
      cases hactive : s.active with
      | none =>
          rw [hactive] at hstep
          cases hstep
      | some intId =>
          rw [hactive] at hstep
          obtain rfl := Option.some.inj hstep
          dsimp only [servedAt, lostAt, raisedAt]
          rw [latched_wrapperEoi]
  | sti =>
      rw [intrStep, Option.ite_none_right_eq_some] at hstep
      obtain rfl := Option.some.inj hstep.2
      rfl
  | cli =>
      rw [intrStep, Option.ite_none_right_eq_some] at hstep
      obtain rfl := Option.some.inj hstep.2
      rfl
  | enable intId =>
      obtain rfl := Option.some.inj hstep
      dsimp only [servedAt, lostAt, raisedAt]
      rw [latched_enable h.remapped]
  | disable intId =>
      obtain rfl := Option.some.inj hstep
      dsimp only [servedAt, lostAt, raisedAt]
      rw [latched_disable h.remapped]
  | register intId handler data =>
      obtain rfl := Option.some.inj hstep
      rfl
  | biosCall =>
      rw [intrStep, Option.ite_none_right_eq_some] at hstep
      obtain rfl := Option.some.inj hstep.2
      dsimp only [servedAt, lostAt, raisedAt]
      -- remapping initialises the controllers, and they forget
      rw [biosCallPics, latched_picRemap, Bool.toNat_false]
      omega

/-- **Requests**: in any run, what was raised has been handled, is still
    remembered, or is lost. -/
theorem raised_balance (hbios : ∀ p : PicPair, p.Free → (env.bios p).Free)
    (hn : n ∈ PicPair.lineOrder) (h : Inv s) {es : List (IntrEvent H)}
    (hrun : (intrMachine env).run s es = some u) :
    (latched n u.pics).toNat +
        ((intrMachine env).tally (servedAt n) s es + (intrMachine env).tally (lostAt n) s es) =
      (latched n s.pics).toNat + (intrMachine env).tally (raisedAt n) s es := by
  rw [← Machine.tally_add]
  exact Machine.tally_balance Inv (fun s => (latched n s.pics).toNat)
    (fun _ e _ => inv_step hbios e) (fun _ e _ hI => balance_step hn hI e) h hrun

end Balance

/-! ## The timer -/

/-- The handlers that the program registers. -/
inductive Handler where
  /-- `_pit_handler` -/
  | pitHandler
  /-- `_serial_int_handler` -/
  | serialIntHandler
  deriving DecidableEq, Repr

/-- `_current_ticks++`; the other handler leaves it alone. -/
def ticksExec : Handler → UInt8 → UInt32 → UInt32 → UInt32 → UInt32
  | .pitHandler, _, _, _, ticks => ticks + 1
  | .serialIntHandler, _, _, _, ticks => ticks

def ticksEnv (bios : PicPair → PicPair) : IntrEnv Handler UInt32 := ⟨ticksExec, bios⟩

/-- `INT_ID_PIT`. -/
abbrev intIdPit : UInt8 := 32

/-- The timer's handler is registered for the timer, and for nothing else. -/
def TimerRegistered (handlers : IsrHandlers Handler) : Prop :=
  ∀ (i : Nat) (h : i < intIdMax),
    (handlers.get ⟨i, h⟩).handler = some .pitHandler ↔ i = intIdPit.toNat

/-- A call that registers a handler keeps it so. -/
def KeepsTimer : IntrEvent Handler → Prop
  | .register intId handler _ => handler = some .pitHandler ↔ intId = intIdPit
  | _ => True

theorem timerRegistered_register {handlers : IsrHandlers Handler} (h : TimerRegistered handlers)
    {intId : UInt8} {handler : Option Handler} {data : UInt32}
    (hkeeps : KeepsTimer (.register intId handler data)) :
    TimerRegistered (interruptRegister intId handler data handlers).2 := by
  intro i hi
  rw [interruptRegister]
  split
  · rename_i hid
    have hget : ((handlers.set intId.toNat ⟨data, handler⟩).get ⟨i, hi⟩).handler =
        if intId.toNat = i then handler else (handlers.get ⟨i, hi⟩).handler := by
      have hget (t : IsrHandlers Handler) : t.get ⟨i, hi⟩ = t[i] := rfl
      rw [hget, hget, Vector.getElem_set]
      split <;> rfl
    rw [hget]
    split
    · rename_i heq
      rw [← heq, UInt8.toNat_inj]
      exact hkeeps
    · exact h i hi
  · exact h i hi

variable {bios : PicPair → PicPair} {s t u : IntrState Handler UInt32}

/-- Serving line 0 counts, serving another one does not. -/
theorem serve_ticks (h : TimerRegistered s.handlers) {n : Nat} (hn : n < 16) (ticks : UInt32) :
    serve (ticksEnv bios) s.handlers ticks n = ticks + UInt32.ofNat (if n = 0 then 1 else 0) := by
  have hmax : 32 + n < intIdMax := by
    rw [intIdMax]
    omega
  have htimer := h (32 + n) hmax
  have hline : 32 + n = intIdPit.toNat ↔ n = 0 := Nat.add_eq_left
  rw [hline] at htimer
  rw [serve, dif_pos hmax]
  cases hhandler : (s.handlers.get ⟨32 + n, hmax⟩).handler with
  | none =>
      rw [hhandler] at htimer
      rw [if_neg fun h0 => by cases htimer.mpr h0]
      exact (UInt32.add_zero ticks).symm
  | some f =>
      rw [hhandler, Option.some_inj] at htimer
      cases f with
      | pitHandler =>
          rw [if_pos (htimer.mp rfl)]
          rfl
      | serialIntHandler =>
          rw [if_neg fun h0 => by cases htimer.mpr h0]
          exact (UInt32.add_zero ticks).symm

theorem enter_ticks (h : TimerRegistered s.handlers) (hp : Remapped s.pics) {n : Nat} (hn : n < 16)
    {p : PicPair} (henter : enter (ticksEnv bios) s p (s.pics.vector n) = some t) :
    t.handlers = s.handlers ∧ t.mem = s.mem + UInt32.ofNat (if n = 0 then 1 else 0) := by
  obtain ⟨m, hm, rfl⟩ := enter_eq_some henter
  rw [vector_eq hp, runCall_wrapperCall hn, Option.some_inj] at hm
  exact ⟨rfl, hm.symm.trans (serve_ticks h hn s.mem)⟩

/-- What one step does to `_current_ticks`. -/
theorem ticks_step (h : Inv s) (htimer : TimerRegistered s.handlers) {e : IntrEvent Handler}
    (hkeeps : KeepsTimer e) (hstep : intrStep (ticksEnv bios) s e = some t) :
    TimerRegistered t.handlers ∧ t.mem = s.mem + UInt32.ofNat (servedAt 0 s e) := by
  -- steps that serve nothing
  have hsame {p : PicPair} {flag : Bool} {active : Option UInt32} (e : IntrEvent Handler)
      (hserved : servedAt 0 s e = 0) :
      TimerRegistered s.handlers ∧
        (IntrState.mk p flag s.handlers active s.mem).mem =
          s.mem + UInt32.ofNat (servedAt 0 s e) := by
    rw [hserved]
    exact ⟨htimer, (UInt32.add_zero s.mem).symm⟩
  cases e with
  | accept =>
      rw [intrStep, Option.ite_none_right_eq_some, Option.bind_eq_some_iff] at hstep
      obtain ⟨hflag, n, hreq, henter⟩ := hstep
      obtain ⟨-, hn, -⟩ := PicPair.request_spec (h.free (h.flag hflag)) hreq
      obtain ⟨hhandlers, hmem⟩ := enter_ticks htimer h.remapped hn henter
      rw [hhandlers, hmem]
      simp only [servedAt, hreq, Option.some_inj]
      exact ⟨htimer, trivial⟩
  | spurious slave =>
      rw [intrStep, Option.ite_none_right_eq_some] at hstep
      -- a spurious interrupt comes on line 7 or 15, which is not the timer's
      have hn : (if slave then 15 else 7) < 16 ∧ (if slave then 15 else 7) ≠ 0 := by
        cases slave <;> decide
      obtain ⟨hhandlers, hmem⟩ := enter_ticks htimer h.remapped hn.1 hstep.2
      rw [hhandlers, hmem, if_neg hn.2]
      exact ⟨htimer, rfl⟩
  | leave =>
      rw [intrStep] at hstep
      cases hactive : s.active with
      | none =>
          rw [hactive] at hstep
          cases hstep
      | some intId =>
          rw [hactive] at hstep
          obtain rfl := Option.some.inj hstep
          exact hsame .leave rfl
  | raise n =>
      rw [intrStep, Option.ite_none_right_eq_some] at hstep
      obtain rfl := Option.some.inj hstep.2
      exact hsame (.raise n) rfl
  | drop n =>
      rw [intrStep, Option.ite_none_right_eq_some] at hstep
      obtain rfl := Option.some.inj hstep.2
      exact hsame (.drop n) rfl
  | sti =>
      rw [intrStep, Option.ite_none_right_eq_some] at hstep
      obtain rfl := Option.some.inj hstep.2
      exact hsame .sti rfl
  | cli =>
      rw [intrStep, Option.ite_none_right_eq_some] at hstep
      obtain rfl := Option.some.inj hstep.2
      exact hsame .cli rfl
  | biosCall =>
      rw [intrStep, Option.ite_none_right_eq_some] at hstep
      obtain rfl := Option.some.inj hstep.2
      exact hsame .biosCall rfl
  | enable intId =>
      obtain rfl := Option.some.inj hstep
      exact hsame (.enable intId) rfl
  | disable intId =>
      obtain rfl := Option.some.inj hstep
      exact hsame (.disable intId) rfl
  | register intId handler data =>
      obtain rfl := Option.some.inj hstep
      exact ⟨timerRegistered_register htimer hkeeps, (UInt32.add_zero s.mem).symm⟩

/-- Over a run, it is the timer interrupts that have been handled. -/
theorem ticks_served (hbios : ∀ p : PicPair, p.Free → (bios p).Free) {es : List (IntrEvent Handler)}
    (hkeeps : ∀ e ∈ es, KeepsTimer e) :
    ∀ {s : IntrState Handler UInt32}, Inv s → TimerRegistered s.handlers →
      (intrMachine (ticksEnv bios)).run s es = some u →
      u.mem = s.mem +
        UInt32.ofNat ((intrMachine (ticksEnv bios)).tally (servedAt 0) s es) := by
  induction es with
  | nil =>
      intro s _ _ hrun
      obtain rfl := Option.some.inj hrun
      exact (UInt32.add_zero s.mem).symm
  | cons e es ih =>
      intro s h htimer hrun
      obtain ⟨hhead, htail⟩ := List.forall_mem_cons.mp hkeeps
      obtain ⟨t, ht, hrest⟩ := Machine.run_cons_eq_some hrun
      obtain ⟨htimer', hmem⟩ := ticks_step h htimer hhead ht
      rw [ih htail (inv_step hbios e h ht) htimer' hrest, hmem, Machine.tally_cons _ ht,
        UInt32.ofNat_add, UInt32.add_assoc]

/-- **The time**: in any run from a state where the timer is set up,
    `_current_ticks` advances by the timer periods, less those that were lost
    and the one that still waits. -/
theorem ticks_run (hbios : ∀ p : PicPair, p.Free → (bios p).Free) (h : Inv s)
    (htimer : TimerRegistered s.handlers) {es : List (IntrEvent Handler)}
    (hkeeps : ∀ e ∈ es, KeepsTimer e)
    (hrun : (intrMachine (ticksEnv bios)).run s es = some u) :
    u.mem + UInt32.ofNat ((latched 0 u.pics).toNat +
        (intrMachine (ticksEnv bios)).tally (lostAt 0) s es) =
      s.mem + UInt32.ofNat ((latched 0 s.pics).toNat + es.count (.raise 0)) := by
  have hbalance := raised_balance (n := 0) hbios (by decide) h hrun
  have hcount : (intrMachine (ticksEnv bios)).tally (raisedAt 0) s es = es.count (.raise 0) := by
    rw [← Machine.tally_count _ hrun]
    congr 1
    funext s e
    cases e with
    | raise m => simp only [raisedAt, IntrEvent.raise.injEq]
    | _ => rfl
  rw [hcount] at hbalance
  rw [ticks_served hbios hkeeps h htimer hrun, UInt32.add_assoc, ← UInt32.ofNat_add, ← hbalance]
  congr 2
  omega

/-- `time_init` behind `pit_init`, with interrupts enabled. -/
def timeInitCalls : List (IntrEvent Handler) :=
  [.register intIdPit (some .pitHandler) 0, .enable intIdPit]

def timerBoot : IntrState Handler UInt32 := ⟨maskedPair, false, isrCleared, none, 0⟩

/-- What `interrupts_init` and `time_init` leave. -/
def timerState : IntrState Handler UInt32 where
  pics :=
    { master := ⟨0, 0, 0xfe, 0x20, 0x04, 0x01, true, false, .ready⟩
      slave := ⟨0, 0, 0xff, 0x28, 0x02, 0x01, true, false, .ready⟩ }
  intFlag := true
  handlers := (interruptRegister intIdPit (some .pitHandler) 0 isrCleared).2
  active := none
  mem := 0

theorem timerState_inv : Inv timerState := by
  have hinit : Inv (interruptsInit timerBoot) := interruptsInit_inv maskedPair_quiet.free rfl
  have hrun : (intrMachine (ticksEnv id)).run (interruptsInit timerBoot) timeInitCalls =
      some timerState := rfl
  exact run_inv (fun _ h => h) hinit hrun

theorem timerState_registered : TimerRegistered timerState.handlers := by
  unfold TimerRegistered
  decide

/-- A period is missed at a BIOS call, one is lost on a request that waits,
    and one still waits. -/
def timerRun : List (IntrEvent Handler) :=
  [.raise 0, .accept, .raise 0, .leave, .raise 0, .biosCall, .raise 0, .accept, .leave, .raise 0]

def timerEnd : IntrState Handler UInt32 :=
  { timerState with
    pics := { timerState.pics with master := { timerState.pics.master with irr := 0x01 } }
    mem := 2 }

theorem ticks_run_boot :
    timerEnd.mem + UInt32.ofNat ((latched 0 timerEnd.pics).toNat +
        (intrMachine (ticksEnv id)).tally (lostAt 0) timerState timerRun) =
      timerState.mem + UInt32.ofNat ((latched 0 timerState.pics).toNat +
        timerRun.count (.raise 0)) := by
  have hkeeps : ∀ e ∈ timerRun, KeepsTimer e := by
    simp [timerRun, KeepsTimer]
  have hrun : (intrMachine (ticksEnv id)).run timerState timerRun = some timerEnd := rfl
  exact ticks_run (fun _ h => h) timerState_inv timerState_registered hkeeps hrun

end LBoot.Time
