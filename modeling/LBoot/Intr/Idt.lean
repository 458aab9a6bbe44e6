/-
  LBoot.Intr.Idt

  The descriptor table (src/intr/idt.c, src/intr/interrupts.c) and the code
  that its descriptors lead to (src/intr/int_wrappers.s).

  What `_isr_wrappers_init` writes is read back as the processor reads it: a
  gate for each interrupt, to the wrapper of its number, and nothing behind
  the last one (`isrWrappersInit_gates`).

  The wrappers are run instruction by instruction.  They pass the interrupted
  context on; but the error code that the processor pushes for some
  exceptions is never taken off the stack, so one of these cannot be returned
  from (`isrWrapper_returns`).
-/

import LBoot.Lib.X86

namespace LBoot.Intr

open LBoot.Lib
open LBoot.Lib.X86 (Reg Regs allRegs Table Gate gateOf)

/-! ## idt.c -/

/-- `idt_entry_t`. -/
structure IdtEntry where
  offsetLow : UInt16
  segment : UInt16
  reserved : UInt8
  flags : UInt8
  offsetHigh : UInt16
  deriving DecidableEq, Repr

/-- Its packed layout. -/
def IdtEntry.bytes (e : IdtEntry) : List UInt8 :=
  toLe 2 e.offsetLow.toNat ++ toLe 2 e.segment.toNat ++ [e.reserved, e.flags] ++
    toLe 2 e.offsetHigh.toNat

/-- `INT_ID_MAX`. -/
abbrev idtEntries : Nat := 48

/-- `_idtr`, for a table at `idt`. -/
def idtr (idt : Nat) : Table := ⟨8 * idtEntries - 1, idt⟩

/-- `idt_init`, but for the `lidt`. -/
def idtInit (idt : Nat) (m : Int → UInt8) : Int → UInt8 :=
  storeAt m idt (List.replicate (8 * idtEntries) 0)

/-- `idt_set_entry`. -/
def idtSetEntry (idt : Nat) (n : UInt8) (entry : IdtEntry) (m : Int → UInt8) :
    Int × (Int → UInt8) :=
  if n.toNat ≥ idtEntries then (-1, m) else (0, storeAt m ((idt + 8 * n.toNat : Nat) : Int) entry.bytes)

/-- `IDT_FLAGS_INTR(SZ)`. -/
def idtFlagsIntr (sz : Bool) : UInt8 := 0x86 ||| (if sz then 0x08 else 0x00)

/-- `_idt_set_wrapper`. -/
def idtSetWrapper (idt : Nat) (n : UInt8) (wrapper : UInt32) (m : Int → UInt8) : Int → UInt8 :=
  (idtSetEntry idt n ⟨wrapper.toUInt16, 0x0008, 0, idtFlagsIntr true, (wrapper >>> 16).toUInt16⟩ m).2

/-- The first `k` calls of `_isr_wrappers_init`. -/
def isrWrappersLoop (idt : Nat) (wrapper : Nat → UInt32) (m : Int → UInt8) : Nat → Int → UInt8
  | 0 => m
  | k + 1 => idtSetWrapper idt (UInt8.ofNat k) (wrapper k) (isrWrappersLoop idt wrapper m k)

/-- `_isr_wrappers_init`; `wrapper n` is the address of `isr_wrapper_n`. -/
def isrWrappersInit (idt : Nat) (wrapper : Nat → UInt32) (m : Int → UInt8) : Int → UInt8 :=
  isrWrappersLoop idt wrapper m idtEntries

/-! ## What the processor reads -/

theorem length_bytes (e : IdtEntry) : e.bytes.length = 8 := by
  simp [IdtEntry.bytes]

theorem toNat_toUInt16_shiftRight (w : UInt32) : (w >>> 16).toUInt16.toNat = w.toNat / 2 ^ 16 := by
  have hlt := w.toNat_lt
  have hshift : (w >>> 16).toNat = w.toNat >>> 16 := by
    rw [UInt32.toNat_shiftRight]
    rfl
  rw [UInt32.toNat_toUInt16, hshift, Nat.shiftRight_eq_div_pow]
  omega

/-- The entry of a wrapper. -/
def wrapperEntry (w : UInt32) : IdtEntry :=
  ⟨w.toUInt16, 0x0008, 0, idtFlagsIntr true, (w >>> 16).toUInt16⟩

/-- It is read back as a gate to the wrapper, for interrupts, of the highest
    privilege. -/
theorem gateOf_wrapper (w : UInt32) :
    gateOf (wrapperEntry w).bytes = ⟨w.toNat, 0x0008, true, 0, 0x0e⟩ := by
  have hlow : leField (wrapperEntry w).bytes 0 2 = w.toNat % 2 ^ 16 := by
    show leNat (toLe 2 w.toUInt16.toNat) = _
    rw [leNat_toLe, UInt32.toNat_toUInt16]
    omega
  have hhigh : leField (wrapperEntry w).bytes 6 2 = w.toNat / 2 ^ 16 := by
    have hlt := w.toNat_lt
    show leNat (toLe 2 (w >>> 16).toUInt16.toNat) = _
    rw [leNat_toLe, toNat_toUInt16_shiftRight]
    omega
  have hsegment : leField (wrapperEntry w).bytes 2 2 = 0x0008 := by
    show leNat (toLe 2 8) = 8
    decide
  have hflags : (wrapperEntry w).bytes.getD 5 0 = 0x8e := by
    show idtFlagsIntr true = 0x8e
    decide
  have hsum : w.toNat % 2 ^ 16 + 2 ^ 16 * (w.toNat / 2 ^ 16) = w.toNat := by omega
  rw [gateOf, hlow, hhigh, hsegment, hflags, hsum]
  rfl

/-- What one call of `_idt_set_wrapper` does. -/
theorem idtSetWrapper_eq (idt : Nat) {k : Nat} (hk : k < idtEntries) (w : UInt32)
    (m : Int → UInt8) :
    idtSetWrapper idt (UInt8.ofNat k) w m =
      storeAt m ((idt + 8 * k : Nat) : Int) (wrapperEntry w).bytes := by
  have hsize : idtEntries ≤ UInt8.size := by decide
  have hk8 : (UInt8.ofNat k).toNat = k := UInt8.toNat_ofNat_of_lt' (by omega)
  rw [idtSetWrapper, idtSetEntry, hk8, if_neg (by omega)]
  rfl

/-- The entries written so far, and nothing outside of them. -/
theorem isrWrappersLoop_spec (idt : Nat) (wrapper : Nat → UInt32) (m : Int → UInt8) {k : Nat}
    (hk : k ≤ idtEntries) :
    (∀ n < k, loadAt (isrWrappersLoop idt wrapper m k) ((idt + 8 * n : Nat) : Int) 8 =
      (wrapperEntry (wrapper n)).bytes) ∧
    ∀ x : Int, (x < idt ∨ ((idt + 8 * k : Nat) : Int) ≤ x) →
      isrWrappersLoop idt wrapper m k x = m x := by
  induction k with
  | zero => exact ⟨fun n hn => absurd hn (Nat.not_lt_zero n), fun _ _ => rfl⟩
  | succ k ih =>
      obtain ⟨hload, hframe⟩ := ih (by omega)
      have hlen := length_bytes (wrapperEntry (wrapper k))
      rw [isrWrappersLoop, idtSetWrapper_eq idt (by omega)]
      refine ⟨fun n hn => ?_, fun x hx => ?_⟩
      · rcases Nat.lt_succ_iff_lt_or_eq.mp hn with hlt | rfl
        · rw [loadAt_storeAt_disjoint (by omega), hload n hlt]
        · have hself := loadAt_storeAt (isrWrappersLoop idt wrapper m n)
            ((idt + 8 * n : Nat) : Int) (wrapperEntry (wrapper n)).bytes
          rw [hlen] at hself
          exact hself
      · rw [storeAt_of_outside (by omega), hframe x (by omega)]

/-- **The table**: after `idt_init` and `_isr_wrappers_init`, wherever the table
    and the wrappers are, the processor finds a present 32-bit interrupt gate to
    `isr_wrapper_n` for each `n` below 48 and none behind; the rest of the
    memory is as it was. -/
theorem isrWrappersInit_gates (idt : Nat) (wrapper : Nat → UInt32) (m : Int → UInt8) :
    (∀ n, (idtr idt).gate (isrWrappersInit idt wrapper (idtInit idt m)) n =
      if n < 48 then some ⟨(wrapper n).toNat, 0x0008, true, 0, 0x0e⟩ else none) ∧
    ∀ x : Int, (x < idt ∨ (idt : Int) + 384 ≤ x) →
      isrWrappersInit idt wrapper (idtInit idt m) x = m x := by
  obtain ⟨hload, hframe⟩ :=
    isrWrappersLoop_spec idt wrapper (idtInit idt m) (Nat.le_refl idtEntries)
  have hlimit : (idtr idt).limit = 383 := rfl
  have hbase : (idtr idt).base = idt := rfl
  have hmax : 8 * idtEntries = 384 := rfl
  refine ⟨fun n => ?_, fun x hx => ?_⟩
  · rw [Table.gate, hlimit, hbase]
    by_cases hn : n < 48
    · rw [if_pos hn, if_pos (by omega), isrWrappersInit, hload n hn, gateOf_wrapper]
    · rw [if_neg hn, if_neg (by omega)]
  · rw [isrWrappersInit, hframe x (by omega), idtInit, storeAt_of_outside]
    rw [List.length_replicate]
    omega

/-! ## int_wrappers.s -/

/-- What an interrupt breaks into: the part of the processor that the wrappers
    work with.  The stack is what lies from `esp` on, in words, so that a
    wrapper runs wherever it is. -/
structure Context where
  gpr : Regs
  eip : UInt32
  cs : UInt32
  eflags : UInt32
  stack : List UInt32

namespace Context

def push (s : Context) (v : UInt32) : Context :=
  { s with gpr := s.gpr.set .esp (s.gpr .esp - 4), stack := v :: s.stack }

/-- `n` words are taken off the stack. -/
def drop (s : Context) (n : Nat) : Context :=
  { s with
    gpr := s.gpr.set .esp (s.gpr .esp + UInt32.ofNat (4 * n))
    stack := s.stack.drop n }

def word (s : Context) (i : Nat) : UInt32 := s.stack.getD i 0

/-- `pusha`; the stack pointer is pushed as it was. -/
def pusha (s : Context) : Context := allRegs.reverse.foldl (fun t r => t.push (s.gpr r)) s

/-- What `pusha` has pushed, with `i` words on top of it. -/
def pushaAt (s : Context) (i : Nat) : Regs := fun r => s.word (i + allRegs.idxOf r)

/-- `popa`. -/
def popa (s : Context) : Context :=
  { s.drop 8 with gpr := (s.drop 8).gpr.restore (s.pushaAt 0) }

end Context

/-- The arguments of `interrupt_wrapper`, where it finds them: `int_id`,
    `pusha`, `errcode` and `iret`. -/
structure WrapperArgs where
  intId : UInt32
  pusha : Regs
  errcode : UInt32
  eip : UInt32
  cs : UInt32
  eflags : UInt32

def wrapperArgs (s : Context) : WrapperArgs where
  intId := s.word 0
  pusha := s.pushaAt 1
  errcode := s.word 9
  eip := s.word 10
  cs := s.word 11
  eflags := s.word 12

/-- The instructions of the macro. -/
inductive WrapperInstr where
  | push (v : UInt32)
  | pusha
  /-- `call interrupt_wrapper` -/
  | call
  /-- `addl $4, %esp` -/
  | addl
  | popa
  | iret
  deriving DecidableEq, Repr

/-- What a C function leaves in the registers that its caller saves; the words
    of its arguments, which it may use too, `interrupt_wrapper` leaves alone. -/
structure Clobber where
  eax : UInt32
  ecx : UInt32
  edx : UInt32
  eflags : UInt32

def Context.clobber (s : Context) (c : Clobber) : Context :=
  { s with
    gpr := ((s.gpr.set .eax c.eax).set .ecx c.ecx).set .edx c.edx
    eflags := c.eflags }

/-- One instruction; beside the processor, what `interrupt_wrapper` was called
    with. -/
def execInstr (f : WrapperArgs → Clobber) (s : Context × List WrapperArgs) :
    WrapperInstr → Context × List WrapperArgs
  | .push v => (s.1.push v, s.2)
  | .pusha => (s.1.pusha, s.2)
  | .call =>
      let args := wrapperArgs s.1
      (s.1.clobber (f args), s.2 ++ [args])
  | .addl => (s.1.drop 1, s.2)
  | .popa => (s.1.popa, s.2)
  | .iret =>
      let w := s.1.word
      ({ s.1.drop 3 with eip := w 0, cs := w 1, eflags := w 2 }, s.2)

/-- `isr_wrapper num err`. -/
def isrWrapperMacro (num : UInt32) (err : Bool) : List WrapperInstr :=
  (if err then [] else [.push 0]) ++ [.pusha, .push num, .call, .addl, .popa] ++
    (if err then [] else [.addl]) ++ [.iret]

/-- The second argument of the macro for each interrupt. -/
def isrErr (n : Nat) : Bool := n ∈ [8, 10, 11, 12, 13, 14, 17, 30]

/-- `isr_wrapper_n`. -/
def isrWrapper (n : Nat) : List WrapperInstr := isrWrapperMacro (UInt32.ofNat n) (isrErr n)

def runWrapper (f : WrapperArgs → Clobber) (n : Nat) (s : Context) : Context × List WrapperArgs :=
  (isrWrapper n).foldl (execInstr f) (s, [])

/-- The processor takes an interrupt through its gate. -/
def deliver (s : Context) (g : Gate) (code : Option UInt32) : Context :=
  let t := ((s.push s.eflags).push s.cs).push s.eip
  let t := match code with
    | none => t
    | some e => t.push e
  { t with eip := UInt32.ofNat g.offset, cs := UInt32.ofNat g.selector,
           eflags := s.eflags &&& ~~~0x200 }

variable (f : WrapperArgs → Clobber)

namespace Context

@[simp] theorem drop_zero (s : Context) : s.drop 0 = s := by
  have hesp : s.gpr.set .esp (s.gpr .esp + UInt32.ofNat (4 * 0)) = s.gpr := by
    show s.gpr.set .esp (s.gpr .esp + 0) = s.gpr
    rw [UInt32.add_zero, Regs.set_self]
  rw [drop, hesp, List.drop_zero]

@[simp] theorem drop_succ_push (s : Context) (v : UInt32) (n : Nat) :
    (s.push v).drop (n + 1) = s.drop n := by
  have hesp : s.gpr .esp - 4 + UInt32.ofNat (4 * (n + 1)) = s.gpr .esp + UInt32.ofNat (4 * n) := by
    rw [Nat.mul_add, Nat.mul_one, UInt32.ofNat_add, UInt32.add_comm (UInt32.ofNat (4 * n)),
      ← UInt32.add_assoc]
    exact congrArg (· + UInt32.ofNat (4 * n)) (UInt32.sub_add_cancel (s.gpr .esp) 4)
  have hself : s.gpr.set .esp (s.gpr .esp - 4) .esp = s.gpr .esp - 4 := if_pos rfl
  rw [push, drop, drop]
  dsimp only
  rw [hself, hesp, Regs.set_set, List.drop_succ_cons]

@[simp] theorem word_push_succ (s : Context) (v : UInt32) (i : Nat) :
    (s.push v).word (i + 1) = s.word i := rfl

@[simp] theorem word_clobber (s : Context) (c : Clobber) (i : Nat) :
    (s.clobber c).word i = s.word i := rfl

/-- The stack pointer is not among the registers that are clobbered. -/
@[simp] theorem drop_clobber (s : Context) (c : Clobber) (n : Nat) :
    (s.clobber c).drop n = (s.drop n).clobber c := by
  rw [drop, drop, clobber, clobber]
  congr 1
  funext r
  cases r <;> rfl

theorem pusha_eq (s : Context) : s.pusha = (((((((s.push (s.gpr .eax)).push (s.gpr .ecx)).push
    (s.gpr .edx)).push (s.gpr .ebx)).push (s.gpr .esp)).push (s.gpr .ebp)).push (s.gpr .esi)).push
    (s.gpr .edi) := rfl

theorem drop_pusha (s : Context) : s.pusha.drop 8 = s := by
  simp only [pusha_eq, drop_succ_push, drop_zero]

/-- All registers are found where they were pushed. -/
theorem word_pusha (s : Context) (r : Reg) : s.pusha.word (allRegs.idxOf r) = s.gpr r := by
  cases r <;> rfl

/-- `popa` undoes `pusha`, whatever was clobbered in between; the flags are not
    among what it takes back. -/
theorem popa_clobber (s : Context) (c : Clobber) :
    (s.pusha.clobber c).popa = { s with eflags := c.eflags } := by
  have hregs : (s.clobber c).gpr.restore ((s.pusha.clobber c).pushaAt 0) = s.gpr := by
    funext r
    rw [Regs.restore, pushaAt, Nat.zero_add, word_clobber, word_pusha]
    cases r <;> rfl
  rw [popa, drop_clobber, drop_pusha, hregs]
  rfl

end Context

/-- What `interrupt_wrapper` is called with. -/
def seenArgs (num : UInt32) (s : Context) : WrapperArgs :=
  ⟨num, s.gpr, s.word 0, s.word 1, s.word 2, s.word 3⟩

/-- The part of the macro that all wrappers share leaves the processor as it
    was, but for the flags. -/
theorem execBody_eq (num : UInt32) (s : Context) (seen : List WrapperArgs) :
    ([.pusha, .push num, .call, .addl, .popa] : List WrapperInstr).foldl (execInstr f) (s, seen) =
      ({ s with eflags := (f (seenArgs num s)).eflags }, seen ++ [seenArgs num s]) := by
  have hpusha : (s.pusha.push num).pushaAt 1 = s.gpr := by
    funext r
    rw [Context.pushaAt, Nat.add_comm, Context.word_push_succ, Context.word_pusha]
  have hargs : wrapperArgs (s.pusha.push num) = seenArgs num s := by
    rw [wrapperArgs, hpusha]
    rfl
  have hpopa := s.popa_clobber (f (seenArgs num s))
  simp only [List.foldl_cons, List.foldl_nil, execInstr, hargs, Context.drop_clobber,
    Context.drop_succ_push, Context.drop_zero, hpopa]

/-- The stack at the `iret`, behind a wrapper that pushes no error code, and
    behind one that does. -/
theorem execMacro_eq (num : UInt32) (err : Bool) (s : Context) :
    (isrWrapperMacro num err).foldl (execInstr f) (s, []) =
      let args := seenArgs num (if err then s else s.push 0)
      let t := { s with eflags := (f args).eflags }
      ({ t.drop 3 with eip := s.word 0, cs := s.word 1, eflags := s.word 2 }, [args]) := by
  rw [isrWrapperMacro, List.foldl_append, List.foldl_append, List.foldl_append]
  cases err with
  | true =>
      rw [if_pos rfl, if_pos rfl, if_pos rfl, List.foldl_nil, List.foldl_nil, execBody_eq]
      simp only [List.foldl_cons, List.foldl_nil, execInstr]
      rfl
  | false =>
      have hdrop (e : UInt32) : ({ s.push 0 with eflags := e } : Context).drop 1 =
          { s with eflags := e } := Context.drop_succ_push { s with eflags := e } 0 0 |>.trans
            (Context.drop_zero _)
      have hpush : ([.push 0] : List WrapperInstr).foldl (execInstr f) (s, []) = (s.push 0, []) := rfl
      rw [if_neg Bool.false_ne_true, if_neg Bool.false_ne_true, if_neg Bool.false_ne_true, hpush,
        execBody_eq]
      simp only [List.foldl_cons, List.foldl_nil, execInstr, hdrop]
      rfl

/-- **The wrappers**: each calls `interrupt_wrapper` once, with its number and
    the registers of the interrupted code, and with its return address, flags
    and error code if the macro is told what the processor does.  It goes back
    to the interrupted code, with all registers and the stack as they were, if
    and only if the processor has pushed no error code. -/
theorem isrWrapper_returns (n : Nat) (s : Context) (g : Gate) (code : Option UInt32) :
    ∃ t args, runWrapper f n (deliver s g code) = (t, [args]) ∧
      args.intId = UInt32.ofNat n ∧ (∀ r, r ≠ .esp → args.pusha r = s.gpr r) ∧
      (isrErr n = code.isSome → args.errcode = code.getD 0 ∧ args.eip = s.eip ∧ args.cs = s.cs ∧
        args.eflags = s.eflags) ∧
      (t = s ↔ code = none) := by
  have hrun := execMacro_eq f (UInt32.ofNat n) (isrErr n) (deliver s g code)
  refine ⟨_, _, hrun, rfl, fun r hr => ?_, ?_, ?_⟩
  · -- only the stack pointer has been changed by what was pushed
    cases r with
    | esp => exact absurd rfl hr
    | _ => cases code <;> cases isrErr n <;> rfl
  · intro herr
    cases code with
    | none =>
        rw [herr]
        exact ⟨rfl, rfl, rfl, rfl⟩
    | some e =>
        rw [herr]
        exact ⟨rfl, rfl, rfl, rfl⟩
  · cases code with
    | none =>
        refine ⟨fun _ => rfl, fun _ => ?_⟩
        have hdrop : (((s.push s.eflags).push s.cs).push s.eip).drop 3 = s := by
          simp only [Context.drop_succ_push, Context.drop_zero]
        show { (((s.push s.eflags).push s.cs).push s.eip).drop 3 with
          eip := s.eip, cs := s.cs, eflags := s.eflags } = s
        rw [hdrop]
    | some e =>
        refine ⟨fun h => ?_, fun h => by cases h⟩
        -- the error code is still below the stack pointer's place
        have hlen := congrArg (fun t => t.stack.length) h
        exact absurd hlen (Nat.succ_ne_self s.stack.length)

end LBoot.Intr
