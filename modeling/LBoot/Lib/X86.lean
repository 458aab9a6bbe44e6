/-
  LBoot.Lib.X86

  A processor of the x86 family that goes between protected and real mode.

  A segment register holds, beside its selector, what the processor took from
  the descriptor, which it marks as accessed in memory; loading one in real
  mode changes the base only.  Code is a list of instructions, each with the
  size (16 or 32 bits) it was assembled for, and runs only in a code segment of
  that size.  What the processor refuses is `none`.

  `int` is there in real mode only; what runs behind it, and what the ports
  hold, is a parameter.
-/

import LBoot.Lib.LittleEndian
import LBoot.Lib.Memory
import Mathlib.Data.List.Nodup
import Mathlib.Data.Set.Function

namespace LBoot.Lib.X86

open LBoot.Lib

/-! ## State -/

/-- The general registers. -/
inductive Reg where
  | eax
  | ecx
  | edx
  | ebx
  | esp
  | ebp
  | esi
  | edi
  deriving DecidableEq, Repr

/-- What they hold. -/
abbrev Regs := Reg → UInt32

/-- The registers of `pusha`, from the last one pushed on. -/
def allRegs : List Reg := [.edi, .esi, .ebp, .esp, .ebx, .edx, .ecx, .eax]

namespace Regs

def set (g : Regs) (r : Reg) (v : UInt32) : Regs := fun r' => if r' = r then v else g r'

/-- What `popa` leaves of `v`: the stack pointer is not taken from there. -/
def restore (g v : Regs) : Regs := fun r => if r = .esp then g r else v r

theorem set_self (g : Regs) (r : Reg) : g.set r (g r) = g := by
  funext r'
  rw [set]
  split_ifs with h
  · rw [h]
  · rfl

theorem set_set (g : Regs) (r : Reg) (v w : UInt32) : (g.set r v).set r w = g.set r w := by
  funext r'
  rw [set, set, set]
  split_ifs <;> rfl

end Regs

/-- The segment registers. -/
inductive SReg where
  | es
  | cs
  | ss
  | ds
  | fs
  | gs
  deriving DecidableEq, Repr

/-- A segment register, and what is kept of the descriptor. -/
structure Seg where
  selector : UInt16
  base : Nat
  limit : Nat
  /-- code, or a stack pointer, of 32 bits -/
  big : Bool
  deriving DecidableEq, Repr

/-- `gdtr` or `idtr`: where the table is, and its last byte. -/
structure Table where
  limit : Nat
  base : Nat
  deriving DecidableEq, Repr

structure Cpu where
  gpr : Regs
  seg : SReg → Seg
  cr0 : UInt32
  eflags : UInt32
  gdtr : Table
  idtr : Table
  /-- the task register -/
  tr : Seg
  eip : UInt32
  mem : Int → UInt8
  /-- the ports written to, with the values -/
  outs : List (UInt8 × UInt8)

/-- What is around the processor. -/
structure Board where
  /-- the value read from a port -/
  inp : Cpu → UInt8 → UInt8
  /-- an interrupt in real mode, until it returns -/
  bios : UInt8 → Cpu → Cpu

namespace Cpu

/-- Protected mode. -/
def Pe (s : Cpu) : Prop := s.cr0 &&& 1 = 1

instance (s : Cpu) : Decidable s.Pe := inferInstanceAs (Decidable (_ = _))

/-- Interrupts are enabled. -/
def If (s : Cpu) : Prop := s.eflags &&& 0x200 ≠ 0

def set (s : Cpu) (r : Reg) (v : UInt32) : Cpu :=
  { s with gpr := s.gpr.set r v }

/-- The low `n` bytes of a register. -/
def setLow (s : Cpu) (n : Nat) (r : Reg) (v : Nat) : Cpu :=
  s.set r (UInt32.ofNat ((s.gpr r).toNat / 256 ^ n * 256 ^ n + v % 256 ^ n))

def setSeg (s : Cpu) (r : SReg) (v : Seg) : Cpu :=
  { s with seg := fun r' => if r' = r then v else s.seg r' }

/-! ## Memory -/

/-- The linear address of `n` bytes of a segment, if they are within its
    limit. -/
def linear (s : Cpu) (r : SReg) (off n : Nat) : Option Nat :=
  if off + n ≤ (s.seg r).limit + 1 then some ((s.seg r).base + off) else none

def load (s : Cpu) (r : SReg) (off n : Nat) : Option (List UInt8) :=
  (s.linear r off n).map fun a : Nat => loadAt s.mem a n

def store (s : Cpu) (r : SReg) (off : Nat) (bs : List UInt8) : Option Cpu :=
  (s.linear r off bs.length).map fun a : Nat => { s with mem := storeAt s.mem a bs }

/-! ## The stack -/

/-- The width of the stack pointer, as a modulus. -/
def spSize (s : Cpu) : Nat := if (s.seg .ss).big then 2 ^ 32 else 2 ^ 16

def sp (s : Cpu) : Nat := (s.gpr .esp).toNat % s.spSize

def setSp (s : Cpu) (v : Nat) : Cpu := s.setLow (if (s.seg .ss).big then 4 else 2) .esp v

def push (s : Cpu) (bs : List UInt8) : Option Cpu :=
  let v := (s.sp + s.spSize - bs.length) % s.spSize
  (s.store .ss v bs).map (·.setSp v)

def pop (s : Cpu) (n : Nat) : Option (List UInt8 × Cpu) :=
  (s.load .ss s.sp n).map fun bs => (bs, s.setSp ((s.sp + n) % s.spSize))

end Cpu

/-! ## Descriptors -/

/-- What the processor keeps of a descriptor. -/
def segOf (selector : UInt16) (d : List UInt8) : Seg where
  selector := selector
  base := leField d 2 3 + 2 ^ 24 * (d.getD 7 0).toNat
  limit :=
    let pages := leField d 0 2 + 2 ^ 16 * ((d.getD 6 0).toNat % 16)
    if d.getD 6 0 &&& 0x80 = 0 then pages else pages * 4096 + 4095
  big := decide (d.getD 6 0 &&& 0x40 ≠ 0)

/-- A descriptor that has been loaded: its accessed bit is set. -/
def marked (d : List UInt8) : List UInt8 := d.set 5 (d.getD 5 0 ||| 0x01)

/-- A present code segment of the highest privilege. -/
def IsCode (d : List UInt8) : Prop := d.getD 5 0 &&& 0xf8 = 0x98

/-- A present writable data segment of the highest privilege. -/
def IsData (d : List UInt8) : Prop := d.getD 5 0 &&& 0xfa = 0x92

instance (d : List UInt8) : Decidable (IsCode d) := inferInstanceAs (Decidable (_ = _))

instance (d : List UInt8) : Decidable (IsData d) := inferInstanceAs (Decidable (_ = _))

/-- What the processor takes from a gate of 32 bits. -/
structure Gate where
  offset : Nat
  selector : Nat
  /-- the flags: present, privilege level, type -/
  present : Bool
  dpl : UInt8
  type : UInt8
  deriving DecidableEq, Repr

def gateOf (d : List UInt8) : Gate where
  offset := leField d 0 2 + 2 ^ 16 * leField d 6 2
  selector := leField d 2 2
  present := decide (d.getD 5 0 &&& 0x80 ≠ 0)
  dpl := (d.getD 5 0 >>> 5) &&& 0x03
  type := d.getD 5 0 &&& 0x1f

/-- The gate of interrupt `n`. -/
def Table.gate (t : Table) (m : Int → UInt8) (n : Nat) : Option Gate :=
  if 8 * n + 7 ≤ t.limit then some (gateOf (loadAt m ((t.base + 8 * n : Nat) : Int) 8)) else none

namespace Cpu

/-- The descriptor of a selector, in the global table. -/
def descriptor (s : Cpu) (selector : UInt16) : Option (List UInt8) :=
  let off := selector.toNat / 8 * 8
  if selector.toNat % 8 = 0 ∧ 0 < off ∧ off + 7 ≤ s.gdtr.limit then
    some (loadAt s.mem ((s.gdtr.base + off : Nat) : Int) 8)
  else none

/-- Where the flags of a descriptor are. -/
def flagsAt (s : Cpu) (selector : UInt16) : Int :=
  ((s.gdtr.base + (selector.toNat / 8 * 8 + 5) : Nat) : Int)

/-- A segment register is loaded.  `P` is what its descriptor must be in
    protected mode, where it is marked as accessed. -/
def loadSeg (s : Cpu) (P : List UInt8 → Prop) [DecidablePred P] (r : SReg) (selector : UInt16) :
    Option Cpu :=
  if s.Pe then
    match s.descriptor selector with
    | none => none
    | some d =>
        if P d then
          some { s.setSeg r (segOf selector d) with
            mem := storeAt s.mem (s.flagsAt selector) [d.getD 5 0 ||| 0x01] }
        else none
  -- in real mode the limit and the size stay what they were
  else some (s.setSeg r { s.seg r with selector := selector, base := selector.toNat * 16 })

/-- The task register is loaded with the descriptor of an available task, which
    is marked busy. -/
def loadTask (s : Cpu) (selector : UInt16) : Option Cpu :=
  if s.Pe then
    match s.descriptor selector with
    | none => none
    | some d =>
        if d.getD 5 0 &&& 0x9f = 0x89 then
          some { s with
            tr := segOf selector d
            mem := storeAt s.mem (s.flagsAt selector) [d.getD 5 0 ||| 0x02] }
        else none
  else none

/-- The size of an address, and of an operand, in bytes. -/
def codeBytes (s : Cpu) : Nat := if (s.seg .cs).big then 4 else 2

end Cpu

/-! ## Instructions -/

/-- A memory operand: a displacement, and a register added to it. -/
structure Mem where
  base : Option Reg
  disp : Nat
  deriving DecidableEq, Repr

/-- Its segment. -/
def Mem.sreg (a : Mem) : SReg := if a.base = some .esp ∨ a.base = some .ebp then .ss else .ds

/-- Its offset, reduced to the size of an address. -/
def Cpu.ea (s : Cpu) (a : Mem) : Nat :=
  let base := match a.base with
    | none => 0
    | some r => (s.gpr r).toNat
  (base + a.disp) % 256 ^ s.codeBytes

inductive Logic where
  | and
  | or
  | xor
  deriving DecidableEq, Repr

def Logic.op : Logic → UInt32 → UInt32 → UInt32
  | .and, x, y => x &&& y
  | .or, x, y => x ||| y
  | .xor, x, y => x ^^^ y

/-- The flags behind a logical instruction of `n` bytes. -/
def logicFlags (n : Nat) (res : Nat) (eflags : UInt32) : UInt32 :=
  let zf : UInt32 := if res = 0 then 0x40 else 0
  let sf : UInt32 := if 256 ^ n ≤ 2 * res then 0x80 else 0
  let pf : UInt32 := if (List.range 8).countP (res.testBit ·) % 2 = 0 then 0x04 else 0
  eflags &&& 0xfffff73a ||| (zf ||| (sf ||| pf))

/-- The instructions; a number in front of a register is the size of the
    operand in bytes. -/
inductive Instr where
  | pusha (n : Nat)
  | popa (n : Nat)
  | pushfl
  | push (n : Nat) (r : Reg)
  | pop (n : Nat) (r : Reg)
  | ret
  | movImm (n : Nat) (r : Reg) (v : Nat)
  | movLoad (n : Nat) (r : Reg) (a : Mem)
  | movStore (n : Nat) (a : Mem) (r : Reg)
  | movSeg (sr : SReg) (r : Reg)
  | movFromCr0 (r : Reg)
  | movToCr0 (r : Reg)
  /-- with an immediate operand -/
  | logic (op : Logic) (n : Nat) (r : Reg) (v : UInt32)
  /-- `xor` of a register with itself -/
  | clear (n : Nat) (r : Reg)
  /-- `and`, of which only the flags are kept -/
  | test (n : Nat) (r : Reg) (v : UInt32)
  /-- comparison with zero -/
  | cmpZero (n : Nat) (r : Reg)
  /-- the second lowest byte -/
  | movHigh (r : Reg) (v : UInt8)
  | sgdt (a : Mem)
  | sidt (a : Mem)
  | lgdt (a : Mem)
  | lidt (a : Mem)
  | inb (port : UInt8)
  | outb (port : UInt8)
  | cli
  | sti
  /-- to the instruction behind it, in another segment -/
  | ljmp (selector : UInt16)
  /-- the number is the byte of the code at `a` -/
  | int (a : Nat)
  | ltr (r : Reg)
  /-- to `target`; the instruction behind it is at `next` -/
  | call (target next : Nat)
  | jmp (target : Nat)
  | lodsb
  deriving DecidableEq, Repr

/-- The limit and the base of a table, as they are stored. -/
def Table.bytes (t : Table) : List UInt8 := toLe 2 t.limit ++ toLe 4 t.base

/-- What is loaded from there; code of 16 bits takes 24 bits of the base. -/
def Table.ofBytes (big : Bool) (bs : List UInt8) : Table :=
  ⟨leField bs 0 2, if big then leField bs 2 4 else leField bs 2 3⟩

namespace Cpu

/-- `n` low bytes of all registers. -/
def allBytes (s : Cpu) (n : Nat) : List UInt8 := allRegs.flatMap fun r => toLe n (s.gpr r).toNat

/-- They are taken back, but for the stack pointer. -/
def setAll (s : Cpu) (n : Nat) (bs : List UInt8) : Cpu :=
  { s with gpr := s.gpr.restore fun r =>
      UInt32.ofNat ((s.gpr r).toNat / 256 ^ n * 256 ^ n + leField bs (n * allRegs.idxOf r) n) }

end Cpu

/-- What an instruction does. -/
def step (b : Board) (s : Cpu) : Instr → Option Cpu
  | .pusha n => s.push (s.allBytes n)
  | .popa n => (s.pop (8 * n)).map fun (bs, s) => s.setAll n bs
  | .pushfl => s.push (toLe 4 s.eflags.toNat)
  | .push n r => s.push (toLe n (s.gpr r).toNat)
  | .pop n r => (s.pop n).map fun (bs, s) => s.setLow n r (leNat bs)
  | .ret => (s.pop s.codeBytes).map fun (bs, s) => { s with eip := UInt32.ofNat (leNat bs) }
  | .movImm n r v => some (s.setLow n r v)
  | .movLoad n r a => (s.load a.sreg (s.ea a) n).map fun bs => s.setLow n r (leNat bs)
  | .movStore n a r => s.store a.sreg (s.ea a) (toLe n (s.gpr r).toNat)
  | .movSeg sr r => s.loadSeg IsData sr (s.gpr r).toUInt16
  | .movFromCr0 r => some (s.set r s.cr0)
  | .movToCr0 r => some { s with cr0 := s.gpr r }
  | .logic op n r v =>
      let res := (op.op (s.gpr r) v).toNat % 256 ^ n
      some { s.setLow n r res with eflags := logicFlags n res s.eflags }
  | .clear n r => some { s.setLow n r 0 with eflags := logicFlags n 0 s.eflags }
  | .test n r v => some { s with
      eflags := logicFlags n ((s.gpr r &&& v).toNat % 256 ^ n) s.eflags }
  | .cmpZero n r => some { s with
      eflags := logicFlags n ((s.gpr r).toNat % 256 ^ n) s.eflags &&& 0xffffffef }
  | .movHigh r v => some (s.setLow 2 r ((s.gpr r).toNat % 256 + 256 * v.toNat))
  | .sgdt a => s.store a.sreg (s.ea a) s.gdtr.bytes
  | .sidt a => s.store a.sreg (s.ea a) s.idtr.bytes
  | .lgdt a => (s.load a.sreg (s.ea a) 6).map fun bs =>
      { s with gdtr := Table.ofBytes (s.seg .cs).big bs }
  | .lidt a => (s.load a.sreg (s.ea a) 6).map fun bs =>
      { s with idtr := Table.ofBytes (s.seg .cs).big bs }
  | .inb port => some (s.setLow 1 .eax (b.inp s port).toNat)
  | .outb port => some { s with outs := s.outs ++ [(port, (s.gpr .eax).toUInt8)] }
  | .cli => some { s with eflags := s.eflags &&& 0xfffffdff }
  | .sti => some { s with eflags := s.eflags ||| 0x200 }
  | .ljmp selector => s.loadSeg IsCode .cs selector
  | .int a => if s.Pe then none else some (b.bios (s.mem ((s.seg .cs).base + a : Nat)) s)
  | .ltr r => s.loadTask (s.gpr r).toUInt16
  | .call target next =>
      (s.push (toLe s.codeBytes next)).map fun s => { s with eip := UInt32.ofNat target }
  | .jmp target => some { s with eip := UInt32.ofNat target }
  | .lodsb =>
      let si := (s.gpr .esi).toNat % 256 ^ s.codeBytes
      -- the direction flag says which byte is next
      (s.load .ds si 1).map fun bs =>
        let si := if s.eflags &&& 0x400 = 0 then si + 1 else si + 256 ^ s.codeBytes - 1
        (s.setLow 1 .eax (leNat bs)).setLow s.codeBytes .esi si

/-- Instructions assembled for code of 32 bits, or of 16. -/
def code (big : Bool) (is : List Instr) : List (Bool × Instr) := is.map fun i => (big, i)

def run (b : Board) : List (Bool × Instr) → Cpu → Option Cpu
  | [], s => some s
  | (big, i) :: is, s => if (s.seg .cs).big = big then (step b s i).bind (run b is) else none

/-- What a call into unknown code leaves as it was: the segments, the mode, the
    stack pointer, and the memory in `kept`. -/
structure KeepsCaller (kept : Set Int) (s t : Cpu) : Prop where
  seg : t.seg = s.seg
  cr0 : t.cr0 = s.cr0
  esp : t.gpr .esp = s.gpr .esp
  mem : Set.EqOn t.mem s.mem kept

theorem KeepsCaller.trans {kept : Set Int} {s t u : Cpu} (h : KeepsCaller kept s t)
    (h' : KeepsCaller kept t u) : KeepsCaller kept s u where
  seg := h'.seg.trans h.seg
  cr0 := h'.cr0.trans h.cr0
  esp := h'.esp.trans h.esp
  mem := h'.mem.trans h.mem

/-! ## Runs -/

/-- The run ends, in a state that `Q` holds of. -/
def Wp (b : Board) (p : List (Bool × Instr)) (s : Cpu) (Q : Cpu → Prop) : Prop :=
  ∃ t, run b p s = some t ∧ Q t

namespace Wp

variable {b : Board} {s t : Cpu} {p q : List (Bool × Instr)} {big : Bool} {i : Instr}
  {is : List Instr} {Q R : Cpu → Prop}

theorem nil (h : Q s) : Wp b (code big []) s Q := ⟨s, rfl, h⟩

theorem mono (h : Wp b p s Q) (himp : ∀ t, Q t → R t) : Wp b p s R := by
  obtain ⟨t, hrun, ht⟩ := h
  exact ⟨t, hrun, himp t ht⟩

/-- One instruction. -/
theorem cons (hbig : (s.seg .cs).big = big) (hstep : step b s i = some t)
    (h : Wp b (code big is) t Q) : Wp b (code big (i :: is)) s Q := by
  obtain ⟨u, hrun, hu⟩ := h
  refine ⟨u, ?_, hu⟩
  show (if (s.seg .cs).big = big then (step b s i).bind (run b (code big is)) else none) = some u
  rw [if_pos hbig, hstep, Option.bind_some, hrun]

/-- One piece of code behind another. -/
theorem append (h : Wp b p s fun t => Wp b q t Q) : Wp b (p ++ q) s Q := by
  obtain ⟨t, hrun, u, hrest, hu⟩ := h
  refine ⟨u, ?_, hu⟩
  -- along the first piece; the size of the segment is looked at each time
  induction p generalizing s with
  | nil =>
      obtain rfl := Option.some.inj hrun
      exact hrest
  | cons i p ih =>
      rw [List.cons_append, run]
      rw [run] at hrun
      split_ifs at hrun ⊢ with hbig
      obtain ⟨v, hstep, hrun⟩ := Option.bind_eq_some_iff.mp hrun
      rw [hstep, Option.bind_some, ih hrun]

theorem code_append (h : Wp b (code big is) s fun t => Wp b (code big is') t Q) :
    Wp b (code big (is ++ is')) s Q := by
  rw [code, List.map_append]
  exact append h

end Wp

/-! ## Flags -/

/-- The zero flag. -/
def Cpu.Zf (s : Cpu) : Prop := s.eflags &&& 0x40 ≠ 0

instance (s : Cpu) : Decidable s.Zf := inferInstanceAs (Decidable (_ ≠ _))

theorem or_and_right (x y z : UInt32) : (x ||| y) &&& z = x &&& z ||| y &&& z :=
  UInt32.toBitVec_inj.1 BitVec.and_or_distrib_right

/-- Behind `sti`. -/
theorem or_if (x : UInt32) : (x ||| 0x200) &&& 0x200 ≠ 0 := by
  intro h
  have hself : (0x200 : UInt32) &&& 0x200 = 0x200 := by decide
  rw [or_and_right, hself] at h
  have hnat := congrArg UInt32.toNat h
  rw [UInt32.toNat_or] at hnat
  exact absurd (Nat.or_eq_zero_iff.mp hnat).2 (by decide)

/-- Behind `cli`. -/
theorem and_if (x : UInt32) : x &&& 0xfffffdff &&& 0x200 = 0 := by
  have hcli : (0xfffffdff : UInt32) &&& 0x200 = 0 := by decide
  rw [UInt32.and_assoc, hcli, UInt32.and_zero]

/-- The interrupt flag is among those that are kept. -/
theorem if_of_flags {x y : UInt32} (h : x &&& 0x600 = y &&& 0x600) : x &&& 0x200 = y &&& 0x200 := by
  have hif : (0x600 : UInt32) &&& 0x200 = 0x200 := by decide
  rw [← hif, ← UInt32.and_assoc, h, UInt32.and_assoc]

/-- A logical instruction leaves the other flags alone. -/
theorem logicFlags_other (n res : Nat) (eflags : UInt32) {k : UInt32} (hkeep : 0xfffff73a &&& k = k)
    (hset : 0xc4 &&& k = 0) : logicFlags n res eflags &&& k = eflags &&& k := by
  -- the three flags that are set are none of `k`
  have hnone (x : UInt32) (hx : x &&& 0xc4 = x) : x &&& k = 0 := by
    rw [← hx, UInt32.and_assoc, hset, UInt32.and_zero]
  rw [logicFlags, or_and_right, UInt32.and_assoc, hkeep]
  refine (congrArg _ (hnone _ ?_)).trans UInt32.or_zero
  split_ifs <;> decide

theorem logicFlags_zf (n res : Nat) (eflags : UInt32) :
    logicFlags n res eflags &&& 0x40 = if res = 0 then 0x40 else 0 := by
  have hmask : (0xfffff73a : UInt32) &&& 0x40 = 0 := by decide
  rw [logicFlags, or_and_right, UInt32.and_assoc, hmask, UInt32.and_zero, UInt32.zero_or]
  split_ifs <;> decide

/-! ## Registers -/

namespace Cpu

variable {s : Cpu} {r r' : Reg}

theorem set_set (s : Cpu) (r : Reg) (v w : UInt32) : (s.set r v).set r w = s.set r w := by
  rw [set, set, set, Regs.set_set]

theorem gpr_set_of_ne (h : r' ≠ r) (v : UInt32) : (s.set r v).gpr r' = s.gpr r' := if_neg h

theorem gpr_setLow_of_ne (h : r' ≠ r) (n v : Nat) : (s.setLow n r v).gpr r' = s.gpr r' := if_neg h

theorem toNat_setLow {n : Nat} (hn : n ≤ 4) (v : Nat) :
    ((s.setLow n r v).gpr r).toNat = (s.gpr r).toNat / 256 ^ n * 256 ^ n + v % 256 ^ n := by
  have hlt := (s.gpr r).toNat_lt
  have hval : (s.setLow n r v).gpr r
      = UInt32.ofNat ((s.gpr r).toNat / 256 ^ n * 256 ^ n + v % 256 ^ n) := if_pos rfl
  rw [hval, UInt32.toNat_ofNat']
  apply Nat.mod_eq_of_lt
  obtain rfl | rfl | rfl | rfl | rfl : n = 0 ∨ n = 1 ∨ n = 2 ∨ n = 3 ∨ n = 4 := by omega
  all_goals omega

/-- What the low bytes of a register were set to. -/
theorem toNat_setLow_mod {n : Nat} (hn : n ≤ 4) (v : Nat) :
    ((s.setLow n r v).gpr r).toNat % 256 ^ n = v % 256 ^ n := by
  rw [toNat_setLow hn, Nat.add_comm, Nat.add_mul_mod_self_right, Nat.mod_mod]

/-- The selector that was put into a register. -/
theorem toUInt16_setLow (v : Nat) : ((s.setLow 2 r v).gpr r).toUInt16 = UInt16.ofNat v := by
  have hmod := toNat_setLow_mod (s := s) (r := r) (n := 2) (by decide) v
  apply UInt16.toNat_inj.mp
  rw [UInt32.toNat_toUInt16, UInt16.toNat_ofNat']
  exact hmod

theorem toUInt8_setLow (v : Nat) : ((s.setLow 1 r v).gpr r).toUInt8 = UInt8.ofNat v := by
  have hmod := toNat_setLow_mod (s := s) (r := r) (n := 1) (by decide) v
  apply UInt8.toNat_inj.mp
  rw [UInt32.toNat_toUInt8, UInt8.toNat_ofNat']
  exact hmod

/-- The byte that `movHigh` sets. -/
theorem toNat_setLow_high (v : UInt8) :
    ((s.setLow 2 r ((s.gpr r).toNat % 256 + 256 * v.toNat)).gpr r).toNat / 256 % 256 = v.toNat := by
  have hlt := v.toNat_lt
  have hval := toNat_setLow (s := s) (r := r) (n := 2) (by decide)
    ((s.gpr r).toNat % 256 + 256 * v.toNat)
  omega

theorem setLow_four (s : Cpu) (r : Reg) (v : Nat) : s.setLow 4 r v = s.set r (UInt32.ofNat v) := by
  have hlt := (s.gpr r).toNat_lt
  have hzero : (s.gpr r).toNat / 256 ^ 4 = 0 := Nat.div_eq_of_lt hlt
  rw [setLow, hzero, Nat.zero_mul, Nat.zero_add]
  congr 1
  apply UInt32.toNat_inj.mp
  rw [UInt32.toNat_ofNat', UInt32.toNat_ofNat']
  omega

/-- A logical instruction on a whole register. -/
theorem step_logic_four (b : Board) (s : Cpu) (op : Logic) (r : Reg) (v : UInt32) :
    step b s (.logic op 4 r v) = some { s.set r (op.op (s.gpr r) v) with
      eflags := logicFlags 4 (op.op (s.gpr r) v).toNat s.eflags } := by
  have hlt := (op.op (s.gpr r) v).toNat_lt
  have hmod : (op.op (s.gpr r) v).toNat % 256 ^ 4 = (op.op (s.gpr r) v).toNat :=
    Nat.mod_eq_of_lt hlt
  rw [step]
  dsimp only
  rw [hmod, setLow_four, UInt32.ofNat_toNat]

/-! ## Scratch work -/

/-- Only `eax` is changed, flags of logical instructions, and a port. -/
structure Scratch (port : UInt8) (s t : Cpu) : Prop where
  gpr : ∀ r ≠ .eax, t.gpr r = s.gpr r
  seg : t.seg = s.seg
  cr0 : t.cr0 = s.cr0
  flags : t.eflags &&& 0x600 = s.eflags &&& 0x600
  gdtr : t.gdtr = s.gdtr
  idtr : t.idtr = s.idtr
  tr : t.tr = s.tr
  eip : t.eip = s.eip
  mem : t.mem = s.mem
  outs : ∃ l, t.outs = s.outs ++ l ∧ ∀ w ∈ l, w.1 = port

/-- The instructions that do nothing else. -/
def isScratch (port : UInt8) : Instr → Bool
  | .movImm _ r _ => r = .eax
  | .movFromCr0 r => r = .eax
  | .logic _ _ r _ => r = .eax
  | .clear _ r => r = .eax
  | .inb _ => true
  | .outb p => p = port
  | _ => false

theorem Scratch.refl (port : UInt8) (s : Cpu) : Scratch port s s where
  gpr _ _ := rfl
  seg := rfl
  cr0 := rfl
  flags := rfl
  gdtr := rfl
  idtr := rfl
  tr := rfl
  eip := rfl
  mem := rfl
  outs := ⟨[], (List.append_nil _).symm, fun _ h => absurd h List.not_mem_nil⟩

theorem Scratch.trans {port : UInt8} {t u : Cpu} (h : Scratch port s t) (h' : Scratch port t u) :
    Scratch port s u where
  gpr r hr := (h'.gpr r hr).trans (h.gpr r hr)
  seg := h'.seg.trans h.seg
  cr0 := h'.cr0.trans h.cr0
  flags := h'.flags.trans h.flags
  gdtr := h'.gdtr.trans h.gdtr
  idtr := h'.idtr.trans h.idtr
  tr := h'.tr.trans h.tr
  eip := h'.eip.trans h.eip
  mem := h'.mem.trans h.mem
  outs := by
    obtain ⟨l, hl, hall⟩ := h.outs
    obtain ⟨l', hl', hall'⟩ := h'.outs
    refine ⟨l ++ l', by rw [hl', hl, List.append_assoc], fun w hw => ?_⟩
    exact (List.mem_append.mp hw).elim (hall w) (hall' w)

theorem Scratch.pe {port : UInt8} {t : Cpu} (h : Scratch port s t) (hpe : s.Pe) : t.Pe := by
  rw [Pe, h.cr0]
  exact hpe

theorem Scratch.set (port : UInt8) (s : Cpu) (v : UInt32) : Scratch port s (s.set .eax v) :=
  { Scratch.refl port s with gpr := fun _ hr => if_neg hr }

theorem Scratch.logic (port : UInt8) (s : Cpu) (n res : Nat) (v : UInt32) :
    Scratch port s { s.set .eax v with eflags := logicFlags n res s.eflags } :=
  { Scratch.set port s v with flags := logicFlags_other n res s.eflags (by decide) (by decide) }

theorem step_scratch {port : UInt8} {i : Instr} (h : isScratch port i = true) (b : Board) (s : Cpu) :
    ∃ t, step b s i = some t ∧ Scratch port s t := by
  cases i with
  | movImm n r v =>
      obtain rfl : r = .eax := of_decide_eq_true h
      exact ⟨_, rfl, Scratch.set port s _⟩
  | movFromCr0 r =>
      obtain rfl : r = .eax := of_decide_eq_true h
      exact ⟨_, rfl, Scratch.set port s _⟩
  | logic op n r v =>
      obtain rfl : r = .eax := of_decide_eq_true h
      exact ⟨_, rfl, Scratch.logic port s n _ _⟩
  | clear n r =>
      obtain rfl : r = .eax := of_decide_eq_true h
      exact ⟨_, rfl, Scratch.logic port s n _ _⟩
  | inb p => exact ⟨_, rfl, Scratch.set port s _⟩
  | outb p =>
      obtain rfl : p = port := of_decide_eq_true h
      refine ⟨_, rfl, { Scratch.refl p s with outs := ⟨_, rfl, fun w hw => ?_⟩ }⟩
      rw [List.mem_singleton.mp hw]
  | _ => cases h

/-- A piece of code that does nothing else. -/
theorem wp_scratch (port : UInt8) {b : Board} {big : Bool} {is : List Instr} {Q : Cpu → Prop}
    (his : ∀ i ∈ is, isScratch port i = true) (hbig : (s.seg .cs).big = big)
    (hQ : ∀ t, Scratch port s t → Q t) : Wp b (code big is) s Q := by
  induction is generalizing s with
  | nil => exact Wp.nil (hQ s (Scratch.refl port s))
  | cons i is ih =>
      obtain ⟨hi, his⟩ := List.forall_mem_cons.mp his
      obtain ⟨t, hstep, ht⟩ := step_scratch hi b s
      exact Wp.cons hbig hstep (ih his (by rw [ht.seg, hbig]) fun u hu => hQ u (ht.trans hu))

/-! ## Flat segments -/

/-- All segments start at zero and reach up to 64 KiB at least. -/
def Flat (s : Cpu) : Prop := ∀ r, (s.seg r).base = 0 ∧ 0xffff ≤ (s.seg r).limit

/-- Segments that are loaded one after the other, from one selector: what the
    first of them leaves in memory stays so. -/
theorem wp_movSegs {b : Board} {big : Bool} {f : SReg → Seg} {rs : List SReg} {m : Int → UInt8}
    {Q : Cpu → Prop} (hcs : .cs ∉ rs) (hnodup : rs.Nodup) (hbig : (s.seg .cs).big = big)
    (hload : ∀ r ∈ rs, ∀ (g : SReg → Seg) (m' : Int → UInt8), g r = s.seg r →
      m' = s.mem ∨ m' = m → Cpu.loadSeg { s with seg := g, mem := m' } IsData r (s.gpr r').toUInt16
        = some { s with seg := fun q => if q = r then f r else g q, mem := m })
    (hQ : Q { s with
      seg := fun r => if r ∈ rs then f r else s.seg r
      mem := if rs = [] then s.mem else m }) :
    Wp b (code big (rs.map (.movSeg · r'))) s Q := by
  -- from the second on the descriptor is marked already, and memory stays `m`
  induction rs generalizing s with
  | nil => exact Wp.nil hQ
  | cons r rs ih =>
      obtain ⟨hr, hnodup⟩ := List.nodup_cons.mp hnodup
      have hne : SReg.cs ≠ r := fun h => hcs (h ▸ List.mem_cons_self)
      have hstep := hload r List.mem_cons_self s.seg s.mem rfl (Or.inl rfl)
      refine Wp.cons hbig hstep (ih (fun h => hcs (List.mem_cons_of_mem r h)) hnodup ?_ ?_ ?_)
      · exact (congrArg Seg.big (if_neg hne)).trans hbig
      · intro q hq g m' hg hm
        have hqr : q ≠ r := fun h => hr (h ▸ hq)
        exact hload q (List.mem_cons_of_mem r hq) g m' (hg.trans (if_neg hqr)) (Or.inr (or_self_iff.mp hm))
      · have hseg : (fun q => if q ∈ rs then f q else if q = r then f r else s.seg q) =
            fun q => if q ∈ r :: rs then f q else s.seg q := by
          funext q
          by_cases hq : q ∈ rs
          · rw [if_pos hq, if_pos (List.mem_cons_of_mem r hq)]
          · by_cases heq : q = r
            · rw [if_neg hq, if_pos heq, heq, if_pos List.mem_cons_self]
            · rw [if_neg hq, if_neg heq, if_neg]
              exact fun h => (List.mem_cons.mp h).elim heq hq
        have hmem : (if rs = [] then m else m) = if r :: rs = [] then s.mem else m := by
          rw [if_neg (List.cons_ne_nil r rs)]
          exact ite_self m
        show Q { s with seg := _, mem := if rs = [] then m else m }
        rw [hseg, hmem]
        exact hQ

section Flat

variable {sr : SReg} {off n a : Nat} {bs : List UInt8}

theorem Flat.linear (h : s.Flat) (hoff : off + n ≤ 2 ^ 16) : s.linear sr off n = some off := by
  obtain ⟨hbase, hlimit⟩ := h sr
  rw [Cpu.linear, if_pos (by omega), hbase, Nat.zero_add]

theorem Flat.load (h : s.Flat) (hoff : off + n ≤ 2 ^ 16) :
    s.load sr off n = some (loadAt s.mem off n) := by
  rw [Cpu.load, h.linear hoff, Option.map_some]

theorem Flat.store (h : s.Flat) (hoff : off + bs.length ≤ 2 ^ 16) :
    s.store sr off bs = some { s with mem := storeAt s.mem off bs } := by
  rw [Cpu.store, h.linear hoff, Option.map_some]

/-- An address below 64 KiB is the same with 16 and with 32 bits. -/
theorem ea_of_lt {m : Mem} (hbase : ∀ r ∈ m.base, (s.gpr r).toNat = a)
    (hnone : m.base = none → a = 0) (hlt : a + m.disp < 2 ^ 16) : s.ea m = a + m.disp := by
  have hsum : (match m.base with | none => 0 | some r => (s.gpr r).toNat) = a := by
    cases hm : m.base with
    | none => exact (hnone hm).symm
    | some r => exact hbase r (by rw [hm]; rfl)
  rw [ea, hsum, codeBytes]
  apply Nat.mod_eq_of_lt
  split <;> omega

theorem sp_of_lt (hesp : (s.gpr .esp).toNat = a) (ha : a < 2 ^ 16) :
    s.sp = a ∧ 2 ^ 16 ≤ s.spSize := by
  rw [sp, hesp, spSize]
  split
  · exact ⟨Nat.mod_eq_of_lt (by omega), by decide⟩
  · exact ⟨Nat.mod_eq_of_lt ha, Nat.le_refl _⟩

/-- A stack pointer below 64 KiB is the same with 16 and with 32 bits. -/
theorem setSp_of_lt (hesp : (s.gpr .esp).toNat < 2 ^ 16) {v : Nat} (hv : v < 2 ^ 16) :
    s.setSp v = s.set .esp (UInt32.ofNat v) := by
  rw [setSp]
  split
  · exact setLow_four s .esp v
  · have hzero : (s.gpr .esp).toNat / 256 ^ 2 = 0 := Nat.div_eq_of_lt hesp
    have hmod : v % 256 ^ 2 = v := Nat.mod_eq_of_lt hv
    rw [setLow, hzero, Nat.zero_mul, Nat.zero_add, hmod]

theorem Flat.push (h : s.Flat) (hesp : (s.gpr .esp).toNat = a) (ha : a < 2 ^ 16)
    (hlen : bs.length ≤ a) : s.push bs = some
      { s.set .esp (UInt32.ofNat (a - bs.length)) with
        mem := storeAt s.mem ((a - bs.length : Nat) : Int) bs } := by
  obtain ⟨hsp, hsize⟩ := sp_of_lt hesp ha
  have hsub : (a + s.spSize - bs.length) % s.spSize = a - bs.length := by
    have hcomm : a + s.spSize - bs.length = a - bs.length + s.spSize := by omega
    rw [hcomm, Nat.add_mod_right, Nat.mod_eq_of_lt (by omega)]
  have hlow : (s.gpr .esp).toNat < 2 ^ 16 := by omega
  rw [Cpu.push, hsp, hsub, h.store (by omega), Option.map_some]
  exact congrArg some <|
    setSp_of_lt (s := { s with mem := storeAt s.mem ((a - bs.length : Nat) : Int) bs }) hlow (by omega)

/-- A call pushes the address behind it. -/
theorem Flat.step_call {b : Board} (h : s.Flat) (hesp : (s.gpr .esp).toNat = a) (ha : a < 2 ^ 16)
    (hsize : s.codeBytes = n) (hroom : n ≤ a) (target next : Nat) :
    step b s (.call target next) = some { s.set .esp (UInt32.ofNat (a - n)) with
      eip := UInt32.ofNat target
      mem := storeAt s.mem ((a - n : Nat) : Int) (toLe n next) } := by
  have hpush := @Flat.push s a (toLe n next) h hesp ha (by rw [length_toLe]; exact hroom)
  rw [length_toLe] at hpush
  rw [step, hsize, hpush, Option.map_some]

theorem Flat.pop (h : s.Flat) (hesp : (s.gpr .esp).toNat = a) (ha : a + n < 2 ^ 16) :
    s.pop n = some (loadAt s.mem a n, s.set .esp (UInt32.ofNat (a + n))) := by
  obtain ⟨hsp, hsize⟩ := sp_of_lt hesp (by omega)
  rw [Cpu.pop, hsp, Nat.mod_eq_of_lt (by omega), h.load (by omega), Option.map_some,
    setSp_of_lt (by omega) ha]

/-- An absolute operand. -/
theorem ea_none {x : Nat} (hx : x < 2 ^ 16) : s.ea ⟨none, x⟩ = x := by
  have hea := ea_of_lt (s := s) (m := ⟨none, x⟩) (a := 0) (fun _ h => by cases h) (fun _ => rfl)
    (by show 0 + x < 2 ^ 16; omega)
  exact hea.trans (Nat.zero_add x)

/-- An operand of 16 bits; the upper half of the register plays no part. -/
theorem ea_sixteen (hcode : (s.seg .cs).big = false) {x disp : Nat}
    (hx : (s.gpr r).toNat % 2 ^ 16 = x) (hlt : x + disp < 2 ^ 16) : s.ea ⟨some r, disp⟩ = x + disp := by
  have hsize : s.codeBytes = 2 := by rw [codeBytes, hcode]; rfl
  rw [ea, hsize]
  show ((s.gpr r).toNat + disp) % 2 ^ 16 = x + disp
  omega

section Table

variable {b : Board} {x : Nat} {t : Table} {m : Mem}

theorem Flat.step_movLoad (h : s.Flat) (hea : s.ea m = x) (hx : x + n ≤ 2 ^ 16) :
    step b s (.movLoad n r m) = some (s.setLow n r (leNat (loadAt s.mem x n))) := by
  rw [step, hea, h.load hx, Option.map_some]

theorem Flat.step_movStore (h : s.Flat) (hea : s.ea m = x) (hx : x + n ≤ 2 ^ 16) :
    step b s (.movStore n m r) =
      some { s with mem := storeAt s.mem x (toLe n (s.gpr r).toNat) } := by
  rw [step, hea, h.store (by rw [length_toLe]; exact hx)]

theorem Flat.step_sgdt (h : s.Flat) (hx : x + 6 ≤ 2 ^ 16) :
    step b s (.sgdt ⟨none, x⟩) = some { s with mem := storeAt s.mem x s.gdtr.bytes } := by
  rw [step, ea_none (by omega), h.store hx]

theorem Flat.step_sidt (h : s.Flat) (hx : x + 6 ≤ 2 ^ 16) :
    step b s (.sidt ⟨none, x⟩) = some { s with mem := storeAt s.mem x s.idtr.bytes } := by
  rw [step, ea_none (by omega), h.store hx]

/-- A table that is read back. -/
theorem ofBytes_bytes {big : Bool} (hlimit : t.limit < 2 ^ 16)
    (hbase : t.base < 256 ^ (if big then 4 else 3)) : Table.ofBytes big t.bytes = t := by
  have hlow : leField t.bytes 0 2 = t.limit := leNat_toLe_of_lt (w := 2) hlimit
  cases big with
  | true =>
      have hwhole : leField t.bytes 2 4 = t.base := leNat_toLe_of_lt (w := 4) hbase
      rw [Table.ofBytes, hlow, if_pos rfl, hwhole]
  | false =>
      have hpart : leField t.bytes 2 3 = t.base := leNat_toLe_of_lt (w := 3) hbase
      rw [Table.ofBytes, hlow, if_neg Bool.false_ne_true, hpart]

/-- A table register is loaded from an address below 64 KiB. -/
theorem Flat.step_lgdt (h : s.Flat) (hx : x + 6 ≤ 2 ^ 16) (ht : loadAt s.mem x 6 = t.bytes)
    (hlimit : t.limit < 2 ^ 16) (hbase : t.base < 256 ^ (if (s.seg .cs).big then 4 else 3)) :
    step b s (.lgdt ⟨none, x⟩) = some { s with gdtr := t } := by
  have hload : s.load (Mem.sreg ⟨none, x⟩) (s.ea ⟨none, x⟩) 6 = some t.bytes := by
    rw [ea_none (by omega), h.load hx, ht]
  rw [step, hload, Option.map_some, ofBytes_bytes hlimit hbase]

theorem Flat.step_lidt (h : s.Flat) (hx : x + 6 ≤ 2 ^ 16) (ht : loadAt s.mem x 6 = t.bytes)
    (hlimit : t.limit < 2 ^ 16) (hbase : t.base < 256 ^ (if (s.seg .cs).big then 4 else 3)) :
    step b s (.lidt ⟨none, x⟩) = some { s with idtr := t } := by
  have hload : s.load (Mem.sreg ⟨none, x⟩) (s.ea ⟨none, x⟩) 6 = some t.bytes := by
    rw [ea_none (by omega), h.load hx, ht]
  rw [step, hload, Option.map_some, ofBytes_bytes hlimit hbase]

end Table

/-- How a routine that began with `pusha` ends. -/
theorem Flat.wp_popa_ret {b : Board} {big : Bool} (h : s.Flat) (hbig : (s.seg .cs).big = big)
    (hsize : s.codeBytes = n) (hesp : (s.gpr .esp).toNat = a) (ha : a + 9 * n < 2 ^ 16) :
    Wp b (code big [.popa n, .ret]) s (· = { s with
      gpr := fun r => if r = .esp then UInt32.ofNat (a + 9 * n) else UInt32.ofNat
        ((s.gpr r).toNat / 256 ^ n * 256 ^ n + leField (loadAt s.mem a (8 * n)) (n * allRegs.idxOf r) n)
      eip := UInt32.ofNat (leNat (loadAt s.mem ((a + 8 * n : Nat) : Int) n)) }) := by
  let t := (s.set .esp (UInt32.ofNat (a + 8 * n))).setAll n (loadAt s.mem a (8 * n))
  have hpopa : step b s (.popa n) = some t := by
    rw [step, h.pop hesp (by omega), Option.map_some]
  -- `popa` skips the stack pointer that was pushed
  have htesp : (t.gpr .esp).toNat = a + 8 * n := by
    show (UInt32.ofNat (a + 8 * n)).toNat = _
    rw [UInt32.toNat_ofNat']
    omega
  have hsum : a + 8 * n + n = a + 9 * n := by omega
  have hret : step b t .ret = some { t.set .esp (UInt32.ofNat (a + 9 * n)) with
      eip := UInt32.ofNat (leNat (loadAt s.mem ((a + 8 * n : Nat) : Int) n)) } := by
    have hpop : t.pop n = _ := Flat.pop (s := t) h htesp (by omega)
    rw [step, show t.codeBytes = n from hsize, hpop, Option.map_some, hsum]
    rfl
  refine Wp.cons hbig hpopa (Wp.cons hbig hret (Wp.nil ?_))
  show ({ s with gpr := _, eip := _ } : Cpu) = _
  congr 1
  funext r
  by_cases hr : r = .esp
  · rw [if_pos hr, hr]
    rfl
  · rw [if_neg hr, gpr_set_of_ne hr]
    show (if r = .esp then _ else UInt32.ofNat (((s.set .esp _).gpr r).toNat / _ * _ + _)) = _
    rw [if_neg hr, gpr_set_of_ne hr]

end Flat

end Cpu

end LBoot.Lib.X86
