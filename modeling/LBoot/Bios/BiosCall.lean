/-
  LBoot.Bios.BiosCall

  Calls of the BIOS from protected mode (src/bios/bios_asm.s).

  `bios_call_asm` goes back to real mode, loads the registers from the
  structure it is given, runs an `int` instruction whose number it has written
  into its own code, stores the registers, and comes back.  What the BIOS does
  is a parameter; it must return to its caller, and leave alone the stack, the
  descriptors and what the routine has saved.

  The structure is reached through a 16-bit pointer, so it must lie below
  64 KiB; then the BIOS finds its registers, the structure holds the BIOS's
  registers afterwards, and the caller finds the processor as it left it
  (`biosCallAsm_returns`).
-/

import LBoot.Startup.Startup

namespace LBoot.Bios

open LBoot.Lib LBoot.Lib.X86 LBoot.Startup

/-! ## Code -/

/-- Where the routine keeps its data: `_bios_call_ptr`, with `_saved_idtr`,
    `_saved_gdtr` and `_realmode_idtr` behind it, and `_int_id`. -/
structure Labels where
  biosCallPtr : Nat
  intId : Nat

namespace Labels

def savedIdtr (l : Labels) : Nat := l.biosCallPtr + 4

def savedGdtr (l : Labels) : Nat := l.biosCallPtr + 10

def realmodeIdtr (l : Labels) : Nat := l.biosCallPtr + 16

end Labels

/-- What `_realmode_idtr` holds. -/
def realmodeIdtr : Table := ⟨0x03ff, 0x00000000⟩

/-- The registers of `bios_call_t`, in its order. -/
def callRegs : List Reg := [.eax, .ebx, .ecx, .edx, .esi, .edi]

/-- An instruction for each register, with the offset in the structure. -/
def atOffsets (f : Nat → Reg → Instr) : Nat → List Reg → List Instr
  | _, [] => []
  | off, r :: rs => f off r :: atOffsets f (off + 4) rs

/-- The parameters are saved, and the way is left to a segment of 16 bits. -/
def enter (l : Labels) : List Instr :=
  [.pusha 4, .movLoad 4 .eax ⟨some .esp, 36⟩, .movStore 4 ⟨none, l.biosCallPtr⟩ .eax,
    .sidt ⟨none, l.savedIdtr⟩, .sgdt ⟨none, l.savedGdtr⟩] ++ nmi .or 0x80 ++ [.ljmp 0x18]

/-- Out of protected mode. -/
def toReal (l : Labels) : List Instr :=
  ([.movImm 2 .eax 0x20] ++ movSegs) ++
    [.lidt ⟨none, l.realmodeIdtr⟩, .movFromCr0 .eax, .logic .and 4 .eax 0xfffffffe, .movToCr0 .eax,
      .ljmp 0x00]

/-- In real mode, up to the parameters. -/
def inReal : List Instr := ([.clear 2 .eax] ++ movSegs) ++ ([.sti] ++ nmi .and 0x7f)

/-- The number of the interrupt. -/
def loadInt (l : Labels) : List Instr :=
  [.movLoad 2 .edi ⟨none, l.biosCallPtr⟩, .movLoad 1 .eax ⟨some .edi, 0⟩,
    .movStore 1 ⟨none, l.intId⟩ .eax]

/-- The parameters; `%edi`, which points to them, is the last one. -/
def loadParams : List Instr := atOffsets (fun off r => .movLoad 4 r ⟨some .edi, off⟩) 4 callRegs

/-- The results. -/
def saveResults (l : Labels) : List Instr :=
  [.push 2 .ebp, .movLoad 2 .ebp ⟨none, l.biosCallPtr⟩] ++
    atOffsets (fun off r => .movStore 4 ⟨some .ebp, off⟩ r) 4 callRegs ++
    [.pushfl, .pop 4 .eax, .movStore 4 ⟨some .ebp, 28⟩ .eax, .pop 2 .ebp]

/-- Back, and out. -/
def leave (l : Labels) : List Instr :=
  ([.movImm 2 .eax 0x10] ++ movSegs) ++ ([.lidt ⟨none, l.savedIdtr⟩] ++ (nmi .and 0x7f ++
    [.popa 4, .ret]))

/-- `bios_call_asm`, up to the `int`. -/
def beforeInt (l : Labels) : List (Bool × Instr) :=
  code true (enter l) ++ (code false (toReal l) ++ (code false inReal ++
    (code false (loadInt l) ++ code false loadParams)))

/-- And behind it. -/
def afterInt (l : Labels) : List (Bool × Instr) :=
  code false (saveResults l) ++ (code false ([.cli] ++ switchOn l.savedGdtr) ++ code true (leave l))

/-- `bios_call_asm`. -/
def biosCallAsm (l : Labels) : List (Bool × Instr) :=
  beforeInt l ++ (code false [.int l.intId] ++ afterInt l)

/-! ## The call -/

/-- The routine is called in protected mode, with `a` the stack pointer, for
    the structure at `p`; `lo` and `hi` are the ends of the image. -/
structure Called (l : Labels) (lo hi a p ret : Nat) (s : Cpu) : Prop where
  pe : s.Pe
  seg : s.seg = flat32
  gdt : GdtLoaded s
  gdtIn : lo ≤ s.gdtr.base ∧ s.gdtr.base + 48 ≤ hi
  idtr : s.idtr.limit < 2 ^ 16 ∧ s.idtr.base < 2 ^ 32
  esp : (s.gpr .esp).toNat = a
  room : 38 ≤ a
  top : a + 8 < 2 ^ 16
  retLt : ret < 2 ^ 32
  back : loadAt s.mem a 4 = toLe 4 ret
  arg : loadAt s.mem ((a + 4 : Nat) : Int) 4 = toLe 4 p
  image : hi ≤ 2 ^ 16
  dataIn : lo ≤ l.biosCallPtr ∧ l.biosCallPtr + 22 ≤ hi
  realmode : loadAt s.mem l.realmodeIdtr 6 = realmodeIdtr.bytes
  intIn : lo ≤ l.intId ∧ l.intId < hi
  dataGdt : l.biosCallPtr + 22 ≤ s.gdtr.base ∨ s.gdtr.base + 48 ≤ l.biosCallPtr
  intGdt : l.intId < s.gdtr.base ∨ s.gdtr.base + 48 ≤ l.intId
  intData : l.intId < l.biosCallPtr ∨ l.biosCallPtr + 22 ≤ l.intId
  /-- the stack, and the structure, are not in the image -/
  stack : a + 8 ≤ lo ∨ hi + 38 ≤ a
  struct : p + 32 ≤ lo ∨ hi ≤ p
  apart : p + 70 ≤ a ∨ a + 8 ≤ p
  low : p + 32 ≤ 2 ^ 16

/-! ## To real mode -/

section Enter

variable {b : Board} {l : Labels} {lo hi a p ret : Nat} {s t : Cpu}

/-- A load beside the table does not see a mark in it. -/
theorem loadAt_mark {m : Int → UInt8} {base k x n : Nat} {v : UInt8} (hk : k < 48)
    (hx : x + n ≤ base ∨ base + 48 ≤ x) :
    loadAt (storeAt m ((base + k : Nat) : Int) [v]) x n = loadAt m x n :=
  loadAt_storeAt_disjoint (by rw [List.length_singleton]; omega)

/-- What the routine keeps for its way back. -/
def saved (p : Nat) (s : Cpu) : List UInt8 := toLe 4 p ++ s.idtr.bytes ++ s.gdtr.bytes

/-- What `enter` stores. -/
def enterMem (l : Labels) (a p : Nat) (s : Cpu) : Int → UInt8 :=
  storeAt (storeAt s.mem ((a - 32 : Nat) : Int) (s.allBytes 4)) l.biosCallPtr (saved p s)

theorem length_allBytes (s : Cpu) : (s.allBytes 4).length = 32 := rfl

theorem length_saved (p : Nat) (s : Cpu) : (saved p s).length = 16 := rfl

/-- With the two segments of 16 bits marked as accessed. -/
def realMem (l : Labels) (a p : Nat) (s : Cpu) : Int → UInt8 :=
  storeAt (storeAt (enterMem l a p s) ((s.gdtr.base + 29 : Nat) : Int) [0x9b])
    ((s.gdtr.base + 37 : Nat) : Int) [0x93]

/-- The data segments stay those of 32 bits. -/
def seg16Code (r : SReg) : Seg := if r = .cs then flat16 .cs else flat32 r

theorem wp_enter (h : Called l lo hi a p ret s) : Wp b (code true (enter l)) s fun t =>
    (∀ r, r ≠ .eax → r ≠ .esp → t.gpr r = s.gpr r) ∧ t.gpr .esp = UInt32.ofNat (a - 32) ∧
    t.seg = seg16Code ∧ t.cr0 = s.cr0 ∧ t.gdtr = s.gdtr ∧ GdtLoaded t ∧
    t.mem = storeAt (enterMem l a p s) ((s.gdtr.base + 29 : Nat) : Int) [0x9b] ∧
    ∃ w, t.outs = s.outs ++ w ∧ ∀ v ∈ w, v.1 = 0x80 := by
  have hroom := h.room
  have htop := h.top
  have himage := h.image
  have hdata := h.dataIn
  have hgdtIn := h.gdtIn
  have hstack := h.stack
  have hlow := h.low
  have hdataGdt := h.dataGdt
  have hflat : s.Flat := by
    rw [Cpu.Flat, h.seg]
    exact flat32_flat
  have hcode : (s.seg .cs).big = true := by
    rw [h.seg]
    rfl
  let m₁ := storeAt s.mem ((a - 32 : Nat) : Int) (s.allBytes 4)
  let s₁ : Cpu := { s.set .esp (UInt32.ofNat (a - 32)) with mem := m₁ }
  have hpusha : step b s (.pusha 4) = some s₁ :=
    @Cpu.Flat.push s a (s.allBytes 4) hflat h.esp (by omega) (by rw [length_allBytes]; omega)
  have hesp : (s₁.gpr .esp).toNat = a - 32 := by
    show (UInt32.ofNat (a - 32)).toNat = a - 32
    rw [UInt32.toNat_ofNat']
    omega
  -- the argument is behind the registers and the return address
  have hea : s₁.ea ⟨some .esp, 36⟩ = a + 4 := by
    have hsum := Cpu.ea_of_lt (s := s₁) (m := ⟨some .esp, 36⟩) (a := a - 32)
      (fun r hr => by rw [← Option.some.inj hr]; exact hesp) (fun h => by cases h)
      (by show a - 32 + 36 < 2 ^ 16; omega)
    refine hsum.trans ?_
    show a - 32 + 36 = a + 4
    omega
  have harg : leNat (loadAt s₁.mem ((a + 4 : Nat) : Int) 4) = p := by
    have hload : loadAt m₁ ((a + 4 : Nat) : Int) 4 = toLe 4 p := by
      rw [← h.arg]
      exact loadAt_storeAt_disjoint (by rw [length_allBytes]; omega)
    show leNat (loadAt m₁ ((a + 4 : Nat) : Int) 4) = p
    rw [hload, leNat_toLe_of_lt (by omega)]
  let s₂ : Cpu := s₁.set .eax (UInt32.ofNat p)
  have hload : step b s₁ (.movLoad 4 .eax ⟨some .esp, 36⟩) = some s₂ := by
    rw [Cpu.Flat.step_movLoad (s := s₁) hflat hea (by omega), harg, Cpu.setLow_four]
  have hp : (s₂.gpr .eax).toNat = p := by
    show (UInt32.ofNat p).toNat = p
    rw [UInt32.toNat_ofNat']
    omega
  -- three stores, one behind the other
  let m₃ := storeAt m₁ l.biosCallPtr (toLe 4 p)
  let m₄ := storeAt m₃ l.savedIdtr s.idtr.bytes
  have hstore : step b s₂ (.movStore 4 ⟨none, l.biosCallPtr⟩ .eax) = some { s₂ with mem := m₃ } := by
    rw [Cpu.Flat.step_movStore (s := s₂) hflat (Cpu.ea_none (by omega)) (by omega), hp]
    rfl
  have hsidt : step b { s₂ with mem := m₃ } (.sidt ⟨none, l.savedIdtr⟩) =
      some { s₂ with mem := m₄ } :=
    Cpu.Flat.step_sidt (s := { s₂ with mem := m₃ }) hflat
      (by show l.biosCallPtr + 4 + 6 ≤ 2 ^ 16; omega)
  have hsgdt : step b { s₂ with mem := m₄ } (.sgdt ⟨none, l.savedGdtr⟩) =
      some { s₂ with mem := enterMem l a p s } := by
    have hidtrAt : l.savedIdtr = l.biosCallPtr + (toLe 4 p).length := by
      rw [length_toLe]
      rfl
    have hgdtrAt : l.savedGdtr = l.biosCallPtr + (toLe 4 p ++ s.idtr.bytes).length := rfl
    have hmem : storeAt m₄ l.savedGdtr s.gdtr.bytes = enterMem l a p s := by
      show storeAt (storeAt (storeAt m₁ _ _) _ _) _ _ = _
      rw [storeAt_behind m₁ hidtrAt, storeAt_behind m₁ hgdtrAt]
      rfl
    rw [Cpu.Flat.step_sgdt (s := { s₂ with mem := m₄ }) hflat
      (by show l.biosCallPtr + 10 + 6 ≤ 2 ^ 16; omega)]
    exact congrArg (fun m => some { s₂ with mem := m }) hmem
  refine Wp.code_append (Wp.code_append ?_)
  refine Wp.cons hcode hpusha (Wp.cons hcode hload (Wp.cons hcode hstore (Wp.cons hcode hsidt
    (Wp.cons hcode hsgdt (Wp.nil ?_)))))
  refine Cpu.wp_scratch 0x80 (by decide) hcode fun t ht => ?_
  -- none of them has hit the descriptors
  have htable : GdtLoaded t := h.gdt.of_frame ht.gdtr fun x hlo hlt => by
    rw [ht.mem]
    show enterMem l a p s x = s.mem x
    rw [enterMem, storeAt_of_outside (by rw [length_saved]; omega),
      storeAt_of_outside (by rw [length_allBytes]; omega)]
  have hpe : t.Pe := by
    rw [Cpu.Pe, ht.cr0]
    exact h.pe
  have htcode : (t.seg .cs).big = true := by
    rw [ht.seg]
    exact hcode
  have hmem : storeAt t.mem ((t.gdtr.base + 29 : Nat) : Int) [0x9b] =
      storeAt (enterMem l a p s) ((s.gdtr.base + 29 : Nat) : Int) [0x9b] := by
    rw [ht.mem, ht.gdtr]
    rfl
  refine Wp.cons htcode (htable.code16 hpe) (Wp.nil ⟨fun r hax hsp => ?_, ?_, ?_, ht.cr0, ht.gdtr,
    htable.mark (i := 3) rfl rfl, hmem, ht.outs⟩)
  · exact (ht.gpr r hax).trans ((Cpu.gpr_set_of_ne hax _).trans (Cpu.gpr_set_of_ne hsp _))
  · exact ht.gpr .esp (by decide)
  · funext r
    show (if r = .cs then flat16 .cs else t.seg r) = seg16Code r
    rw [ht.seg]
    show (if r = .cs then flat16 .cs else s.seg r) = _
    rw [h.seg]
    rfl

/-- A segment of real mode, with the limit that is left over. -/
def realSeg : Seg := ⟨0, 0, 0xfffff, false⟩

/-- Only the code segment is one yet. -/
def realCode (r : SReg) : Seg := if r = .cs then realSeg else flat16 r

/-- What the pieces in between keep. -/
structure Kept (s t : Cpu) : Prop where
  gpr : ∀ r, r ≠ .eax → t.gpr r = s.gpr r
  gdtr : t.gdtr = s.gdtr
  outs : ∃ w, t.outs = s.outs ++ w ∧ ∀ v ∈ w, v.1 = 0x80

theorem wp_toReal (hpe : s.Pe) (hseg : s.seg = seg16Code) (hgdt : GdtLoaded s)
    (hidtr : loadAt s.mem l.realmodeIdtr 6 = realmodeIdtr.bytes)
    (hplace : l.realmodeIdtr + 6 ≤ 2 ^ 16)
    (hapart : l.realmodeIdtr + 6 ≤ s.gdtr.base ∨ s.gdtr.base + 48 ≤ l.realmodeIdtr) :
    Wp b (code false (toReal l)) s fun t =>
      ¬ t.Pe ∧ t.cr0 = s.cr0 &&& 0xfffffffe ∧ t.seg = realCode ∧ t.idtr = realmodeIdtr ∧
      GdtLoaded t ∧ t.mem = storeAt s.mem ((s.gdtr.base + 37 : Nat) : Int) [0x93] ∧
      Kept s t := by
  have hcode : (s.seg .cs).big = false := by
    rw [hseg]
    rfl
  let m := storeAt s.mem ((s.gdtr.base + 37 : Nat) : Int) [0x93]
  refine Wp.code_append (wp_dataSegs (f := flat16) (m := m) hcode
    (fun t ht r hr g m' _ hm => ?_) (Or.inl rfl) fun t ht => ?_)
  · exact hgdt.dataSegs (i := 4) hpe (fun u hu hpe r hr => hu.data16 hpe hr) ht hr g rfl hm
  · let u : Cpu := { t with seg := fun r => if r = .cs then s.seg .cs else flat16 r, mem := m }
    have hucode : (u.seg .cs).big = false := hcode
    have huflat : u.Flat := by
      intro r
      show ((if r = .cs then s.seg .cs else flat16 r) : Seg).base = 0 ∧ _ ≤ (if r = .cs then s.seg .cs else flat16 r : Seg).limit
      rw [hseg]
      cases r <;> decide
    have hlidt : step b u (.lidt ⟨none, l.realmodeIdtr⟩) = some { u with idtr := realmodeIdtr } := by
      refine huflat.step_lidt hplace ?_ (by decide) ?_
      · show loadAt m l.realmodeIdtr 6 = _
        rw [loadAt_mark (by decide) hapart, hidtr]
      · rw [hucode]
        decide
    let v : Cpu := { u with idtr := realmodeIdtr }
    have hand := Cpu.step_logic_four b (v.set .eax v.cr0) .and .eax 0xfffffffe
    let w : Cpu := { v.set .eax (v.cr0 &&& 0xfffffffe) with
      cr0 := v.cr0 &&& 0xfffffffe
      eflags := logicFlags 4 (v.cr0 &&& 0xfffffffe).toNat v.eflags }
    have hset : ({ (v.set .eax v.cr0).set .eax (v.cr0 &&& 0xfffffffe) with
        cr0 := v.cr0 &&& 0xfffffffe
        eflags := logicFlags 4 (v.cr0 &&& 0xfffffffe).toNat v.eflags } : Cpu) = w := by
      rw [Cpu.set_set]
    -- from here on a selector is a base address
    have hreal : ¬ w.Pe := by
      show ¬ v.cr0 &&& 0xfffffffe &&& 1 = 1
      have hzero : (0xfffffffe : UInt32) &&& 1 = 0 := by decide
      rw [UInt32.and_assoc, hzero, UInt32.and_zero]
      decide
    have hljmp : step b w (.ljmp 0x00) = some (w.setSeg .cs realSeg) := by
      have hcs : w.seg .cs = flat16 .cs := by
        show s.seg .cs = _
        rw [hseg]
        rfl
      rw [step, Cpu.loadSeg, if_neg hreal, hcs]
      rfl
    refine Wp.cons hucode hlidt (Wp.cons hucode rfl (Wp.cons hucode hand (Wp.cons (t := w) hucode
      (congrArg some hset) (Wp.cons hucode hljmp (Wp.nil ?_)))))
    refine ⟨hreal, congrArg (· &&& 0xfffffffe) ht.cr0, ?_, rfl, hgdt.mark (i := 4) ht.gdtr rfl, rfl,
      fun r hr => (Cpu.gpr_set_of_ne hr _).trans (ht.gpr r hr), ht.gdtr, ht.outs⟩
    funext r
    show (if r = .cs then realSeg else if r = .cs then s.seg .cs else flat16 r) = realCode r
    rw [realCode]
    split_ifs <;> rfl

/-- Interrupts are on for the BIOS. -/
theorem wp_inReal (hreal : ¬ s.Pe) (hseg : s.seg = realCode) :
    Wp b (code false inReal) s fun t => t.seg = (fun _ => realSeg) ∧ t.If ∧ t.cr0 = s.cr0 ∧
      t.idtr = s.idtr ∧ t.mem = s.mem ∧ Kept s t := by
  have hcode : (s.seg .cs).big = false := by
    rw [hseg]
    rfl
  -- no descriptor is looked at in real mode, and none is marked
  refine Wp.code_append (wp_dataSegs (f := fun _ => realSeg) (m := s.mem) hcode
    (fun t ht r hr g m' hg hm => ?_) (Or.inr ⟨rfl, rfl⟩) fun t ht => ?_)
  · have htreal : ¬ Cpu.Pe { t with seg := g, mem := m' } := by
      show ¬ t.cr0 &&& 1 = 1
      rw [ht.cr0]
      exact hreal
    rw [Cpu.loadSeg, if_neg htreal]
    dsimp only
    rw [hg, hseg, realCode, if_neg hr, flat16, if_neg hr, or_self_iff.mp hm]
    rfl
  · have hall : (fun r : SReg => if r = .cs then s.seg .cs else realSeg) = fun _ => realSeg := by
      funext r
      rw [hseg]
      split_ifs <;> rfl
    rw [hall]
    refine Wp.code_append (Wp.cons rfl rfl (Wp.nil ?_))
    refine Cpu.wp_scratch 0x80 (by decide) rfl fun u hu => ?_
    obtain ⟨w, hw, hwall⟩ := ht.outs
    obtain ⟨w', hw', hwall'⟩ := hu.outs
    refine ⟨hu.seg, ?_, hu.cr0.trans ht.cr0, hu.idtr.trans ht.idtr, hu.mem,
      fun r hr => (hu.gpr r hr).trans (ht.gpr r hr), hu.gdtr.trans ht.gdtr, w ++ w', ?_, ?_⟩
    · show u.eflags &&& 0x200 ≠ 0
      rw [if_of_flags hu.flags]
      exact or_if t.eflags
    · rw [hw', ← List.append_assoc, ← hw]
    · exact fun v hv => (List.mem_append.mp hv).elim (hwall v) (hwall' v)

/-- A segment that starts at zero is flat. -/
theorem realSeg_flat (hseg : s.seg = fun _ => realSeg) : s.Flat := by
  intro r
  rw [hseg]
  refine ⟨rfl, ?_⟩
  show 0xffff ≤ realSeg.limit
  decide

/-- The number of the interrupt is written into the code. -/
theorem wp_loadInt (hseg : s.seg = fun _ => realSeg)
    (hptr : loadAt s.mem l.biosCallPtr 4 = toLe 4 p) (hplace : l.biosCallPtr + 4 ≤ 2 ^ 16)
    (hp : p + 32 ≤ 2 ^ 16) (hint : l.intId < 2 ^ 16) : Wp b (code false (loadInt l)) s fun t =>
      (∀ r, r ≠ .eax → r ≠ .edi → t.gpr r = s.gpr r) ∧ (t.gpr .edi).toNat % 2 ^ 16 = p ∧
      t.seg = s.seg ∧ t.cr0 = s.cr0 ∧ t.eflags = s.eflags ∧ t.gdtr = s.gdtr ∧ t.idtr = s.idtr ∧
      t.outs = s.outs ∧ t.mem = storeAt s.mem l.intId [s.mem p] := by
  have hflat := realSeg_flat hseg
  have hcode : (s.seg .cs).big = false := by
    rw [hseg]
    rfl
  have hlow : leNat (loadAt s.mem l.biosCallPtr 2) = p := by
    have htake : loadAt s.mem l.biosCallPtr 2 = toLe 2 p := by
      rw [← take_loadAt s.mem l.biosCallPtr (by decide : 2 ≤ 4), hptr]
      rfl
    rw [htake, leNat_toLe_of_lt (by omega)]
  let s₁ := s.setLow 2 .edi p
  have hdi : step b s (.movLoad 2 .edi ⟨none, l.biosCallPtr⟩) = some s₁ := by
    rw [hflat.step_movLoad (Cpu.ea_none (by omega)) (by omega), hlow]
  have hedi : (s₁.gpr .edi).toNat % 2 ^ 16 = p := by
    have hmod := Cpu.toNat_setLow_mod (s := s) (r := .edi) (n := 2) (by decide) p
    exact hmod.trans (Nat.mod_eq_of_lt (by omega))
  have hbyte : leNat (loadAt s.mem p 1) = (s.mem p).toNat := by
    show (s.mem p).toNat + 256 * 0 = _
    omega
  let s₂ := s₁.setLow 1 .eax (s.mem p).toNat
  have hal : step b s₁ (.movLoad 1 .eax ⟨some .edi, 0⟩) = some s₂ := by
    have hea : s₁.ea ⟨some .edi, 0⟩ = p := Cpu.ea_sixteen (s := s₁) hcode hedi (by omega)
    rw [Cpu.Flat.step_movLoad (s := s₁) hflat hea (by omega)]
    exact congrArg (fun v => some (s₁.setLow 1 .eax v)) hbyte
  have hstore : step b s₂ (.movStore 1 ⟨none, l.intId⟩ .eax) =
      some { s₂ with mem := storeAt s.mem l.intId [s.mem p] } := by
    have hone : toLe 1 (s₂.gpr .eax).toNat = [s.mem p] := by
      have hmod := Cpu.toNat_setLow_mod (s := s₁) (r := .eax) (n := 1) (by decide) (s.mem p).toNat
      show [UInt8.ofNat (s₂.gpr .eax).toNat] = [s.mem p]
      have hlt := (s.mem p).toNat_lt
      congr 1
      apply UInt8.toNat_inj.mp
      rw [UInt8.toNat_ofNat']
      exact hmod.trans (Nat.mod_eq_of_lt hlt)
    rw [Cpu.Flat.step_movStore (s := s₂) hflat (Cpu.ea_none hint) (by omega), hone]
    rfl
  refine Wp.cons hcode hdi (Wp.cons hcode hal (Wp.cons hcode hstore (Wp.nil
    ⟨fun r hax hdi => ?_, hedi, rfl, rfl, rfl, rfl, rfl, rfl, rfl⟩)))
  exact (Cpu.gpr_setLow_of_ne hax 1 _).trans (Cpu.gpr_setLow_of_ne hdi 2 _)

/-- What the structure holds for a register. -/
def paramAt (m : Int → UInt8) (p : Nat) (r : Reg) : UInt32 :=
  UInt32.ofNat (leNat (loadAt m ((p + (4 + 4 * callRegs.idxOf r) : Nat) : Int) 4))

theorem wp_loadParams (hseg : s.seg = fun _ => realSeg) (hedi : (s.gpr .edi).toNat % 2 ^ 16 = p)
    (hp : p + 32 ≤ 2 ^ 16) : Wp b (code false loadParams) s fun t =>
      (∀ r ∈ callRegs, t.gpr r = paramAt s.mem p r) ∧ (∀ r ∉ callRegs, t.gpr r = s.gpr r) ∧
      t.seg = s.seg ∧ t.cr0 = s.cr0 ∧ t.eflags = s.eflags ∧ t.gdtr = s.gdtr ∧ t.idtr = s.idtr ∧
      t.outs = s.outs ∧ t.mem = s.mem := by
  have hcode : (s.seg .cs).big = false := by
    rw [hseg]
    rfl
  have hstep (u : Cpu) (hu : u.seg = s.seg) (hm : u.mem = s.mem)
      (hdi : (u.gpr .edi).toNat % 2 ^ 16 = p) (r : Reg) (off : Nat) (hoff : off ≤ 28) :
      step b u (.movLoad 4 r ⟨some .edi, off⟩) =
        some (u.set r (UInt32.ofNat (leNat (loadAt s.mem ((p + off : Nat) : Int) 4)))) := by
    have huflat : u.Flat := realSeg_flat (hu.trans hseg)
    have hucode : (u.seg .cs).big = false := by rw [hu, hcode]
    rw [huflat.step_movLoad (Cpu.ea_sixteen hucode hdi (by omega)) (by omega), Cpu.setLow_four, hm]
  let s₁ := s.set .eax (paramAt s.mem p .eax)
  let s₂ := s₁.set .ebx (paramAt s.mem p .ebx)
  let s₃ := s₂.set .ecx (paramAt s.mem p .ecx)
  let s₄ := s₃.set .edx (paramAt s.mem p .edx)
  let s₅ := s₄.set .esi (paramAt s.mem p .esi)
  refine Wp.cons hcode (hstep s rfl rfl hedi .eax 4 (by decide))
    (Wp.cons hcode (hstep s₁ rfl rfl hedi .ebx 8 (by decide))
    (Wp.cons hcode (hstep s₂ rfl rfl hedi .ecx 12 (by decide))
    (Wp.cons hcode (hstep s₃ rfl rfl hedi .edx 16 (by decide))
    (Wp.cons hcode (hstep s₄ rfl rfl hedi .esi 20 (by decide))
    (Wp.cons hcode (hstep s₅ rfl rfl hedi .edi 24 (by decide))
    (Wp.nil ⟨fun r hr => ?_, fun r hr => ?_, rfl, rfl, rfl, rfl, rfl, rfl, rfl⟩))))))
  · cases r with
    | esp => exact absurd hr (by decide)
    | ebp => exact absurd hr (by decide)
    | _ => rfl
  · cases r with
    | esp => rfl
    | ebp => rfl
    | _ => exact absurd (by decide) hr

end Enter

/-! ## And back -/

section Back

variable {b : Board} {l : Labels} {a p : Nat} {s t : Cpu}

/-- Registers that are stored one behind the other. -/
theorem wp_stores {q : Reg} {rs : List Reg} {off : Nat} {Q : Cpu → Prop} (hflat : s.Flat)
    (hcode : (s.seg .cs).big = false) (hq : (s.gpr q).toNat % 2 ^ 16 = p)
    (hoff : p + (off + 4 * rs.length) ≤ 2 ^ 16)
    (hQ : Q { s with
      mem := storeAt s.mem ((p + off : Nat) : Int) (rs.flatMap fun r => toLe 4 (s.gpr r).toNat) }) :
    Wp b (code false (atOffsets (fun off r => .movStore 4 ⟨some q, off⟩ r) off rs)) s Q := by
  induction rs generalizing s off with
  | nil =>
      rw [List.flatMap_nil, storeAt_nil] at hQ
      exact Wp.nil hQ
  | cons r rs ih =>
      rw [List.length_cons] at hoff
      have hstore := hflat.step_movStore (b := b) (r := r) (n := 4)
        (Cpu.ea_sixteen hcode hq (by omega : p + off < 2 ^ 16)) (by omega)
      refine Wp.cons hcode hstore (ih hflat hcode hq (by omega) ?_)
      rw [List.flatMap_cons] at hQ
      have hplace : p + (off + 4) = p + off + (toLe 4 (s.gpr r).toNat).length := by
        rw [length_toLe]
        omega
      have hmem := storeAt_behind s.mem hplace
        (rs.flatMap fun r => toLe 4 (s.gpr r).toNat)
      exact hmem ▸ hQ

/-- What the structure holds of the BIOS's registers. -/
def results (s : Cpu) : List UInt8 :=
  (callRegs.flatMap fun r => toLe 4 (s.gpr r).toNat) ++ toLe 4 s.eflags.toNat

/-- The registers of the BIOS are stored; besides, three words of the stack are
    used. -/
theorem wp_saveResults (hseg : s.seg = fun _ => realSeg) (hesp : (s.gpr .esp).toNat = a)
    (hroom : 6 ≤ a) (htop : a < 2 ^ 16) (hptr : loadAt s.mem l.biosCallPtr 2 = toLe 2 p)
    (hplace : l.biosCallPtr + 2 ≤ 2 ^ 16) (hp : p + 32 ≤ 2 ^ 16)
    (hdata : l.biosCallPtr + 2 ≤ a - 6 ∨ a ≤ l.biosCallPtr) (hapart : p + 32 ≤ a - 6 ∨ a ≤ p) :
    Wp b (code false (saveResults l)) s fun t => (t.gpr .esp).toNat = a ∧ t.seg = s.seg ∧
      t.cr0 = s.cr0 ∧ t.eflags = s.eflags ∧ t.outs = s.outs ∧
      loadAt t.mem ((p + 4 : Nat) : Int) 28 = results s ∧
      ∀ x : Int, x < ((a - 6 : Nat) : Int) ∨ a ≤ x → x < p + 4 ∨ p + 32 ≤ x → t.mem x = s.mem x := by
  have hflat := realSeg_flat hseg
  have hcode : (s.seg .cs).big = false := by
    rw [hseg]
    rfl
  let m₁ := storeAt s.mem ((a - 2 : Nat) : Int) (toLe 2 (s.gpr .ebp).toNat)
  let s₁ : Cpu := { s.set .esp (UInt32.ofNat (a - 2)) with mem := m₁ }
  have hpush : step b s (.push 2 .ebp) = some s₁ :=
    @Cpu.Flat.push s a (toLe 2 (s.gpr .ebp).toNat) hflat hesp htop (by rw [length_toLe]; omega)
  have hesp₁ : (s₁.gpr .esp).toNat = a - 2 := by
    show (UInt32.ofNat (a - 2)).toNat = _
    rw [UInt32.toNat_ofNat']
    omega
  let s₂ := s₁.setLow 2 .ebp p
  have hload : step b s₁ (.movLoad 2 .ebp ⟨none, l.biosCallPtr⟩) = some s₂ := by
    have hsame : loadAt m₁ l.biosCallPtr 2 = toLe 2 p := by
      rw [← hptr]
      exact loadAt_storeAt_disjoint (by rw [length_toLe]; omega)
    rw [Cpu.Flat.step_movLoad (s := s₁) hflat (Cpu.ea_none (by omega)) hplace]
    show some (s₁.setLow 2 .ebp (leNat (loadAt m₁ l.biosCallPtr 2))) = _
    rw [hsame, leNat_toLe_of_lt (by omega)]
  have hebp : (s₂.gpr .ebp).toNat % 2 ^ 16 = p := by
    have hmod := Cpu.toNat_setLow_mod (s := s₁) (r := .ebp) (n := 2) (by decide) p
    exact hmod.trans (Nat.mod_eq_of_lt (by omega))
  -- the registers go into the structure, the flags on the stack
  let words := callRegs.flatMap fun r => toLe 4 (s.gpr r).toNat
  let m₃ := storeAt m₁ ((p + 4 : Nat) : Int) words
  let s₃ : Cpu := { s₂ with mem := m₃ }
  let m₄ := storeAt m₃ ((a - 6 : Nat) : Int) (toLe 4 s.eflags.toNat)
  let s₄ : Cpu := { s₃.set .esp (UInt32.ofNat (a - 6)) with mem := m₄ }
  have hsub : a - 2 - 4 = a - 6 := by omega
  have hpushfl : step b s₃ .pushfl = some s₄ := by
    have hpush := @Cpu.Flat.push s₃ (a - 2) (toLe 4 s.eflags.toNat) hflat hesp₁ (by omega)
      (by rw [length_toLe]; omega)
    rw [length_toLe, hsub] at hpush
    exact hpush
  have hesp₄ : (s₄.gpr .esp).toNat = a - 6 := by
    show (UInt32.ofNat (a - 6)).toNat = _
    rw [UInt32.toNat_ofNat']
    omega
  let s₅ := (s₄.set .esp (UInt32.ofNat (a - 2))).set .eax s.eflags
  have hpop : step b s₄ (.pop 4 .eax) = some s₅ := by
    have hadd : a - 6 + 4 = a - 2 := by omega
    have hself : loadAt m₄ ((a - 6 : Nat) : Int) 4 = toLe 4 s.eflags.toNat := by
      have hself := loadAt_storeAt m₃ ((a - 6 : Nat) : Int) (toLe 4 s.eflags.toNat)
      rwa [length_toLe] at hself
    have hpop := @Cpu.Flat.pop s₄ 4 (a - 6) hflat hesp₄ (by omega)
    rw [step, hpop, Option.map_some, hadd]
    show some ((s₄.set .esp (UInt32.ofNat (a - 2))).setLow 4 .eax (leNat (loadAt m₄ _ 4))) = _
    rw [hself, leNat_toLe_of_lt s.eflags.toNat_lt, Cpu.setLow_four, UInt32.ofNat_toNat]
  -- and from there into the structure too
  let m₆ := storeAt m₄ ((p + 28 : Nat) : Int) (toLe 4 s.eflags.toNat)
  let s₆ : Cpu := { s₅ with mem := m₆ }
  have hflags : step b s₅ (.movStore 4 ⟨some .ebp, 28⟩ .eax) = some s₆ :=
    Cpu.Flat.step_movStore (s := s₅) hflat (Cpu.ea_sixteen (s := s₅) hcode hebp (by omega))
      (by omega)
  have hesp₆ : (s₆.gpr .esp).toNat = a - 2 := by
    show (UInt32.ofNat (a - 2)).toNat = _
    rw [UInt32.toNat_ofNat']
    omega
  let s₇ := (s₆.set .esp (UInt32.ofNat a)).setLow 2 .ebp (leNat (loadAt m₆ ((a - 2 : Nat) : Int) 2))
  have hpop' : step b s₆ (.pop 2 .ebp) = some s₇ := by
    have hadd : a - 2 + 2 = a := by omega
    have hpop := @Cpu.Flat.pop s₆ 2 (a - 2) hflat hesp₆ (by omega)
    rw [step, hpop, Option.map_some, hadd]
  refine Wp.code_append (Wp.code_append (Wp.cons hcode hpush (Wp.cons hcode hload (Wp.nil ?_))))
  refine wp_stores (s := s₂) hflat hcode hebp (by show p + (4 + 4 * 6) ≤ 2 ^ 16; omega) ?_
  refine Wp.cons (s := s₃) hcode hpushfl (Wp.cons hcode hpop (Wp.cons hcode hflags
    (Wp.cons hcode hpop' (Wp.nil ⟨?_, rfl, rfl, rfl, rfl, ?_, fun x hstack hstruct => ?_⟩))))
  · show (UInt32.ofNat a).toNat = a
    rw [UInt32.toNat_ofNat']
    omega
  · show loadAt m₆ ((p + 4 : Nat) : Int) 28 = words ++ toLe 4 s.eflags.toNat
    have hwords : words.length = 24 := rfl
    have hbehind : ((p + 28 : Nat) : Int) = ((p + 4 : Nat) : Int) + (24 : Nat) := by omega
    have hfirst : loadAt m₆ ((p + 4 : Nat) : Int) 24 = words := by
      have hself := loadAt_storeAt m₁ ((p + 4 : Nat) : Int) words
      rw [hwords] at hself
      rw [← hself]
      refine (loadAt_storeAt_disjoint (by omega)).trans (loadAt_storeAt_disjoint ?_)
      rw [length_toLe]
      omega
    have hlast : loadAt m₆ ((p + 28 : Nat) : Int) 4 = toLe 4 s.eflags.toNat := by
      have hself := loadAt_storeAt m₄ ((p + 28 : Nat) : Int) (toLe 4 s.eflags.toNat)
      rwa [length_toLe] at hself
    rw [← hfirst, ← hlast, hbehind, ← loadAt_append]
  · show m₆ x = s.mem x
    have h₆ : m₆ x = m₄ x := storeAt_of_outside (by rw [length_toLe]; omega)
    have h₄ : m₄ x = m₃ x := storeAt_of_outside (by rw [length_toLe]; omega)
    have h₃ : m₃ x = m₁ x := storeAt_of_outside (by
      have hwords : words.length = 24 := rfl
      omega)
    have h₁ : m₁ x = s.mem x := storeAt_of_outside (by rw [length_toLe]; omega)
    rw [h₆, h₄, h₃, h₁]

/-- The mode is the one that `toReal` has left. -/
theorem pe_again {c : UInt32} (hpe : c &&& 1 = 1) : c &&& 0xfffffffe ||| 1 = c := by
  have hor : c &&& 0xfffffffe ||| c &&& 1 = c &&& (0xfffffffe ||| 1) :=
    (UInt32.toBitVec_inj.1 BitVec.and_or_distrib_left).symm
  have hall : (0xfffffffe : UInt32) ||| 1 = -1 := by decide
  rw [hpe, hall, UInt32.and_neg_one] at hor
  exact hor

/-- What `pusha` has put on the stack for a register. -/
theorem leField_allBytes (s : Cpu) (r : Reg) :
    leField (s.allBytes 4) (4 * allRegs.idxOf r) 4 = (s.gpr r).toNat := by
  have hfield : ((s.allBytes 4).drop (4 * allRegs.idxOf r)).take 4 = toLe 4 (s.gpr r).toNat := by
    cases r <;> rfl
  rw [leField, hfield, leNat_toLe_of_lt (s.gpr r).toNat_lt]

/-- The registers that were saved are back, and the caller goes on. -/
theorem wp_leave {c : Cpu} {ret : Nat} (hgdt : GdtLoaded s) (hpe : s.Pe)
    (hcs : s.seg .cs = flat32 .cs) (hidtr : loadAt s.mem l.savedIdtr 6 = c.idtr.bytes)
    (hlimit : c.idtr.limit < 2 ^ 16) (hbase : c.idtr.base < 2 ^ 32)
    (hplace : l.savedIdtr + 6 ≤ 2 ^ 16) (hesp : (s.gpr .esp).toNat = a) (htop : a + 36 < 2 ^ 16)
    (hregs : loadAt s.mem a 32 = c.allBytes 4)
    (hback : loadAt s.mem ((a + 32 : Nat) : Int) 4 = toLe 4 ret) (hret : ret < 2 ^ 32)
    (hdata : l.savedIdtr + 6 ≤ s.gdtr.base ∨ s.gdtr.base + 48 ≤ l.savedIdtr)
    (hstack : a + 36 ≤ s.gdtr.base ∨ s.gdtr.base + 48 ≤ a) :
    Wp b (code true (leave l)) s fun t =>
      (∀ r, r ≠ .esp → t.gpr r = c.gpr r) ∧ (t.gpr .esp).toNat = a + 36 ∧
      t.eip = UInt32.ofNat ret ∧ t.seg = flat32 ∧ t.cr0 = s.cr0 ∧ (t.If ↔ s.If) ∧
      t.gdtr = s.gdtr ∧ t.idtr = c.idtr ∧ GdtLoaded t ∧
      t.mem = storeAt s.mem ((s.gdtr.base + 21 : Nat) : Int) [0x93] ∧
      ∃ w, t.outs = s.outs ++ w ∧ ∀ v ∈ w, v.1 = 0x80 := by
  have hcode : (s.seg .cs).big = true := by
    rw [hcs]
    rfl
  let m := storeAt s.mem ((s.gdtr.base + 21 : Nat) : Int) [0x93]
  refine Wp.code_append (wp_dataSegs (f := flat32) (m := m) hcode
    (fun t ht r hr g m' _ hm => ?_) (Or.inl rfl) fun t ht => ?_)
  · exact hgdt.dataSegs (i := 2) hpe (fun u hu hpe r hr => hu.data32 hpe hr) ht hr g rfl hm
  · rw [seg_flat32 hcs]
    -- the mark is neither in what was saved nor on the stack
    have hm {x n : Nat} (hx : x + n ≤ s.gdtr.base ∨ s.gdtr.base + 48 ≤ x) :
        loadAt m x n = loadAt s.mem x n := loadAt_mark (by decide) hx
    let u : Cpu := { t with seg := flat32, mem := m, idtr := c.idtr }
    have hlidt : step b { t with seg := flat32, mem := m } (.lidt ⟨none, l.savedIdtr⟩) = some u := by
      refine Cpu.Flat.step_lidt (s := { t with seg := flat32, mem := m }) flat32_flat hplace ?_ hlimit
        hbase
      show loadAt m l.savedIdtr 6 = _
      rw [hm hdata, hidtr]
    refine Wp.code_append (Wp.cons rfl hlidt (Wp.nil (Wp.code_append ?_)))
    refine Cpu.wp_scratch 0x80 (by decide) rfl fun v hv => ?_
    have hvseg : v.seg = flat32 := hv.seg
    have hvcode : (v.seg .cs).big = true := by
      rw [hvseg]
      rfl
    have hvflat : v.Flat := by
      rw [Cpu.Flat, hvseg]
      exact flat32_flat
    have hsize : v.codeBytes = 4 := by rw [Cpu.codeBytes, hvcode]; rfl
    have hvesp : (v.gpr .esp).toNat = a := by
      rw [hv.gpr .esp (by decide)]
      show (t.gpr .esp).toNat = a
      rw [ht.gpr .esp (by decide), hesp]
    have hvmem : v.mem = m := hv.mem
    -- what `pusha` saved comes back, `eax` with it
    refine (hvflat.wp_popa_ret hvcode hsize hvesp (by omega)).mono ?_
    rintro w rfl
    obtain ⟨o, ho, hoall⟩ := ht.outs
    obtain ⟨o', ho', hoall'⟩ := hv.outs
    refine ⟨fun r hr => ?_, ?_, ?_, hvseg, hv.cr0.trans ht.cr0, not_congr (Eq.congr_left ?_),
      hv.gdtr.trans ht.gdtr, hv.idtr, hgdt.mark (i := 2) (hv.gdtr.trans ht.gdtr) hvmem, hvmem,
      o ++ o', ?_, ?_⟩
    · have hlt := (v.gpr r).toNat_lt
      have hzero : (v.gpr r).toNat / 256 ^ 4 = 0 := Nat.div_eq_of_lt hlt
      show (if r = .esp then _ else UInt32.ofNat (_ + leField (loadAt v.mem a 32) _ 4)) = _
      rw [if_neg hr, hzero, Nat.zero_mul, Nat.zero_add, hvmem, hm (by omega), hregs,
        leField_allBytes, UInt32.ofNat_toNat]
    · show (UInt32.ofNat (a + 9 * 4)).toNat = a + 36
      rw [UInt32.toNat_ofNat']
      omega
    · show UInt32.ofNat (leNat (loadAt v.mem ((a + 8 * 4 : Nat) : Int) 4)) = _
      rw [hvmem, hm (by omega), hback, leNat_toLe_of_lt hret]
    · exact if_of_flags (hv.flags.trans ht.flags)
    · show v.outs = s.outs ++ (o ++ o')
      rw [ho', ← List.append_assoc, ← ho]
    · exact fun v hv => (List.mem_append.mp hv).elim (hoall v) (hoall' v)

end Back

/-! ## The whole routine -/

/-- What the BIOS finds. -/
structure AtBios (l : Labels) (a p : Nat) (s e : Cpu) : Prop where
  real : ¬ e.Pe
  enabled : e.If
  seg : e.seg = fun _ => realSeg
  idtr : e.idtr = realmodeIdtr
  gpr : ∀ r ∈ callRegs, e.gpr r = paramAt s.mem p r
  esp : (e.gpr .esp).toNat = a - 32
  number : e.mem l.intId = s.mem p
  /-- the two segments of 16 bits are marked as accessed -/
  mem : ∀ x : Int, x < ((a - 32 : Nat) : Int) ∨ a ≤ x → x < l.biosCallPtr ∨ l.biosCallPtr + 16 ≤ x →
    x ≠ l.intId → e.mem x =
      if x = s.gdtr.base + 29 then 0x9b else if x = s.gdtr.base + 37 then 0x93 else s.mem x
  outs : ∃ w, e.outs = s.outs ++ w ∧ ∀ v ∈ w, v.1 = 0x80

/-- What the caller finds, when the BIOS has left `u`.  The NMI is masked by a
    bit of port 0x70, and that is never written. -/
structure Returned (a p ret : Nat) (s u t : Cpu) : Prop where
  gpr : ∀ r, r ≠ .esp → t.gpr r = s.gpr r
  esp : (t.gpr .esp).toNat = a + 4
  eip : t.eip = UInt32.ofNat ret
  seg : t.seg = s.seg
  cr0 : t.cr0 = s.cr0
  gdtr : t.gdtr = s.gdtr
  gdt : GdtLoaded t
  idtr : t.idtr = s.idtr
  quiet : ¬ t.If
  results : loadAt t.mem ((p + 4 : Nat) : Int) 28 = results u
  /-- the two segments of 32 bits are marked as accessed -/
  mem : ∀ x : Int, x < ((a - 38 : Nat) : Int) ∨ ((a - 32 : Nat) : Int) ≤ x →
    x < p + 4 ∨ p + 32 ≤ x → t.mem x =
      if x = s.gdtr.base + 13 then 0x9b else if x = s.gdtr.base + 21 then 0x93 else u.mem x
  outs : ∃ w, t.outs = u.outs ++ w ∧ ∀ v ∈ w, v.1 = 0x80

/-- What the BIOS must leave alone: the stack of the call, what is saved beside
    the code, and the descriptors. -/
def kept (l : Labels) (a : Nat) (s : Cpu) : Set Int :=
  {x | ((a - 32 : Nat) : Int) ≤ x ∧ x < a + 4} ∪
    ({x | (l.biosCallPtr : Int) ≤ x ∧ x < l.biosCallPtr + 16} ∪
      {x | (s.gdtr.base : Int) ≤ x ∧ x < s.gdtr.base + 40})

/-- What is on the stack, and in memory, for the way back. -/
structure Resumable (l : Labels) (a p ret : Nat) (s u : Cpu) : Prop where
  seg : u.seg = fun _ => realSeg
  cr0 : u.cr0 = s.cr0 &&& 0xfffffffe
  esp : (u.gpr .esp).toNat = a - 32
  regs : loadAt u.mem ((a - 32 : Nat) : Int) 32 = s.allBytes 4
  back : loadAt u.mem a 4 = toLe 4 ret
  saved : loadAt u.mem l.biosCallPtr 16 = saved p s
  gdt : GdtLoaded { u with gdtr := s.gdtr }

section Call

variable {b : Board} {l : Labels} {lo hi a p ret : Nat} {s e u : Cpu}

theorem Kept.trans (h : Kept s e) (h' : Kept e u) : Kept s u where
  gpr r hr := (h'.gpr r hr).trans (h.gpr r hr)
  gdtr := h'.gdtr.trans h.gdtr
  outs := by
    obtain ⟨w, hw, hall⟩ := h.outs
    obtain ⟨w', hw', hall'⟩ := h'.outs
    refine ⟨w ++ w', by rw [hw', hw, List.append_assoc], fun v hv => ?_⟩
    exact (List.mem_append.mp hv).elim (hall v) (hall' v)

/-- The memory that the BIOS finds. -/
def biosMem (l : Labels) (a p : Nat) (s : Cpu) : Int → UInt8 :=
  storeAt (realMem l a p s) l.intId [s.mem p]

/-- A load that none of the stores is in the way of. -/
theorem loadAt_enterMem {x n : Nat} (hstack : x + n ≤ a - 32 ∨ a ≤ x) (hroom : 38 ≤ a)
    (hsaved : x + n ≤ l.biosCallPtr ∨ l.biosCallPtr + 16 ≤ x) :
    loadAt (enterMem l a p s) x n = loadAt s.mem x n := by
  rw [enterMem, loadAt_storeAt_disjoint (by rw [length_saved]; omega),
    loadAt_storeAt_disjoint (by rw [length_allBytes]; omega)]

/-- Nor any of the marks. -/
theorem loadAt_realMem {x n : Nat} (hgdt : x + n ≤ s.gdtr.base ∨ s.gdtr.base + 48 ≤ x) :
    loadAt (realMem l a p s) x n = loadAt (enterMem l a p s) x n := by
  rw [realMem, loadAt_mark (by decide) hgdt, loadAt_mark (by decide) hgdt]

theorem loadAt_biosMem {x n : Nat} (hint : x + n ≤ l.intId ∨ l.intId + 1 ≤ x) :
    loadAt (biosMem l a p s) x n = loadAt (realMem l a p s) x n :=
  loadAt_storeAt_disjoint (by rw [List.length_singleton]; omega)

/-- Up to the `int`. -/
theorem wp_beforeInt (h : Called l lo hi a p ret s) : Wp b (beforeInt l) s fun e =>
    AtBios l a p s e ∧ e.cr0 = s.cr0 &&& 0xfffffffe ∧ e.mem = biosMem l a p s ∧
      GdtLoaded { e with gdtr := s.gdtr } := by
  have hroom := h.room
  have himage := h.image
  have hdata := h.dataIn
  have hgdtIn := h.gdtIn
  have hstack := h.stack
  have hstruct := h.struct
  have happart := h.apart
  have hlow := h.low
  have hintIn := h.intIn
  have hdataGdt := h.dataGdt
  have hintGdt := h.intGdt
  refine Wp.append ((wp_enter h).mono ?_)
  rintro t ⟨htgpr, htesp, htseg, htcr0, htgdtr, htgdt, htmem, w, hw, hwall⟩
  have htpe : t.Pe := by
    rw [Cpu.Pe, htcr0]
    exact h.pe
  have hreal : l.realmodeIdtr = l.biosCallPtr + 16 := rfl
  have htidtr : loadAt t.mem l.realmodeIdtr 6 = realmodeIdtr.bytes := by
    rw [htmem, ← h.realmode, loadAt_mark (by decide) (by omega)]
    exact loadAt_enterMem (by omega) hroom (by omega)
  refine Wp.append ((wp_toReal htpe htseg htgdt htidtr (by omega) (by rw [htgdtr]; omega)).mono ?_)
  rintro v ⟨hvreal, hvcr0, hvseg, hvidtr, hvgdt, hvmem, hvkept⟩
  refine Wp.append ((wp_inReal hvreal hvseg).mono ?_)
  rintro x ⟨hxseg, hxif, hxcr0, hxidtr, hxmem, hxkept⟩
  -- memory is as `enter` left it, but for the marks
  have hkept := hvkept.trans hxkept
  have hmem : x.mem = realMem l a p s := by
    rw [hxmem, hvmem, htmem, htgdtr]
    rfl
  have hptr : loadAt x.mem l.biosCallPtr 4 = toLe 4 p := by
    have hsaved : loadAt (enterMem l a p s) l.biosCallPtr 16 = saved p s := loadAt_storeAt _ _ _
    rw [hmem, loadAt_realMem (by omega), ← take_loadAt _ _ (by decide : 4 ≤ 16), hsaved]
    rfl
  have hparam {y n : Nat} (hlo : p ≤ y) (hhi : y + n ≤ p + 32) :
      loadAt (realMem l a p s) y n = loadAt s.mem y n :=
    (loadAt_realMem (by omega)).trans (loadAt_enterMem (by omega) hroom (by omega))
  refine Wp.append ((wp_loadInt hxseg hptr (by omega) hlow (by omega)).mono ?_)
  rintro y ⟨hygpr, hyedi, hyseg, hycr0, hyflags, hygdtr, hyidtr, hyouts, hymem⟩
  -- the number goes into the code
  have hnumber : x.mem p = s.mem p := by
    rw [hmem]
    exact (List.cons.inj (hparam (y := p) (n := 1) (Nat.le_refl _) (by omega))).1
  have hymem' : y.mem = biosMem l a p s := by rw [hymem, hnumber, hmem]; rfl
  refine (wp_loadParams (hyseg.trans hxseg) hyedi hlow).mono ?_
  rintro e ⟨hregs, hothers, heseg, hecr0, heflags, -, heidtr, heouts, hemem⟩
  have hecr : e.cr0 = s.cr0 &&& 0xfffffffe := by rw [hecr0, hycr0, hxcr0, hvcr0, htcr0]
  -- the number is not in the table
  have hegdt : GdtLoaded { e with gdtr := s.gdtr } :=
    hvgdt.of_frame ((hvkept.gdtr.trans htgdtr).symm) fun z hlo hlt => by
      rw [hvkept.gdtr, htgdtr] at hlo hlt
      show e.mem z = v.mem z
      rw [hemem, hymem, hxmem, storeAt_of_outside (by rw [List.length_singleton]; omega)]
  have hememory : e.mem = biosMem l a p s := hemem.trans hymem'
  have hseg : e.seg = fun _ => realSeg := heseg.trans (hyseg.trans hxseg)
  have hesp : e.gpr .esp = UInt32.ofNat (a - 32) :=
    (hothers .esp (by decide)).trans ((hygpr .esp (by decide) (by decide)).trans
      ((hkept.gpr .esp (by decide)).trans htesp))
  refine ⟨⟨?_, ?_, hseg, ?_, fun r hr => ?_, ?_, ?_, fun z hz hz' hne => ?_, ?_⟩, hecr, hememory,
    hegdt⟩
  · rw [Cpu.Pe, hecr0, hycr0, hxcr0]
    exact hvreal
  · rw [Cpu.If, heflags, hyflags]
    exact hxif
  · rw [heidtr, hyidtr, hxidtr, hvidtr]
  · have hidx : callRegs.idxOf r < 6 := List.idxOf_lt_length_of_mem hr
    rw [hregs r hr, paramAt, paramAt, hymem', loadAt_biosMem (by omega),
      hparam (by omega) (by omega)]
  · have htop := h.top
    rw [hesp, UInt32.toNat_ofNat']
    omega
  · rw [hememory]
    show storeAt (realMem l a p s) l.intId [s.mem p] l.intId = s.mem p
    rw [storeAt, if_pos (Int.le_refl _), Int.sub_self]
    rfl
  · have hother : enterMem l a p s z = s.mem z := by
      rw [enterMem, storeAt_of_outside (by rw [length_saved]; omega),
        storeAt_of_outside (by rw [length_allBytes]; omega)]
    rw [hememory, biosMem, storeAt_of_outside (by rw [List.length_singleton]; omega), realMem,
      storeAt_singleton, storeAt_singleton, hother]
    split_ifs <;> first | rfl | omega
  · obtain ⟨w', hw', hwall'⟩ := hkept.outs
    refine ⟨w ++ w', ?_, fun q hq => (List.mem_append.mp hq).elim (hwall q) (hwall' q)⟩
    rw [heouts, hyouts, hw', hw, List.append_assoc]

/-- The way back is there when the BIOS begins. -/
theorem resumable_biosMem (h : Called l lo hi a p ret s) (hbios : AtBios l a p s e)
    (hcr0 : e.cr0 = s.cr0 &&& 0xfffffffe) (hmem : e.mem = biosMem l a p s)
    (hgdt : GdtLoaded { e with gdtr := s.gdtr }) : Resumable l a p ret s e where
  seg := hbios.seg
  cr0 := hcr0
  esp := hbios.esp
  regs := by
    have hroom := h.room
    have hdata := h.dataIn
    have hintIn := h.intIn
    have hgdtIn := h.gdtIn
    have hstack := h.stack
    have hself : loadAt (storeAt s.mem ((a - 32 : Nat) : Int) (s.allBytes 4))
        ((a - 32 : Nat) : Int) 32 = s.allBytes 4 := loadAt_storeAt _ _ _
    rw [hmem, loadAt_biosMem (by omega), loadAt_realMem (by omega), enterMem,
      loadAt_storeAt_disjoint (by rw [length_saved]; omega), hself]
  back := by
    have hdata := h.dataIn
    have hintIn := h.intIn
    have hgdtIn := h.gdtIn
    have hstack := h.stack
    rw [hmem, loadAt_biosMem (by omega), loadAt_realMem (by omega),
      loadAt_enterMem (by omega) h.room (by omega), h.back]
  saved := by
    have hintData := h.intData
    have hdataGdt := h.dataGdt
    have hself : loadAt (enterMem l a p s) l.biosCallPtr 16 = Bios.saved p s := loadAt_storeAt _ _ _
    rw [hmem, loadAt_biosMem (by omega), loadAt_realMem (by omega), hself]
  gdt := hgdt

/-- And when it returns. -/
theorem Resumable.keeps (h : Resumable l a p ret s e) (hroom : 38 ≤ a)
    (hkeeps : KeepsCaller (kept l a s) e u) : Resumable l a p ret s u where
  seg := hkeeps.seg.trans h.seg
  cr0 := hkeeps.cr0.trans h.cr0
  esp := by rw [hkeeps.esp, h.esp]
  regs := by
    rw [← h.regs]
    exact loadAt_congr fun x hlo hlt => hkeeps.mem (Or.inl ⟨hlo, by omega⟩)
  back := by
    rw [← h.back]
    exact loadAt_congr fun x hlo hlt => hkeeps.mem (Or.inl ⟨by omega, by omega⟩)
  saved := by
    rw [← h.saved]
    exact loadAt_congr fun x hlo hlt => hkeeps.mem (Or.inr (Or.inl ⟨hlo, by omega⟩))
  gdt := h.gdt.of_frame rfl fun x hlo hlt => hkeeps.mem (Or.inr (Or.inr ⟨hlo, hlt⟩))

/-- Behind the `int`. -/
theorem wp_afterInt (h : Called l lo hi a p ret s) (hu : Resumable l a p ret s u) :
    Wp b (afterInt l) u (Returned a p ret s u) := by
  have hroom := h.room
  have htop := h.top
  have himage := h.image
  have hdata := h.dataIn
  have hgdtIn := h.gdtIn
  have hstack := h.stack
  have hstruct := h.struct
  have hapart := h.apart
  have hlow := h.low
  have hdataGdt := h.dataGdt
  have hptr : loadAt u.mem l.biosCallPtr 2 = toLe 2 p := by
    rw [← take_loadAt _ _ (by decide : 2 ≤ 16), hu.saved]
    rfl
  refine Wp.append ((wp_saveResults hu.seg hu.esp (by omega) (by omega) hptr (by omega) hlow
    (by omega) (by omega)).mono ?_)
  rintro t ⟨htesp, htseg, htcr0, -, htouts, htres, htmem⟩
  have hframe {x n : Nat} (hx : x + n ≤ a - 38 ∨ a - 32 ≤ x) (hx' : x + n ≤ p + 4 ∨ p + 32 ≤ x) :
      loadAt t.mem x n = loadAt u.mem x n :=
    loadAt_congr fun y hlo hlt => htmem y (by omega) (by omega)
  -- what was saved in front of the interrupt is still there
  have hsaved : loadAt t.mem l.biosCallPtr 16 = saved p s :=
    (hframe (by omega) (by omega)).trans hu.saved
  have hidtr : loadAt t.mem l.savedIdtr 6 = s.idtr.bytes := by
    have hfield := loadAt_inside hsaved (by decide : 4 + 6 ≤ 16)
    exact hfield
  have hgdtr : loadAt t.mem l.savedGdtr 6 = s.gdtr.bytes := by
    have hfield := loadAt_inside hsaved (by decide : 10 + 6 ≤ 16)
    exact hfield
  have hgdt : GdtLoaded { t with gdtr := s.gdtr } :=
    hu.gdt.of_frame rfl fun y hlo hlt => htmem y
      (by simp only at hlo hlt; omega) (by simp only at hlo hlt; omega)
  have htreal : t.seg = fun _ => realSeg := htseg.trans hu.seg
  have htcode : (t.seg .cs).big = false := by
    rw [htreal]
    rfl
  let v : Cpu := { t with eflags := t.eflags &&& 0xfffffdff }
  refine Wp.append (Wp.code_append (Wp.cons htcode (t := v) rfl (Wp.nil ?_)))
  have hvgdt : GdtLoaded { v with gdtr := s.gdtr } := hgdt.of_frame rfl fun _ _ _ => rfl
  refine (wp_switchOn (s := v) (realSeg_flat htreal) htcode
    (by show l.biosCallPtr + 10 + 6 ≤ 2 ^ 16; omega) hgdtr (by omega) hvgdt).mono ?_
  -- the bit that was cleared is the only one that is set
  have hagain : v.cr0 ||| 1 = s.cr0 := by
    have hcr0 : v.cr0 = s.cr0 &&& 0xfffffffe := htcr0.trans hu.cr0
    rw [hcr0, pe_again h.pe]
  rw [hagain]
  rintro w hw
  have hloaded : GdtLoaded w := by
    rw [hw]
    exact hvgdt.mark (i := 1) rfl rfl
  subst hw
  -- nor is any of it in the table
  let m := storeAt t.mem ((s.gdtr.base + 13 : Nat) : Int) [0x9b]
  have hm {x n : Nat} (hx : x + n ≤ s.gdtr.base ∨ s.gdtr.base + 48 ≤ x) :
      loadAt m x n = loadAt t.mem x n := loadAt_mark (by decide) hx
  have hsavedIdtr : l.savedIdtr = l.biosCallPtr + 4 := rfl
  refine (wp_leave (l := l) (c := s) (a := a - 32) hloaded h.pe rfl
    ((hm (by omega)).trans hidtr) h.idtr.1 h.idtr.2 (by omega) htesp (by omega) ?_ ?_ h.retLt
    (by show l.savedIdtr + 6 ≤ s.gdtr.base ∨ s.gdtr.base + 48 ≤ l.savedIdtr; omega)
    (by show a - 32 + 36 ≤ s.gdtr.base ∨ s.gdtr.base + 48 ≤ a - 32; omega)).mono ?_
  · exact (hm (by omega)).trans ((hframe (by omega) (by omega)).trans hu.regs)
  · have hplace : a - 32 + 32 = a := by omega
    rw [hplace]
    exact (hm (by omega)).trans ((hframe (by omega) (by omega)).trans hu.back)
  · rintro x ⟨hxgpr, hxesp, hxeip, hxseg, hxcr0, hxif, hxgdtr, hxidtr, hxgdt, hxmem, o, ho, hoall⟩
    have hxmem' : x.mem = storeAt m ((s.gdtr.base + 21 : Nat) : Int) [0x93] := hxmem
    refine ⟨hxgpr, by omega, hxeip, hxseg.trans h.seg.symm, hxcr0, hxgdtr, hxgdt, hxidtr, ?_, ?_,
      fun y hy hy' => ?_, o, ?_, hoall⟩
    · intro hif
      refine hxif.mp hif ?_
      show logicFlags _ _ _ &&& 0x200 = 0
      rw [logicFlags_other _ _ _ (by decide) (by decide)]
      exact and_if t.eflags
    · rw [hxmem', loadAt_mark (by decide) (by omega), hm (by omega)]
      exact htres
    · have hmy : m y = if y = ((s.gdtr.base + 13 : Nat) : Int) then 0x9b else t.mem y :=
        storeAt_singleton ..
      rw [hxmem', storeAt_singleton, hmy, htmem y (by omega) hy']
      split_ifs <;> first | rfl | omega
    · rw [ho]
      exact congrArg (· ++ o) htouts

/-- **`bios_call_asm`**: the BIOS is called in real mode, with interrupts on and
    with the registers of the structure; the structure holds its registers
    afterwards, and the caller finds its own, and the processor in protected
    mode, with the tables it had. -/
theorem biosCallAsm_returns (h : Called l lo hi a p ret s)
    (hbios : ∀ e, AtBios l a p s e → KeepsCaller (kept l a s) e (b.bios (s.mem p) e)) :
    ∃ e t, run b (beforeInt l) s = some e ∧ run b (biosCallAsm l) s = some t ∧
      AtBios l a p s e ∧ Returned a p ret s (b.bios (s.mem p) e) t := by
  obtain ⟨e, he, hat, hcr0, hmem, hgdt⟩ := wp_beforeInt (b := b) h
  have hcode : (e.seg .cs).big = false := by
    rw [hat.seg]
    rfl
  have hint : step b e (.int l.intId) = some (b.bios (s.mem p) e) := by
    have hbase : (e.seg .cs).base = 0 := by
      rw [hat.seg]
      rfl
    rw [step, if_neg hat.real, hbase, Nat.zero_add, hat.number]
  have hresume := (resumable_biosMem h hat hcr0 hmem hgdt).keeps h.room (hbios e hat)
  have hrest : Wp b (code false [.int l.intId] ++ afterInt l) e
      (Returned a p ret s (b.bios (s.mem p) e)) :=
    Wp.append (Wp.cons hcode hint (Wp.nil (wp_afterInt h hresume)))
  obtain ⟨t, ht, hreturned⟩ := Wp.append ⟨e, he, hrest⟩
  exact ⟨e, t, he, ht, hat, hreturned⟩

end Call

/-! ### A call of the disk service -/

namespace Plain

def labels : Labels where
  biosCallPtr := 0x7e30
  intId := 0x7e46

/-- The descriptors as `start` leaves them. -/
def gdt : List UInt8 := ((Startup.gdt 0x7f00).set 13 0x9b).set 21 0x93

/-- The descriptors, room for what is saved, `_realmode_idtr` and the number. -/
def data : List UInt8 := gdt ++ List.replicate 16 0 ++ realmodeIdtr.bytes ++ [0]

/-- What `bios_call_asm` is called with, and the structure behind it. -/
def stack : List UInt8 :=
  toLe 4 0x8123 ++ toLe 4 0x1008 ++ toLe 4 0x13 ++ toLe 4 0x0201 ++ toLe 4 0x7c00 ++
    toLe 4 0x0001 ++ toLe 4 0x0080 ++ toLe 4 0 ++ toLe 4 0

/-- The BIOS answers with a zero. -/
def board : Board where
  inp _ _ := 0xff
  bios _ s := s.set .eax 0

def cpu : Cpu where
  gpr r := if r = .esp then 0x1000 else 0x55
  seg := flat32
  cr0 := 0x11
  eflags := 0x02
  gdtr := ⟨47, 0x7e00⟩
  idtr := ⟨0x7ff, 0x9000⟩
  tr := taskSeg 0x7f00
  eip := 0x8200
  mem := storeAt (storeAt (fun _ => 0) 0x7e00 data) 0x1000 stack
  outs := []

theorem load {k n : Nat} (h : k + n ≤ 71) :
    loadAt cpu.mem ((0x7e00 + k : Nat) : Int) n = (data.drop k).take n := by
  have hdata : loadAt cpu.mem 0x7e00 71 = data :=
    (loadAt_storeAt_disjoint (by decide)).trans (loadAt_storeAt (fun _ => 0) 0x7e00 data)
  exact loadAt_inside hdata h

theorem loadStack {k n : Nat} (h : k + n ≤ 36) :
    loadAt cpu.mem ((0x1000 + k : Nat) : Int) n = (stack.drop k).take n := by
  have hstack : loadAt cpu.mem 0x1000 36 = stack := loadAt_storeAt _ 0x1000 stack
  exact loadAt_inside hstack h

theorem gdtLoaded : GdtLoaded cpu where
  limit := rfl
  table := fun i hlo hhi => by
    have hall : ∀ i < 5, 0 < i → (data.drop (8 * i)).take 8 = segDesc i ∨
        (data.drop (8 * i)).take 8 = marked (segDesc i) := by decide
    have hdesc := hall i hhi hlo
    rw [← load (k := 8 * i) (n := 8) (by omega)] at hdesc
    exact hdesc

theorem called : Called labels 0x7e00 0x7e47 0x1000 0x1008 0x8123 cpu where
  pe := by decide
  seg := rfl
  gdt := gdtLoaded
  gdtIn := by decide
  idtr := by decide
  esp := rfl
  room := by decide
  top := by decide
  retLt := by decide
  back := loadStack (k := 0) (by decide)
  arg := loadStack (k := 4) (by decide)
  image := by decide
  dataIn := by decide
  realmode := load (k := 64) (by decide)
  intIn := by decide
  dataGdt := by decide
  intGdt := by decide
  intData := by decide
  stack := by decide
  struct := by decide
  apart := by decide
  low := by decide

end Plain

theorem biosCallAsm_returns_plain : ∃ e t, run Plain.board (beforeInt Plain.labels) Plain.cpu = some e ∧
    run Plain.board (biosCallAsm Plain.labels) Plain.cpu = some t ∧
    AtBios Plain.labels 0x1000 0x1008 Plain.cpu e ∧
    Returned 0x1000 0x1008 0x8123 Plain.cpu (Plain.board.bios (Plain.cpu.mem 0x1008) e) t :=
  biosCallAsm_returns Plain.called fun _ _ =>
    ⟨rfl, rfl, Cpu.gpr_set_of_ne (by decide) 0, fun _ _ => rfl⟩

end LBoot.Bios
