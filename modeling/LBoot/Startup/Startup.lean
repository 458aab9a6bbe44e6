/-
  LBoot.Startup.Startup

  The entry point of stage 2 (src/startup/startup.s).

  `start` prints its message through the BIOS, takes the processor to
  protected mode and calls `cstart`.  It is run here instruction by
  instruction, wherever the linker puts its data and whatever the BIOS does
  with the registers it may use.
-/

import LBoot.Lib.X86

namespace LBoot.Startup

open LBoot.Lib LBoot.Lib.X86

/-! ## Data -/

/-- The addresses of labels. -/
structure Labels where
  bootMessage : Nat
  gdtr : Nat
  idtr : Nat
  gdt : Nat
  idt : Nat
  tss : Nat
  msgPrint : Nat
  /-- the number in `int $0x10` -/
  msgInt : Nat
  /-- behind `call msg_print` -/
  printed : Nat
  cstart : Nat
  /-- behind `call cstart` -/
  halt : Nat

/-- `boot_message`, without the NUL behind it: "\r\nStage2.\r\n". -/
def bootMessage : List UInt8 :=
  [0x0d, 0x0a, 0x53, 0x74, 0x61, 0x67, 0x65, 0x32, 0x2e, 0x0d, 0x0a]

/-- `tss_end - tss`. -/
abbrev tssSize : Nat := 104

/-- `gdt`, but for the descriptor of the task. -/
def gdtSegments : List UInt8 :=
  toLe 4 0x00000000 ++ toLe 4 0x00000000 ++
  toLe 4 0x0000ffff ++ toLe 4 0x00cf9a00 ++
  toLe 4 0x0000ffff ++ toLe 4 0x00cf9200 ++
  toLe 4 0x0000ffff ++ toLe 4 0x000f9a00 ++
  toLe 4 0x0000ffff ++ toLe 4 0x000f9200

/-- The descriptor of the task. -/
def gdtTask (tss : Nat) : List UInt8 := toLe 2 (tssSize - 1) ++ toLe 2 tss ++ toLe 4 0x00408900

/-- `gdt`. -/
def gdt (tss : Nat) : List UInt8 := gdtSegments ++ gdtTask tss

/-- `gdtr`. -/
def gdtr (l : Labels) : Table := ⟨48 - 1, l.gdt⟩

/-- `idtr`. -/
def idtr (l : Labels) : Table := ⟨8 - 1, l.idt⟩

/-! ## Code -/

/-- The calls of the BIOS: the number, and the processor at the call. -/
abbrev BiosCalls := List (UInt8 × Cpu)

/-- The loop of `msg_print`. -/
def msgPrintLoop (b : Board) (l : Labels) : Nat → Cpu → Option (Cpu × BiosCalls)
  | 0, _ => none
  | fuel + 1, s => do
      let s ← run b (code false [.lodsb, .cmpZero 1 .eax]) s
      if s.Zf then return (s, [])
      else
        let t ← run b (code false [.int l.msgInt]) s
        let (u, calls) ← msgPrintLoop b l fuel t
        return (u, (s.mem ((s.seg .cs).base + l.msgInt : Nat), s) :: calls)

/-- `msg_print`. -/
def msgPrint (b : Board) (l : Labels) (fuel : Nat) (s : Cpu) : Option (Cpu × BiosCalls) := do
  let s ← run b (code false [.pusha 2, .movHigh .eax 0x0e, .clear 2 .ebx]) s
  let (s, calls) ← msgPrintLoop b l fuel s
  let s ← run b (code false [.popa 2, .ret]) s
  return (s, calls)

/-- The instructions that are to disable the NMI, or to enable it. -/
def nmi (op : Logic) (v : UInt32) : List Instr :=
  [.inb 0x70, .logic op 1 .eax v, .outb 0x80, .inb 0x71]

/-- All data segments. -/
def movSegs : List Instr := [.ds, .ss, .es, .fs, .gs].map (.movSeg · .eax)

/-- To the code segment of 32 bits, with the table that is described at `x`. -/
def switchOn (x : Nat) : List Instr :=
  [.lgdt ⟨none, x⟩, .movFromCr0 .eax, .logic .or 4 .eax 1, .movToCr0 .eax, .ljmp 0x08]

/-- From behind `msg_print` to the far jump. -/
def toProtected (l : Labels) : List Instr := [.cli] ++ nmi .or 0x80 ++ switchOn l.gdtr

/-- From behind it to the A20 line. -/
def inProtected (l : Labels) : List Instr :=
  [.movImm 2 .eax 0x28, .ltr .eax] ++ ([.movImm 2 .eax 0x10] ++ movSegs) ++ [.lidt ⟨none, l.idtr⟩]

/-- The A20 line. -/
def enableA20 (b : Board) (s : Cpu) : Option Cpu := do
  let s ← run b (code true [.inb 0x92, .test 1 .eax 0x02]) s
  if ¬ s.Zf then return s
  else run b (code true [.logic .or 1 .eax 0x02, .outb 0x92]) s

/-- `start`, up to the first instruction of `cstart`. -/
def start (b : Board) (l : Labels) (fuel : Nat) (s : Cpu) : Option (Cpu × BiosCalls) := do
  let s ← run b (code false [.movImm 2 .esi l.bootMessage, .call l.msgPrint l.printed]) s
  let (s, calls) ← msgPrint b l fuel s
  if s.eip = UInt32.ofNat l.printed then
    let s ← run b (code false (toProtected l)) s
    let s ← run b (code true (inProtected l)) s
    let s ← enableA20 b s
    let s ← run b (code true [.call l.cstart l.halt]) s
    return (s, calls)
  else none

/-! ## The descriptors -/

/-- The descriptor number `i`, as it is assembled. -/
def segDesc (i : Nat) : List UInt8 := (gdtSegments.drop (8 * i)).take 8

/-- The processor uses the table; it may have marked descriptors as accessed. -/
structure GdtLoaded (s : Cpu) : Prop where
  limit : s.gdtr.limit = 48 - 1
  table : ∀ i, 0 < i → i < 5 → loadAt s.mem ((s.gdtr.base + 8 * i : Nat) : Int) 8 = segDesc i ∨
    loadAt s.mem ((s.gdtr.base + 8 * i : Nat) : Int) 8 = marked (segDesc i)

/-- The segments of 32 bits. -/
def flat32 (r : SReg) : Seg :=
  if r = .cs then ⟨0x08, 0, 0xffffffff, true⟩ else ⟨0x10, 0, 0xffffffff, true⟩

/-- The segments of 16 bits; their limit is 1 MiB. -/
def flat16 (r : SReg) : Seg :=
  if r = .cs then ⟨0x18, 0, 0xfffff, false⟩ else ⟨0x20, 0, 0xfffff, false⟩

/-- The task segment. -/
def taskSeg (tss : Nat) : Seg := ⟨0x28, tss, tssSize - 1, true⟩

theorem flat32_flat (r : SReg) : (flat32 r).base = 0 ∧ 0xffff ≤ (flat32 r).limit := by
  cases r <;> decide

/-- It has room for an address below 64 KiB. -/
theorem segOf_gdtTask {tss : Nat} (htss : tss < 2 ^ 16) : segOf 0x28 (gdtTask tss) = taskSeg tss := by
  have hbase : leField (gdtTask tss) 2 3 = tss := by
    show (UInt8.ofNat tss).toNat + 256 * ((UInt8.ofNat (tss / 256)).toNat + 256 * (0 + 256 * 0)) = tss
    rw [UInt8.toNat_ofNat', UInt8.toNat_ofNat']
    omega
  have hlimit : leField (gdtTask tss) 0 2 = 103 := rfl
  have hflags : (gdtTask tss).getD 6 0 = 0x40 := rfl
  have hhigh : (gdtTask tss).getD 7 0 = 0 := rfl
  rw [segOf, hbase, hlimit, hflags, hhigh, if_pos (by decide)]
  rfl

namespace GdtLoaded

variable {s : Cpu}

/-- A table that was just loaded. -/
theorem of_assembled (hlimit : s.gdtr.limit = 48 - 1)
    (htable : loadAt s.mem s.gdtr.base 40 = gdtSegments) : GdtLoaded s where
  limit := hlimit
  table := fun i _ hi => Or.inl (loadAt_inside htable (by omega : 8 * i + 8 ≤ 40))

/-- What does not write to it leaves the table in use. -/
theorem of_frame (h : GdtLoaded s) {t : Cpu} (hgdtr : t.gdtr = s.gdtr)
    (hmem : ∀ x : Int, s.gdtr.base ≤ x → x < s.gdtr.base + 40 → t.mem x = s.mem x) :
    GdtLoaded t where
  limit := by rw [hgdtr, h.limit]
  table := fun i hi hlt => by
    have hload : loadAt t.mem ((s.gdtr.base + 8 * i : Nat) : Int) 8
        = loadAt s.mem ((s.gdtr.base + 8 * i : Nat) : Int) 8 :=
      loadAt_congr fun x hlo hhi => hmem x (by omega) (by omega)
    rw [hgdtr, hload]
    exact h.table i hi hlt

/-- A descriptor that was loaded is marked, and the table still in use. -/
theorem mark (h : GdtLoaded s) {t : Cpu} (hgdtr : t.gdtr = s.gdtr) {i : Nat}
    (hmem : t.mem = storeAt s.mem ((s.gdtr.base + (8 * i + 5) : Nat) : Int)
      [(segDesc i).getD 5 0 ||| 0x01]) : GdtLoaded t where
  limit := by rw [hgdtr, h.limit]
  table := fun j hj hlt => by
    rw [hgdtr, hmem]
    by_cases hij : j = i
    · subst hij
      right
      have hplace : ((s.gdtr.base + (8 * j + 5) : Nat) : Int)
          = ((s.gdtr.base + 8 * j : Nat) : Int) + (5 : Nat) := by omega
      rw [hplace, loadAt_set s.mem _ (by decide : 5 < 8)]
      rcases h.table j hj hlt with hd | hd
      · rw [hd, marked]
      · rw [hd, marked, List.set_set]
    · rw [loadAt_storeAt_disjoint (by rw [List.length_singleton]; omega)]
      exact h.table j hj hlt

/-- A selector is accepted; `v` is what is kept of its descriptor. -/
theorem loadSeg {P : List UInt8 → Prop} [DecidablePred P] (h : GdtLoaded s) (hpe : s.Pe)
    {selector : UInt16} {i : Nat} (hsel : selector.toNat = 8 * i) (hi : 0 < i) (hlt : i < 5)
    {v : Seg} (hd : ∀ d ∈ [segDesc i, marked (segDesc i)], P d ∧ segOf selector d = v ∧
      d.getD 5 0 ||| 0x01 = (segDesc i).getD 5 0 ||| 0x01) (r : SReg) :
    s.loadSeg P r selector = some { s.setSeg r v with
      mem := storeAt s.mem ((s.gdtr.base + (8 * i + 5) : Nat) : Int)
        [(segDesc i).getD 5 0 ||| 0x01] } := by
  have hoff : selector.toNat / 8 * 8 = 8 * i := by omega
  have hdesc : s.descriptor selector = some (loadAt s.mem ((s.gdtr.base + 8 * i : Nat) : Int) 8) := by
    rw [Cpu.descriptor, hoff, h.limit, if_pos ⟨by omega, by omega, by omega⟩]
  have hin : loadAt s.mem ((s.gdtr.base + 8 * i : Nat) : Int) 8
      ∈ [segDesc i, marked (segDesc i)] := by
    rcases h.table i hi hlt with hd | hd
    · rw [hd]
      exact List.mem_cons_self
    · rw [hd]
      exact List.mem_cons_of_mem _ List.mem_cons_self
  obtain ⟨hP, hseg, hflags⟩ := hd _ hin
  rw [Cpu.loadSeg, if_pos hpe, hdesc]
  dsimp only
  rw [if_pos hP, hseg, hflags, Cpu.flagsAt, hoff]

theorem code32 (h : GdtLoaded s) (hpe : s.Pe) : s.loadSeg IsCode .cs 0x08 =
    some { s.setSeg .cs (flat32 .cs) with
      mem := storeAt s.mem ((s.gdtr.base + 13 : Nat) : Int) [0x9b] } :=
  h.loadSeg hpe (by decide : (0x08 : UInt16).toNat = 8 * 1) (by decide) (by decide) (by decide) .cs

theorem data32 (h : GdtLoaded s) (hpe : s.Pe) {r : SReg} (hr : r ≠ .cs) :
    s.loadSeg IsData r 0x10 = some { s.setSeg r (flat32 r) with
      mem := storeAt s.mem ((s.gdtr.base + 21 : Nat) : Int) [0x93] } := by
  rw [flat32, if_neg hr]
  exact h.loadSeg hpe (by decide : (0x10 : UInt16).toNat = 8 * 2) (by decide) (by decide)
    (by decide) r

theorem code16 (h : GdtLoaded s) (hpe : s.Pe) : s.loadSeg IsCode .cs 0x18 =
    some { s.setSeg .cs (flat16 .cs) with
      mem := storeAt s.mem ((s.gdtr.base + 29 : Nat) : Int) [0x9b] } :=
  h.loadSeg hpe (by decide : (0x18 : UInt16).toNat = 8 * 3) (by decide) (by decide) (by decide) .cs

theorem data16 (h : GdtLoaded s) (hpe : s.Pe) {r : SReg} (hr : r ≠ .cs) :
    s.loadSeg IsData r 0x20 = some { s.setSeg r (flat16 r) with
      mem := storeAt s.mem ((s.gdtr.base + 37 : Nat) : Int) [0x93] } := by
  rw [flat16, if_neg hr]
  exact h.loadSeg hpe (by decide : (0x20 : UInt16).toNat = 8 * 4) (by decide) (by decide)
    (by decide) r

/-- All data segments from one selector: the descriptor is marked once. -/
theorem dataSegs (h : GdtLoaded s) (hpe : s.Pe) {selector : UInt16} {i : Nat} {f : SReg → Seg}
    (hone : ∀ u : Cpu, GdtLoaded u → u.Pe → ∀ r, r ≠ .cs → u.loadSeg IsData r selector =
      some { u.setSeg r (f r) with
        mem := storeAt u.mem ((u.gdtr.base + (8 * i + 5) : Nat) : Int)
          [(segDesc i).getD 5 0 ||| 0x01] })
    {t : Cpu} (ht : Cpu.Scratch 0x80 s t) {r : SReg} (hr : r ≠ .cs) (g : SReg → Seg)
    {m m' : Int → UInt8} (hm : m = storeAt s.mem ((s.gdtr.base + (8 * i + 5) : Nat) : Int)
      [(segDesc i).getD 5 0 ||| 0x01]) (hm' : m' = s.mem ∨ m' = m) :
    Cpu.loadSeg { t with seg := g, mem := m' } IsData r selector
      = some { t with seg := fun q => if q = r then f r else g q, mem := m } := by
  have hu : GdtLoaded { t with seg := g, mem := m' } := by
    rcases hm' with rfl | rfl
    · exact h.of_frame ht.gdtr fun _ _ _ => rfl
    · exact h.mark ht.gdtr hm
  have hmem : storeAt m' ((t.gdtr.base + (8 * i + 5) : Nat) : Int) [(segDesc i).getD 5 0 ||| 0x01]
      = m := by
    rw [ht.gdtr]
    rcases hm' with rfl | rfl
    · exact hm.symm
    · rw [hm]
      exact storeAt_front s.mem _ rfl []
  refine (hone _ hu (ht.pe hpe) r hr).trans ?_
  dsimp only
  rw [hmem]
  rfl

/-- The selector of the task leads behind the segments. -/
theorem task (h : GdtLoaded s) (hpe : s.Pe) {d : List UInt8}
    (htask : loadAt s.mem ((s.gdtr.base + 40 : Nat) : Int) 8 = d) : s.loadTask 0x28 =
      if d.getD 5 0 &&& 0x9f = 0x89 then some { s with
        tr := segOf 0x28 d
        mem := storeAt s.mem ((s.gdtr.base + 45 : Nat) : Int) [d.getD 5 0 ||| 0x02] }
      else none := by
  have hsel : (0x28 : UInt16).toNat = 40 := by decide
  have hdesc : s.descriptor 0x28 = some d := by
    rw [Cpu.descriptor, hsel, h.limit, ← htask]
    rfl
  rw [Cpu.loadTask, if_pos hpe, hdesc, Cpu.flagsAt, hsel]

end GdtLoaded

/-! ## The message -/

/-- What the teletype function of the BIOS keeps. -/
structure TtyReturns (b : Board) (kept : Set Int) : Prop where
  keeps : ∀ s : Cpu, ¬ s.Pe → KeepsCaller kept s (b.bios 0x10 s)
  gpr : ∀ s : Cpu, ¬ s.Pe → ∀ r ∈ [Reg.eax, .ebx, .esi], (b.bios 0x10 s).gpr r = s.gpr r
  df : ∀ s : Cpu, ¬ s.Pe → (b.bios 0x10 s).eflags &&& 0x400 = s.eflags &&& 0x400

/-- The processor in the loop of `msg_print`. -/
structure Printing (l : Labels) (s : Cpu) : Prop where
  real : ¬ s.Pe
  flat : s.Flat
  code : (s.seg .cs).big = false
  df : s.eflags &&& 0x400 = 0
  ah : (s.gpr .eax).toNat / 256 % 256 = 0x0e
  bx : (s.gpr .ebx).toNat % 2 ^ 16 = 0
  int : s.mem l.msgInt = 0x10

/-- What is seen of a call. -/
def teletype (c : UInt8 × Cpu) : UInt8 × Nat × Nat :=
  (c.1, (c.2.gpr .eax).toNat % 2 ^ 16, (c.2.gpr .ebx).toNat % 2 ^ 16)

section Message

variable {b : Board} {l : Labels} {s : Cpu} {kept : Set Int}

/-- One character is taken and looked at. -/
theorem wp_lodsb (h : Printing l s) {x : Nat} (hsi : (s.gpr .esi).toNat % 2 ^ 16 = x) :
    Wp b (code false [.lodsb, .cmpZero 1 .eax]) s fun t => Printing l t ∧
      (t.Zf ↔ s.mem x = 0) ∧ (t.gpr .esi).toNat % 2 ^ 16 = (x + 1) % 2 ^ 16 ∧
      (t.gpr .eax).toNat % 256 = (s.mem x).toNat ∧ t.mem = s.mem ∧ t.seg = s.seg ∧
      t.cr0 = s.cr0 ∧ t.gpr .esp = s.gpr .esp := by
  have hsize : s.codeBytes = 2 := by rw [Cpu.codeBytes, h.code]; rfl
  have hload : s.load .ds x 1 = some (loadAt s.mem x 1) := h.flat.load (by omega)
  have hbyte : leNat (loadAt s.mem x 1) = (s.mem x).toNat := by
    show (s.mem x).toNat + 256 * 0 = _
    omega
  have hlt := (s.mem x).toNat_lt
  have hlodsb : step b s .lodsb =
      some ((s.setLow 1 .eax (s.mem x).toNat).setLow 2 .esi (x + 1)) := by
    have hx : (s.gpr .esi).toNat % 256 ^ 2 = x := hsi
    rw [step, hsize, hx, hload, Option.map_some, hbyte, if_pos h.df]
  have hal : ((s.setLow 1 .eax (s.mem x).toNat).gpr .eax).toNat =
      (s.gpr .eax).toNat / 256 * 256 + (s.mem x).toNat := by
    have hval := Cpu.toNat_setLow (s := s) (r := .eax) (n := 1) (by decide) (s.mem x).toNat
    omega
  have hmask (k e : UInt32) (hk : 0xffffffef &&& k = k) :
      e &&& 0xffffffef &&& k = e &&& k := by
    rw [UInt32.and_assoc, hk]
  refine Wp.cons h.code hlodsb (Wp.cons h.code rfl (Wp.nil ⟨?_, ?_, ?_, ?_, rfl, rfl, rfl, rfl⟩))
  · refine ⟨h.real, h.flat, h.code, ?_, ?_, h.bx, h.int⟩
    · show logicFlags _ _ _ &&& 0xffffffef &&& 0x400 = 0
      rw [hmask _ _ (by decide), logicFlags_other _ _ _ (by decide) (by decide)]
      exact h.df
    · show ((s.setLow 1 .eax (s.mem x).toNat).gpr .eax).toNat / 256 % 256 = 0x0e
      have hah := h.ah
      omega
  · show logicFlags _ (((s.setLow 1 .eax (s.mem x).toNat).gpr .eax).toNat % 256 ^ 1) _
      &&& 0xffffffef &&& 0x40 ≠ 0 ↔ _
    rw [hmask _ _ (by decide), logicFlags_zf, hal, ← UInt8.toNat_inj]
    have hzero : (0 : UInt8).toNat = 0 := rfl
    split_ifs with hif
    · exact iff_of_true (by decide) (by omega)
    · exact iff_of_false (not_not.mpr rfl) (by omega)
  · exact Cpu.toNat_setLow_mod (s := s.setLow 1 .eax (s.mem x).toNat) (r := .esi) (n := 2)
      (by decide) (x + 1)
  · show ((s.setLow 1 .eax (s.mem x).toNat).gpr .eax).toNat % 256 = _
    omega

/-- The BIOS leaves the loop going. -/
theorem Printing.bios (hbios : TtyReturns b kept) (hint : (l.msgInt : Int) ∈ kept)
    (h : Printing l s) : Printing l (b.bios 0x10 s) where
  real := by
    rw [Cpu.Pe, (hbios.keeps s h.real).cr0]
    exact h.real
  flat := by
    rw [Cpu.Flat, (hbios.keeps s h.real).seg]
    exact h.flat
  code := by rw [(hbios.keeps s h.real).seg, h.code]
  df := (hbios.df s h.real).trans h.df
  ah := by rw [hbios.gpr s h.real .eax (by decide), h.ah]
  bx := by rw [hbios.gpr s h.real .ebx (by decide), h.bx]
  int := ((hbios.keeps s h.real).mem hint).trans h.int

/-- The loop prints the text before the NUL, a character a call. -/
theorem msgPrintLoop_prints (hbios : TtyReturns b kept) (hint : (l.msgInt : Int) ∈ kept)
    {text : List UInt8} (htext : 0 ∉ text) : ∀ {fuel x : Nat} {s : Cpu}, text.length < fuel →
    Printing l s → (s.gpr .esi).toNat % 2 ^ 16 = x → x + text.length + 1 ≤ 2 ^ 16 →
    loadAt s.mem x (text.length + 1) = text ++ [0] →
    (∀ i ≤ text.length, ((x + i : Nat) : Int) ∈ kept) →
    ∃ t calls, msgPrintLoop b l fuel s = some (t, calls) ∧
      calls.map teletype = text.map (fun ch => (0x10, 0x0e00 + ch.toNat, 0)) ∧
      Printing l t ∧ KeepsCaller kept s t := by
  induction text with
  | nil =>
      intro fuel x s hfuel h hsi hx hload hkept
      obtain ⟨fuel, rfl⟩ : ∃ k, fuel = k + 1 := ⟨fuel - 1, by omega⟩
      obtain ⟨t, hrun, ht, hzf, -, -, hmem, hseg, hcr0, hesp⟩ := wp_lodsb (b := b) h hsi
      have hnul : s.mem x = 0 := (List.cons.inj hload).1
      refine ⟨t, [], ?_, rfl, ht, hseg, hcr0, hesp, fun _ _ => by rw [hmem]⟩
      rw [msgPrintLoop, hrun]
      show (if t.Zf then some (t, []) else _) = _
      rw [if_pos (hzf.mpr hnul)]
  | cons ch text ih =>
      intro fuel x s hfuel h hsi hx hload hkept
      obtain ⟨fuel, rfl⟩ : ∃ k, fuel = k + 1 := ⟨fuel - 1, by omega⟩
      rw [List.length_cons] at hfuel hx hload hkept
      obtain ⟨hne, htext⟩ := not_or.mp (fun h => htext (List.mem_cons.mpr h))
      obtain ⟨t, hrun, ht, hzf, hsi', hal, hmem, hseg, hcr0, hesp⟩ := wp_lodsb (b := b) h hsi
      obtain ⟨hch, hrest⟩ := List.cons.inj hload
      have hkeeps := hbios.keeps t ht.real
      have hu := ht.bios hbios hint
      -- the rest of the text is still there when the BIOS returns
      have hkept' (i : Nat) (hi : i ≤ text.length) : ((x + 1 + i : Nat) : Int) ∈ kept := by
        have hin := hkept (i + 1) (by omega)
        have hplace : x + (i + 1) = x + 1 + i := by omega
        rwa [hplace] at hin
      have hesi : ((b.bios 0x10 t).gpr .esi).toNat % 2 ^ 16 = x + 1 := by
        rw [hbios.gpr t ht.real .esi (by decide), hsi', Nat.mod_eq_of_lt (by omega)]
      have hload' : loadAt (b.bios 0x10 t).mem ((x + 1 : Nat) : Int) (text.length + 1)
          = text ++ [0] := by
        have hplace : ((x + 1 : Nat) : Int) = x + 1 := by omega
        refine Eq.trans ?_ hrest
        rw [hplace]
        apply loadAt_congr
        intro y hlo hhi
        obtain ⟨i, rfl⟩ := Int.exists_add_of_le hlo
        have hin := hkept' i (by omega)
        have hcell : ((x + 1 + i : Nat) : Int) = (x : Int) + 1 + i := by omega
        rw [hcell] at hin
        rw [hkeeps.mem hin, hmem]
      -- from there on it is a shorter text
      obtain ⟨v, calls, hloop, hcalls, hv, hkv⟩ :=
        ih htext (by omega : text.length < fuel) hu hesi (by omega) hload' hkept'
      have hint' : t.mem (((t.seg .cs).base + l.msgInt : Nat) : Int) = 0x10 := by
        rw [(ht.flat .cs).1, Nat.zero_add, ht.int]
      have hstep : run b (code false [.int l.msgInt]) t = some (b.bios 0x10 t) := by
        have hone : Wp b (code false [.int l.msgInt]) t (· = b.bios 0x10 t) :=
          Wp.cons ht.code (by rw [step, if_neg ht.real, hint']) (Wp.nil rfl)
        obtain ⟨u, hrun, rfl⟩ := hone
        exact hrun
      refine ⟨v, (0x10, t) :: calls, ?_, ?_, hv, ?_⟩
      · rw [msgPrintLoop, hrun]
        show (if t.Zf then _ else _) = _
        rw [if_neg (fun hz => hne ((hzf.mp hz).symm.trans hch)), hstep]
        show (msgPrintLoop b l fuel (b.bios 0x10 t)).bind _ = _
        rw [hloop, Option.bind_some, hint']
        rfl
      · rw [List.map_cons, List.map_cons, hcalls, teletype]
        have hah := ht.ah
        have hbx := ht.bx
        have heax : (t.gpr .eax).toNat % 2 ^ 16 = 0x0e00 + ch.toNat := by
          rw [hch] at hal
          omega
        rw [heax, hbx]
      · exact KeepsCaller.trans ⟨hseg, hcr0, hesp, fun _ _ => by rw [hmem]⟩ (hkeeps.trans hkv)

/-- The image, and the stack from `e` up to `a`. -/
def keptFrom (lo hi e a : Nat) : Set Int :=
  {x | ((lo : Int) ≤ x ∧ x < hi) ∨ ((e : Int) ≤ x ∧ x < a)}

/-- `msg_print` prints the text at `%si` and returns. -/
theorem msgPrint_prints {lo hi e ret fuel x : Nat} {text : List UInt8}
    (hbios : TtyReturns b (keptFrom lo hi (e - 16) (e + 2))) (hreal : ¬ s.Pe) (hflat : s.Flat)
    (hcode : (s.seg .cs).big = false) (hdf : s.eflags &&& 0x400 = 0)
    (hesp : (s.gpr .esp).toNat = e) (hroom : 16 ≤ e) (htop : e + 2 < 2 ^ 16)
    (hapart : e + 2 ≤ lo ∨ hi + 16 ≤ e) (hhi : hi ≤ 2 ^ 16)
    (hret : loadAt s.mem e 2 = toLe 2 ret) (hretlt : ret < 2 ^ 16)
    (hint : lo ≤ l.msgInt ∧ l.msgInt < hi) (hint' : s.mem l.msgInt = 0x10)
    (hsi : (s.gpr .esi).toNat % 2 ^ 16 = x) (hx : lo ≤ x) (hx' : x + text.length + 1 ≤ hi)
    (htext : 0 ∉ text) (hload : loadAt s.mem x (text.length + 1) = text ++ [0])
    (hfuel : text.length < fuel) :
    ∃ t calls, msgPrint b l fuel s = some (t, calls) ∧
      calls.map teletype = text.map (fun ch => (0x10, 0x0e00 + ch.toNat, 0)) ∧
      t.eip = UInt32.ofNat ret ∧ ¬ t.Pe ∧ t.Flat ∧ (t.seg .cs).big = false ∧
      (t.gpr .esp).toNat = e + 2 ∧ ∀ y : Int, lo ≤ y → y < hi → t.mem y = s.mem y := by
  have hlen : (s.allBytes 2).length = 16 := rfl
  -- the registers are saved below the image, or above it
  let m := storeAt s.mem ((e - 16 : Nat) : Int) (s.allBytes 2)
  have himage (y : Int) (hlo : (lo : Int) ≤ y) (hlt : y < hi) : m y = s.mem y :=
    storeAt_of_outside (by omega)
  have hpush : step b s (.pusha 2) = some { s.set .esp (UInt32.ofNat (e - 16)) with mem := m } := by
    rw [step, hflat.push hesp (by omega) (by omega), hlen]
  let u := { s.set .esp (UInt32.ofNat (e - 16)) with mem := m }
  have hstart : Wp b (code false [.pusha 2, .movHigh .eax 0x0e, .clear 2 .ebx]) s fun t =>
      Printing l t ∧ t.mem = m ∧ t.seg = s.seg ∧ t.cr0 = s.cr0 ∧
        t.gpr .esp = UInt32.ofNat (e - 16) ∧ t.gpr .esi = s.gpr .esi := by
    refine Wp.cons hcode hpush (Wp.cons hcode rfl (Wp.cons hcode rfl (Wp.nil ?_)))
    refine ⟨⟨hreal, hflat, hcode, ?_, ?_, ?_, ?_⟩, rfl, rfl, rfl, rfl, rfl⟩
    · exact (logicFlags_other _ _ _ (by decide) (by decide)).trans hdf
    · have hax : ((u.setLow 2 .eax ((u.gpr .eax).toNat % 256 + 256 * (0x0e : UInt8).toNat)).gpr
          .eax).toNat / 256 % 256 = 0x0e := Cpu.toNat_setLow_high 0x0e
      rw [← Cpu.gpr_setLow_of_ne (by decide : Reg.eax ≠ .ebx) 2 0] at hax
      exact hax
    · exact Cpu.toNat_setLow_mod (n := 2) (by decide) 0
    · show m l.msgInt = 0x10
      rw [himage _ (by omega) (by omega), hint']
  obtain ⟨v, hrun, hv, hvmem, hvseg, hvcr0, hvesp, hvesi⟩ := hstart
  have hload' : loadAt v.mem x (text.length + 1) = text ++ [0] := by
    rw [hvmem, ← hload]
    exact loadAt_congr fun y hlo hlt => himage y (by omega) (by omega)
  obtain ⟨w, calls, hloop, hcalls, hw, hkeeps⟩ := msgPrintLoop_prints hbios
    (Or.inl ⟨by omega, by omega⟩) htext hfuel hv (by rw [hvesi, hsi]) (by omega) hload'
    (fun i hi => Or.inl ⟨by omega, by omega⟩)
  have hwesp : (w.gpr .esp).toNat = e - 16 := by
    rw [hkeeps.esp, hvesp, UInt32.toNat_ofNat']
    omega
  -- the return address is in what the BIOS keeps
  have hwret : loadAt w.mem e 2 = toLe 2 ret := by
    rw [← hret]
    apply loadAt_congr
    intro y hlo hlt
    rw [hkeeps.mem (Or.inr ⟨by omega, by omega⟩), hvmem]
    exact storeAt_of_outside (by omega)
  have hend : Wp b (code false [.popa 2, .ret]) w fun t => t.eip = UInt32.ofNat ret ∧
      t.seg = w.seg ∧ t.cr0 = w.cr0 ∧ (t.gpr .esp).toNat = e + 2 ∧ t.mem = w.mem := by
    have hsize : w.codeBytes = 2 := by rw [Cpu.codeBytes, hw.code]; rfl
    refine (hw.flat.wp_popa_ret hw.code hsize hwesp (by omega)).mono ?_
    rintro t rfl
    have hplace : e - 16 + 8 * 2 = e := by omega
    refine ⟨?_, rfl, rfl, ?_, rfl⟩
    · show UInt32.ofNat (leNat (loadAt w.mem ((e - 16 + 8 * 2 : Nat) : Int) 2)) = _
      rw [hplace, hwret, leNat_toLe_of_lt hretlt]
    · show (UInt32.ofNat (e - 16 + 9 * 2)).toNat = e + 2
      rw [UInt32.toNat_ofNat']
      omega
  obtain ⟨t, hrun', heip, hseg, hcr0, htesp, htmem⟩ := hend
  refine ⟨t, calls, ?_, hcalls, heip, ?_, ?_, ?_, htesp, fun y hlo hlt => ?_⟩
  · rw [msgPrint, hrun]
    show (msgPrintLoop b l fuel v).bind _ = _
    rw [hloop]
    show (run b (code false [.popa 2, .ret]) w).bind _ = _
    rw [hrun']
    rfl
  · rw [Cpu.Pe, hcr0]
    exact hw.real
  · rw [Cpu.Flat, hseg]
    exact hw.flat
  · rw [hseg, hw.code]
  · rw [htmem, hkeeps.mem (Or.inl ⟨hlo, hlt⟩), hvmem, himage y hlo hlt]

end Message

/-! ## Protected mode -/

/-- Port 0x92 reads back what was written to it last. -/
structure ReadsBack (b : Board) (port : UInt8) : Prop where
  same : ∀ s t : Cpu, t.outs = s.outs → b.inp t port = b.inp s port
  last : ∀ (s : Cpu) (l : List (UInt8 × UInt8)) (v : UInt8), s.outs = l ++ [(port, v)] →
    b.inp s port = v

theorem or_one_and_one (x : UInt32) : (x ||| 1) &&& 1 = 1 := by
  apply UInt32.toNat_inj.mp
  rw [UInt32.toNat_and, UInt32.toNat_or]
  show (x.toNat ||| 1) &&& 1 = 1
  rw [Nat.and_one_is_mod]
  simp

section Protected

variable {b : Board} {l : Labels} {s : Cpu}

/-- The switch, on a table that is in place. -/
theorem wp_switchOn (hflat : s.Flat) (hcode : (s.seg .cs).big = false) {x : Nat} {gdtr : Table}
    (hx : x + 6 ≤ 2 ^ 16) (hgdtr : loadAt s.mem x 6 = gdtr.bytes) (hbase : gdtr.base < 2 ^ 16)
    (htable : GdtLoaded { s with gdtr := gdtr }) :
    Wp b (code false (switchOn x)) s (· = { s.set .eax (s.cr0 ||| 1) with
      gdtr := gdtr
      cr0 := s.cr0 ||| 1
      eflags := logicFlags 4 (s.cr0 ||| 1).toNat s.eflags
      seg := fun r => if r = .cs then flat32 .cs else s.seg r
      mem := storeAt s.mem ((gdtr.base + 13 : Nat) : Int) [0x9b] }) := by
  have hlgdt : step b s (.lgdt ⟨none, x⟩) = some { s with gdtr := gdtr } := by
    have hlimit : gdtr.limit = 48 - 1 := htable.limit
    refine hflat.step_lgdt hx hgdtr (by omega) ?_
    rw [hcode]
    show gdtr.base < 256 ^ 3
    omega
  -- protected mode, but for the code segment
  let u : Cpu := { s.set .eax (s.cr0 ||| 1) with
    gdtr := gdtr, cr0 := s.cr0 ||| 1, eflags := logicFlags 4 (s.cr0 ||| 1).toNat s.eflags }
  have hu : GdtLoaded u := htable.of_frame rfl fun _ _ _ => rfl
  have hpe : u.Pe := or_one_and_one s.cr0
  have hor := Cpu.step_logic_four b (({ s with gdtr := gdtr } : Cpu).set .eax s.cr0) .or .eax 1
  have hset : ({ (({ s with gdtr := gdtr } : Cpu).set .eax s.cr0).set .eax (s.cr0 ||| 1) with
      cr0 := s.cr0 ||| 1, eflags := logicFlags 4 (s.cr0 ||| 1).toNat s.eflags } : Cpu) = u := by
    rw [Cpu.set_set]
    rfl
  exact Wp.cons hcode hlgdt (Wp.cons hcode rfl (Wp.cons hcode hor (Wp.cons (t := u) hcode
    (congrArg some hset) (Wp.cons hcode (hu.code32 hpe) (Wp.nil rfl)))))

/-- The data segments beside a code segment of 32 bits. -/
theorem seg_flat32 (hcs : s.seg .cs = flat32 .cs) :
    (fun r => if r = .cs then s.seg .cs else flat32 r) = flat32 := by
  funext r
  split_ifs with hr
  · rw [hr]
    exact hcs
  · rfl

/-- The data segments, from a selector. -/
theorem wp_dataSegs {big : Bool} {f : SReg → Seg} {selector : Nat} {m : Int → UInt8}
    (hcode : (s.seg .cs).big = big)
    (hsel : ∀ t : Cpu, Cpu.Scratch 0x80 s t → ∀ r ≠ .cs, ∀ (g : SReg → Seg) (m' : Int → UInt8),
      g r = s.seg r → m' = s.mem ∨ m' = m →
      Cpu.loadSeg { t with seg := g, mem := m' } IsData r (UInt16.ofNat selector)
        = some { t with seg := fun q => if q = r then f r else g q, mem := m }) {load : Instr}
    (hload : load = .movImm 2 .eax selector ∨ load = .clear 2 .eax ∧ selector = 0)
    {Q : Cpu → Prop} (hQ : ∀ t : Cpu, Cpu.Scratch 0x80 s t →
      Q { t with seg := fun r => if r = .cs then s.seg .cs else f r, mem := m }) :
    Wp b (code big ([load] ++ movSegs)) s Q := by
  have hstep : ∃ t, step b s load = some t ∧ Cpu.Scratch 0x80 s t ∧
      (t.gpr .eax).toUInt16 = UInt16.ofNat selector := by
    rcases hload with rfl | ⟨rfl, rfl⟩
    · exact ⟨_, rfl, Cpu.Scratch.set 0x80 s _, Cpu.toUInt16_setLow selector⟩
    · exact ⟨_, rfl, Cpu.Scratch.logic 0x80 s 2 0 _, Cpu.toUInt16_setLow 0⟩
  obtain ⟨t, hstep, ht, hax⟩ := hstep
  have htcode : (t.seg .cs).big = big := by rw [ht.seg, hcode]
  refine Wp.code_append (Wp.cons hcode hstep (Wp.nil ?_))
  refine Cpu.wp_movSegs (f := f) (m := m) (by decide) (by decide) htcode
    (fun r hr g m' hg hm => ?_) ?_
  · have hne : r ≠ .cs := fun h => by
      rw [h] at hr
      exact absurd hr (by decide)
    rw [ht.seg] at hg
    rw [ht.mem] at hm
    rw [hax]
    exact hsel t ht r hne g m' hg hm
  · have hseg : (fun r => if r ∈ [SReg.ds, .ss, .es, .fs, .gs] then f r else t.seg r) =
        fun r => if r = .cs then s.seg .cs else f r := by
      funext r
      cases r with
      | cs => exact congrFun ht.seg .cs
      | _ => exact if_pos (by decide)
    rw [hseg, if_neg (List.cons_ne_nil _ _)]
    exact hQ t ht

/-- Interrupts off, and the switch. -/
theorem wp_toProtected (hflat : s.Flat) (hcode : (s.seg .cs).big = false)
    (hgdtr : loadAt s.mem l.gdtr 6 = (gdtr l).bytes) (hplace : l.gdtr + 6 ≤ 2 ^ 16)
    (hgdt : l.gdt + 48 ≤ 2 ^ 16) (htable : loadAt s.mem l.gdt 40 = gdtSegments) :
    Wp b (code false (toProtected l)) s fun t => t.Pe ∧ ¬ t.If ∧ GdtLoaded t ∧ t.gdtr = gdtr l ∧
      t.seg .cs = flat32 .cs ∧ t.gpr .esp = s.gpr .esp ∧
      t.mem = storeAt s.mem ((l.gdt + 13 : Nat) : Int) [0x9b] := by
  refine Wp.code_append (Wp.code_append ?_)
  refine Wp.cons hcode rfl (Wp.nil ?_)
  refine Cpu.wp_scratch 0x80 (by decide) hcode fun t ht => ?_
  have htcode : (t.seg .cs).big = false := by
    rw [ht.seg]
    exact hcode
  have htflat : t.Flat := by
    rw [Cpu.Flat, ht.seg]
    exact hflat
  have hloaded : GdtLoaded { t with gdtr := gdtr l } := .of_assembled rfl (by
    show loadAt t.mem l.gdt 40 = gdtSegments
    rw [ht.mem]
    exact htable)
  refine (wp_switchOn htflat htcode hplace (by rw [ht.mem]; exact hgdtr)
    (by show l.gdt < 2 ^ 16; omega) hloaded).mono ?_
  rintro u rfl
  have hcs : (if SReg.cs = .cs then flat32 .cs else t.seg .cs) = flat32 .cs := if_pos rfl
  refine ⟨or_one_and_one t.cr0, not_not.mpr ?_, hloaded.mark (i := 1) rfl rfl, rfl, hcs,
    ht.gpr .esp (by decide), ?_⟩
  · show logicFlags _ _ _ &&& 0x200 = 0
    rw [logicFlags_other _ _ _ (by decide) (by decide), if_of_flags ht.flags]
    exact and_if s.eflags
  · show storeAt t.mem _ _ = _
    rw [ht.mem]
    rfl

/-- The data segments, the task and the interrupt table. -/
theorem wp_inProtected (hpe : s.Pe) (hcs : s.seg .cs = flat32 .cs) (hs : GdtLoaded s)
    (hgdtr : s.gdtr = gdtr l)
    (htask : loadAt s.mem ((l.gdt + 40 : Nat) : Int) 8 = gdtTask l.tss) (htss : l.tss < 2 ^ 16)
    (hidtr : loadAt s.mem l.idtr 6 = (idtr l).bytes) (hidtr' : l.idtr + 6 ≤ 2 ^ 16)
    (hidt : l.idt < 2 ^ 32) (hapart : l.idtr + 6 ≤ l.gdt ∨ l.gdt + 48 ≤ l.idtr) :
    Wp b (code true (inProtected l)) s fun t => t.Pe ∧ (t.If ↔ s.If) ∧ GdtLoaded t ∧
      t.gdtr = s.gdtr ∧ t.idtr = idtr l ∧ t.tr = taskSeg l.tss ∧ t.seg = flat32 ∧
      t.gpr .esp = s.gpr .esp ∧
      t.mem = storeAt (storeAt s.mem ((l.gdt + 45 : Nat) : Int) [0x8b])
        ((l.gdt + 21 : Nat) : Int) [0x93] := by
  have hcode : (s.seg .cs).big = true := by
    rw [hcs]
    rfl
  have hbase : s.gdtr.base = l.gdt := by rw [hgdtr]; rfl
  -- `ltr` marks the task busy
  let m := storeAt s.mem ((l.gdt + 45 : Nat) : Int) [0x8b]
  let u : Cpu := { s.setLow 2 .eax 0x28 with tr := taskSeg l.tss, mem := m }
  have hltr : step b (s.setLow 2 .eax 0x28) (.ltr .eax) = some u := by
    have hload := GdtLoaded.task (s := s.setLow 2 .eax 0x28) (d := gdtTask l.tss)
      (hs.of_frame rfl fun _ _ _ => rfl) hpe (by
        show loadAt s.mem ((s.gdtr.base + 40 : Nat) : Int) 8 = _
        rw [hbase]
        exact htask)
    have hbusy : (gdtTask l.tss).getD 5 0 = 0x89 := rfl
    have hplace : (s.setLow 2 .eax 0x28).gdtr.base + 45 = l.gdt + 45 := congrArg (· + 45) hbase
    rw [step, Cpu.toUInt16_setLow]
    refine hload.trans ?_
    rw [hbusy, if_pos (by decide), segOf_gdtTask htss, hplace]
    rfl
  -- the mark lies behind the segments
  have hu : GdtLoaded u := hs.of_frame rfl fun x _ hx =>
    storeAt_of_outside (Or.inl (by rw [hbase] at hx; omega))
  let m' := storeAt m ((l.gdt + 21 : Nat) : Int) [0x93]
  have hm' : m' = storeAt u.mem ((u.gdtr.base + (8 * 2 + 5) : Nat) : Int)
      [(segDesc 2).getD 5 0 ||| 0x01] := by
    show m' = storeAt m ((s.gdtr.base + 21 : Nat) : Int) [0x93]
    rw [hbase]
  rw [inProtected, List.append_assoc]
  refine Wp.code_append (Wp.cons hcode rfl (Wp.cons hcode hltr (Wp.nil ?_)))
  refine Wp.code_append (wp_dataSegs (s := u) (f := flat32) (m := m') hcode
    (fun t ht r hr g m'' _ hm => ?_) (Or.inl rfl) fun t ht => ?_)
  · exact hu.dataSegs hpe (fun u hu hpe r hr => hu.data32 hpe hr) ht hr g hm' hm
  · rw [seg_flat32 (s := u) hcs]
    have hlidt : step b { t with seg := flat32, mem := m' } (.lidt ⟨none, l.idtr⟩) =
        some { t with seg := flat32, mem := m', idtr := idtr l } := by
      refine Cpu.Flat.step_lidt (s := { t with seg := flat32, mem := m' }) flat32_flat hidtr' ?_
        (by decide : 8 - 1 < 2 ^ 16) hidt
      show loadAt m' l.idtr 6 = _
      rw [← hidtr]
      -- and outside `idtr`
      exact (loadAt_storeAt_disjoint (by rw [List.length_singleton]; omega)).trans
        (loadAt_storeAt_disjoint (by rw [List.length_singleton]; omega))
    refine Wp.cons rfl hlidt (Wp.nil ⟨?_, not_congr (Eq.congr_left ?_), hu.mark (i := 2) ht.gdtr hm',
      ht.gdtr, rfl, ht.tr, rfl, ht.gpr .esp (by decide), rfl⟩)
    · show t.cr0 &&& 1 = 1
      rw [ht.cr0]
      exact hpe
    · exact if_of_flags ht.flags

/-- The A20 line is on behind it. -/
theorem enableA20_on (hport : ReadsBack b 0x92) (hcode : (s.seg .cs).big = true) :
    ∃ t, enableA20 b s = some t ∧ b.inp t 0x92 &&& 0x02 ≠ 0 ∧ (t.If ↔ s.If) ∧
      t.cr0 = s.cr0 ∧ t.seg = s.seg ∧ t.gdtr = s.gdtr ∧ t.idtr = s.idtr ∧ t.tr = s.tr ∧
      t.gpr .esp = s.gpr .esp ∧ t.mem = s.mem := by
  let v := b.inp s 0x92
  let u := s.setLow 1 .eax v.toNat
  let t : Cpu := { u with
    eflags := logicFlags 1 ((u.gpr .eax &&& 0x02).toNat % 256 ^ 1) s.eflags }
  have hal : (u.gpr .eax).toUInt8 = v := by
    rw [Cpu.toUInt8_setLow, UInt8.ofNat_toNat]
  -- neither `test` nor `or` changes the interrupt flag
  have hif (n res : Nat) (e : UInt32) : logicFlags n res e &&& 0x200 = e &&& 0x200 :=
    logicFlags_other n res e (by decide) (by decide)
  have htest : (u.gpr .eax &&& 0x02).toNat % 256 ^ 1 = (v &&& 0x02).toNat := by
    have hand : (u.gpr .eax &&& 0x02).toUInt8 = v &&& 0x02 := by
      rw [UInt32.toUInt8_and, hal]
      rfl
    rw [← hand, UInt32.toNat_toUInt8]
    rfl
  have hzf : t.Zf ↔ v &&& 0x02 = 0 := by
    show logicFlags _ _ _ &&& 0x40 ≠ 0 ↔ _
    rw [logicFlags_zf, htest, ← UInt8.toNat_inj]
    have hzero : (0 : UInt8).toNat = 0 := rfl
    split_ifs with h
    · exact iff_of_true (by decide) h
    · exact iff_of_false (not_not.mpr rfl) h
  have hread : run b (code true [.inb 0x92, .test 1 .eax 0x02]) s = some t := by
    have hwp : Wp b (code true [.inb 0x92, .test 1 .eax 0x02]) s (· = t) :=
      Wp.cons hcode rfl (Wp.cons hcode rfl (Wp.nil rfl))
    obtain ⟨t', hrun, rfl⟩ := hwp
    exact hrun
  have heq : enableA20 b s = if ¬ t.Zf then some t
      else run b (code true [.logic .or 1 .eax 0x02, .outb 0x92]) t := by
    rw [enableA20, hread]
    rfl
  rw [heq]
  by_cases hon : v &&& 0x02 = 0
  · -- the line is off, and the port is written
    rw [if_neg (not_not.mpr (hzf.mpr hon))]
    have hwp : Wp b (code true [.logic .or 1 .eax 0x02, .outb 0x92]) t fun w =>
        b.inp w 0x92 &&& 0x02 ≠ 0 ∧ (w.If ↔ s.If) ∧ w.cr0 = s.cr0 ∧ w.seg = s.seg ∧
        w.gdtr = s.gdtr ∧ w.idtr = s.idtr ∧ w.tr = s.tr ∧ w.gpr .esp = s.gpr .esp ∧
        w.mem = s.mem := by
      refine Wp.cons hcode rfl (Wp.cons hcode rfl (Wp.nil
        ⟨?_, not_congr (Eq.congr_left ?_), rfl, rfl, rfl, rfl, rfl, rfl, rfl⟩))
      · -- what was written last is read back
        rw [hport.last _ s.outs (v ||| 0x02) ?_]
        · have hor : (v ||| 0x02) &&& 0x02 = v &&& 0x02 ||| 0x02 &&& 0x02 :=
            UInt8.toBitVec_inj.1 BitVec.and_or_distrib_right
          rw [hor, hon]
          decide
        · have hout : UInt8.ofNat ((Logic.or.op (t.gpr .eax) 0x02).toNat % 256 ^ 1) = v ||| 0x02 := by
            have hor : (u.gpr .eax ||| 0x02).toUInt8 = v ||| 0x02 := by
              rw [UInt32.toUInt8_or, hal]
              rfl
            rw [← hor]
            apply UInt8.toNat_inj.mp
            rw [UInt8.toNat_ofNat', UInt32.toNat_toUInt8]
            exact Nat.mod_mod _ _
          rw [← hout, ← Cpu.toUInt8_setLow (s := t) (r := .eax)]
          rfl
      · exact (hif _ _ _).trans (hif _ _ _)
    exact hwp
  · -- it is on already
    rw [if_pos (fun h => hon (hzf.mp h))]
    refine ⟨t, rfl, ?_, not_congr (Eq.congr_left (hif _ _ _)), rfl, rfl, rfl, rfl, rfl, rfl, rfl⟩
    rw [hport.same s t rfl]
    exact hon

end Protected

/-! ## The entry point -/

/-- The tables of stage 2, which lies between `lo` and `hi`. -/
structure Image (l : Labels) (lo hi : Nat) (s : Cpu) : Prop where
  low : hi ≤ 2 ^ 16
  gdt : loadAt s.mem l.gdt 48 = gdt l.tss
  gdtIn : lo ≤ l.gdt ∧ l.gdt + 48 ≤ hi
  gdtr : loadAt s.mem l.gdtr 6 = (gdtr l).bytes
  gdtrIn : lo ≤ l.gdtr ∧ l.gdtr + 6 ≤ hi
  idtr : loadAt s.mem l.idtr 6 = (idtr l).bytes
  idtrIn : lo ≤ l.idtr ∧ l.idtr + 6 ≤ hi
  idtrApart : l.idtr + 6 ≤ l.gdt ∨ l.gdt + 48 ≤ l.idtr
  tss : l.tss < 2 ^ 16
  idt : l.idt < 2 ^ 16

/-- Stage 2 as stage 1 has loaded it and entered it in real mode, with `a` the
    stack pointer. -/
structure Loaded (l : Labels) (lo hi a : Nat) (s : Cpu) : Prop extends Image l lo hi s where
  real : ¬ s.Pe
  flat : s.Flat
  code : (s.seg .cs).big = false
  forward : s.eflags &&& 0x400 = 0
  /-- the upper half of the stack pointer, which nothing sets, is zero -/
  esp : (s.gpr .esp).toNat = a
  room : 18 ≤ a
  top : a < 2 ^ 16
  apart : a ≤ lo ∨ hi + 18 ≤ a
  message : loadAt s.mem l.bootMessage 12 = bootMessage ++ [0]
  messageIn : lo ≤ l.bootMessage ∧ l.bootMessage + 12 ≤ hi
  int : s.mem l.msgInt = 0x10
  intIn : lo ≤ l.msgInt ∧ l.msgInt < hi
  printed : l.printed < 2 ^ 16

/-- What `cstart` finds. -/
structure Entered (b : Board) (l : Labels) (lo hi a : Nat) (s t : Cpu) : Prop where
  eip : t.eip = UInt32.ofNat l.cstart
  pe : t.Pe
  quiet : ¬ t.If
  seg : t.seg = flat32
  gdtr : t.gdtr = gdtr l
  idtr : t.idtr = idtr l
  task : t.tr = taskSeg l.tss
  a20 : b.inp t 0x92 &&& 0x02 ≠ 0
  esp : (t.gpr .esp).toNat = a - 4
  ret : loadAt t.mem ((a - 4 : Nat) : Int) 4 = toLe 4 l.halt
  /-- the task is marked busy, the two segments of 32 bits are marked as
      accessed, and that is all that is written to the image -/
  mem : ∀ x : Int, lo ≤ x → x < hi → t.mem x =
    if x = l.gdt + 45 then 0x8b else if x = l.gdt + 13 then 0x9b
    else if x = l.gdt + 21 then 0x93 else s.mem x
  gdt : GdtLoaded t

section Start

variable {b : Board} {l : Labels} {lo hi a : Nat} {s t : Cpu}

theorem Image.load (h : Image l lo hi s) (hmem : ∀ x : Int, lo ≤ x → x < hi → t.mem x = s.mem x) :
    Image l lo hi t := by
  have hload {x n : Nat} (hin : lo ≤ x ∧ x + n ≤ hi) : loadAt t.mem x n = loadAt s.mem x n :=
    loadAt_congr fun y hlo hlt => hmem y (by omega) (by omega)
  exact { h with
    gdt := (hload h.gdtIn).trans h.gdt
    gdtr := (hload h.gdtrIn).trans h.gdtr
    idtr := (hload h.idtrIn).trans h.idtr }

theorem Image.segments (h : Image l lo hi s) : loadAt s.mem l.gdt 40 = gdtSegments := by
  rw [← take_loadAt s.mem l.gdt (by decide : 40 ≤ 48), h.gdt]
  rfl

/-- The task cannot be loaded a second time. -/
theorem Entered.busy (h : Entered b l lo hi a s t) (himage : Image l lo hi s) :
    t.loadTask 0x28 = none := by
  have hgdtIn := himage.gdtIn
  have hbase : t.gdtr.base = l.gdt := by
    rw [h.gdtr]
    rfl
  have hbusy : (loadAt t.mem ((t.gdtr.base + 40 : Nat) : Int) 8).getD 5 0 = 0x8b := by
    show t.mem (((t.gdtr.base + 40 : Nat) : Int) + 1 + 1 + 1 + 1 + 1) = 0x8b
    rw [h.mem _ (by omega) (by omega), if_pos (by omega)]
  refine (h.gdt.task h.pe rfl).trans (if_neg ?_)
  rw [hbusy]
  decide

/-- The call of `msg_print`. -/
theorem start_prints {fuel : Nat} (h : Loaded l lo hi a s)
    (hbios : TtyReturns b (keptFrom lo hi (a - 18) a)) (hfuel : bootMessage.length < fuel) :
    ∃ u t calls, run b (code false [.movImm 2 .esi l.bootMessage, .call l.msgPrint l.printed]) s
        = some u ∧ msgPrint b l fuel u = some (t, calls) ∧
      calls.map teletype = bootMessage.map (fun ch => (0x10, 0x0e00 + ch.toNat, 0)) ∧
      t.eip = UInt32.ofNat l.printed ∧ t.Flat ∧ (t.seg .cs).big = false ∧
      (t.gpr .esp).toNat = a ∧ ∀ x : Int, lo ≤ x → x < hi → t.mem x = s.mem x := by
  have hroom := h.room
  have htop := h.top
  have hapart := h.apart
  have hintIn := h.intIn
  have hmessageIn := h.messageIn
  have hlow := h.low
  have hlen : bootMessage.length = 11 := rfl
  let s' := s.setLow 2 .esi l.bootMessage
  let m := storeAt s.mem ((a - 2 : Nat) : Int) (toLe 2 l.printed)
  let u : Cpu := { s'.set .esp (UInt32.ofNat (a - 2)) with eip := UInt32.ofNat l.msgPrint, mem := m }
  have hsize : s'.codeBytes = 2 := by
    show (if (s.seg .cs).big then 4 else 2) = 2
    rw [h.code]
    rfl
  have hcall : Wp b (code false [.movImm 2 .esi l.bootMessage, .call l.msgPrint l.printed]) s (· = u) :=
    Wp.cons h.code rfl (Wp.cons h.code
      (Cpu.Flat.step_call (s := s') h.flat h.esp htop hsize (by omega) _ _) (Wp.nil rfl))
  obtain ⟨u', hrun, rfl⟩ := hcall
  have hm (x : Int) (hlo : (lo : Int) ≤ x) (hlt : x < hi) : m x = s.mem x :=
    storeAt_of_outside (by rw [length_toLe]; omega)
  have hesp : (u.gpr .esp).toNat = a - 2 := by
    show (UInt32.ofNat (a - 2)).toNat = a - 2
    rw [UInt32.toNat_ofNat']
    omega
  have hkept : keptFrom lo hi (a - 2 - 16) (a - 2 + 2) = keptFrom lo hi (a - 18) a := by
    have hfrom : a - 2 - 16 = a - 18 := by omega
    have hto : a - 2 + 2 = a := by omega
    rw [hfrom, hto]
  have hsi : (u.gpr .esi).toNat % 2 ^ 16 = l.bootMessage := by
    have hmod := Cpu.toNat_setLow_mod (s := s) (r := .esi) (n := 2) (by decide) l.bootMessage
    have hne : Reg.esi ≠ .esp := by decide
    have hsame : u.gpr .esi = s'.gpr .esi := Cpu.gpr_set_of_ne hne (UInt32.ofNat (a - 2))
    rw [hsame]
    exact hmod.trans (Nat.mod_eq_of_lt (by omega))
  have hret : loadAt u.mem ((a - 2 : Nat) : Int) 2 = toLe 2 l.printed := by
    have hload := loadAt_storeAt s.mem ((a - 2 : Nat) : Int) (toLe 2 l.printed)
    rwa [length_toLe] at hload
  have hmessage : loadAt u.mem l.bootMessage (bootMessage.length + 1) = bootMessage ++ [0] := by
    rw [← h.message]
    exact loadAt_congr fun x hlo hlt => hm x (by omega) (by omega)
  have hint : u.mem l.msgInt = 0x10 := (hm _ (by omega) (by omega)).trans h.int
  obtain ⟨t, calls, hprint, hcalls, heip, -, hflat, hcode, htesp, hmem⟩ :=
    msgPrint_prints (l := l) (s := u) (hkept ▸ hbios) h.real h.flat h.code h.forward hesp
      (by omega) (by omega) (by omega) hlow hret h.printed hintIn hint hsi (by omega) (by omega)
      (by decide) hmessage hfuel
  exact ⟨u, t, calls, hrun, hprint, hcalls, heip, hflat, hcode, htesp.trans (by omega),
    fun x hlo hlt => (hmem x hlo hlt).trans (hm x hlo hlt)⟩

/-- From behind it to the call of `cstart`. -/
theorem start_switches (himage : Image l lo hi s) (hflat : s.Flat) (hcode : (s.seg .cs).big = false)
    (hesp : (s.gpr .esp).toNat = a) (hroom : 4 ≤ a) (htop : a < 2 ^ 16)
    (hapart : a ≤ lo ∨ hi + 18 ≤ a) (hport : ReadsBack b 0x92) :
    ∃ u v w t, run b (code false (toProtected l)) s = some u ∧
      run b (code true (inProtected l)) u = some v ∧ enableA20 b v = some w ∧
      run b (code true [.call l.cstart l.halt]) w = some t ∧ Entered b l lo hi a s t := by
  have hlow := himage.low
  have hgdtIn := himage.gdtIn
  have hgdtrIn := himage.gdtrIn
  have hidtrIn := himage.idtrIn
  have hidt := himage.idt
  obtain ⟨u, hu, hpe, hquiet, huloaded, hugdtr, hucs, huesp, humem⟩ :=
    wp_toProtected (b := b) (l := l) hflat hcode himage.gdtr (by omega) (by omega) himage.segments
  have htask : loadAt u.mem ((l.gdt + 40 : Nat) : Int) 8 = gdtTask l.tss := by
    have hinside := loadAt_inside himage.gdt (by decide : 40 + 8 ≤ 48)
    rw [humem, loadAt_storeAt_disjoint (by rw [List.length_singleton]; omega)]
    exact hinside
  have huidtr : loadAt u.mem l.idtr 6 = (idtr l).bytes := by
    have hidtrApart := himage.idtrApart
    rw [humem, loadAt_storeAt_disjoint (by rw [List.length_singleton]; omega), himage.idtr]
  obtain ⟨v, hv, hvpe, hvif, hvloaded, hvgdtr, hvidtr, hvtr, hvseg, hvesp, hvmem⟩ :=
    wp_inProtected (b := b) hpe hucs huloaded hugdtr htask himage.tss huidtr (by omega) (by omega)
      himage.idtrApart
  obtain ⟨w, hw, hline, hwif, hwcr0, hwseg, hwgdtr, hwidtr, hwtr, hwesp, hwmem⟩ :=
    enableA20_on (s := v) hport (by rw [hvseg]; rfl)
  have hseg : w.seg = flat32 := hwseg.trans hvseg
  have hcode32 : (w.seg .cs).big = true := by
    rw [hseg]
    rfl
  have hwa : (w.gpr .esp).toNat = a := by rw [hwesp, hvesp, huesp, hesp]
  have hsize : w.codeBytes = 4 := by
    rw [Cpu.codeBytes, hcode32]
    rfl
  have hflat32 : w.Flat := by
    rw [Cpu.Flat, hseg]
    exact flat32_flat
  -- the call pushes four bytes now
  let m := storeAt w.mem ((a - 4 : Nat) : Int) (toLe 4 l.halt)
  let t : Cpu := { w.set .esp (UInt32.ofNat (a - 4)) with eip := UInt32.ofNat l.cstart, mem := m }
  have hcall : Wp b (code true [.call l.cstart l.halt]) w (· = t) := Wp.cons hcode32
    (hflat32.step_call hwa htop hsize hroom l.cstart l.halt) (Wp.nil rfl)
  obtain ⟨t', hrun, rfl⟩ := hcall
  -- the stack is apart from the image, so only the marks in the table are left
  have hstack (x : Int) (hlo : (lo : Int) ≤ x) (hlt : x < hi) : m x = w.mem x :=
    storeAt_of_outside (by rw [length_toLe]; omega)
  have hmem (x : Int) (hlo : (lo : Int) ≤ x) (hlt : x < hi) : m x =
      if x = l.gdt + 45 then 0x8b else if x = l.gdt + 13 then 0x9b
      else if x = l.gdt + 21 then 0x93 else s.mem x := by
    rw [hstack x hlo hlt, hwmem, hvmem, humem]
    simp only [storeAt_singleton]
    split_ifs <;> first | rfl | omega
  refine ⟨u, v, w, t, hu, hv, hw, hrun, rfl, ?_, fun h => hquiet (hvif.mp (hwif.mp h)), hseg,
    hwgdtr.trans (hvgdtr.trans hugdtr), hwidtr.trans hvidtr, hwtr.trans hvtr, ?_, ?_, ?_, hmem,
    hvloaded.of_frame hwgdtr fun x hlo hlt => ?_⟩
  · rw [Cpu.Pe, ← hwcr0] at hvpe
    exact hvpe
  · rw [hport.same w t rfl]
    exact hline
  · show (UInt32.ofNat (a - 4)).toNat = a - 4
    rw [UInt32.toNat_ofNat']
    omega
  · have hself := loadAt_storeAt w.mem ((a - 4 : Nat) : Int) (toLe 4 l.halt)
    rwa [length_toLe] at hself
  · have hbase : v.gdtr.base = l.gdt := by rw [hvgdtr, hugdtr]; rfl
    rw [hbase] at hlo hlt
    exact (hstack x (by omega) (by omega)).trans (congrFun hwmem x)

/-- **`start`**: whatever the BIOS does with the registers it need not keep, the
    message is printed, a character a call, and `cstart` is entered in
    protected mode, with flat segments, a task, the A20 line on and interrupts
    off.  The task is busy then: another `ltr` would be refused. -/
theorem start_enters {fuel : Nat} (h : Loaded l lo hi a s)
    (hbios : TtyReturns b (keptFrom lo hi (a - 18) a)) (hport : ReadsBack b 0x92)
    (hfuel : bootMessage.length < fuel) :
    ∃ t calls, start b l fuel s = some (t, calls) ∧
      calls.map teletype = bootMessage.map (fun ch => (0x10, 0x0e00 + ch.toNat, 0)) ∧
      Entered b l lo hi a s t ∧ t.loadTask 0x28 = none := by
  have hroom := h.room
  obtain ⟨r, u, calls, hcall, hprint, hcalls, heip, hflat, hcode, hesp, hmem⟩ :=
    start_prints h hbios hfuel
  obtain ⟨v, w, x, t, hv, hw, hx, ht, hentered⟩ := start_switches (h.toImage.load hmem) hflat hcode
    hesp (by omega) h.top h.apart hport
  have hstart : Entered b l lo hi a s t := { hentered with
    mem := fun y hlo hlt => by rw [hentered.mem y hlo hlt, hmem y hlo hlt] }
  refine ⟨t, calls, ?_, hcalls, hstart, hstart.busy h.toImage⟩
  rw [start, hcall]
  show (msgPrint b l fuel r).bind _ = _
  rw [hprint, Option.bind_some]
  dsimp only
  rw [if_pos heip, hv]
  show (run b (code true (inProtected l)) v).bind _ = _
  rw [hw]
  show (enableA20 b w).bind _ = _
  rw [hx]
  show (run b (code true [.call l.cstart l.halt]) x).bind _ = _
  rw [ht]
  rfl

end Start

/-! ### A machine that boots -/

namespace Plain

def labels : Labels where
  bootMessage := 0x7e00
  gdtr := 0x7e0c
  idtr := 0x7e12
  msgInt := 0x7e18
  gdt := 0x7e19
  idt := 0x7e50
  tss := 0x7f00
  msgPrint := 0x7e80
  printed := 0x7e60
  cstart := 0x8000
  halt := 0x7e70

/-- The data of stage 2. -/
def data : List UInt8 :=
  bootMessage ++ [0] ++ (gdtr labels).bytes ++ (idtr labels).bytes ++ [0x10] ++ gdt labels.tss

/-- A BIOS that does nothing, and ports that are latches. -/
def board : Board where
  inp s port := (((s.outs.filter (·.1 = port)).getLast?).map (·.2)).getD 0
  bios _ s := s

def cpu : Cpu where
  gpr r := if r = .esp then 0x1000 else 0
  seg _ := ⟨0, 0, 0xffff, false⟩
  cr0 := 0
  eflags := 0x202
  gdtr := ⟨0, 0⟩
  idtr := ⟨0x3ff, 0⟩
  tr := ⟨0, 0, 0, false⟩
  eip := 0x7e00
  mem := storeAt (fun _ => 0) 0x7e00 data
  outs := []

theorem load {k n : Nat} (h : k + n ≤ 73) :
    loadAt cpu.mem ((0x7e00 + k : Nat) : Int) n = (data.drop k).take n := by
  have hdata : loadAt cpu.mem 0x7e00 73 = data := loadAt_storeAt (fun _ => 0) 0x7e00 data
  exact loadAt_inside hdata h

theorem loaded : Loaded labels 0x7e00 0x8000 0x1000 cpu where
  low := by decide
  gdt := load (k := 25) (by decide)
  gdtIn := by decide
  gdtr := load (k := 12) (by decide)
  gdtrIn := by decide
  idtr := load (k := 18) (by decide)
  idtrIn := by decide
  idtrApart := by decide
  tss := by decide
  idt := by decide
  real := by decide
  flat _ := ⟨rfl, Nat.le_refl _⟩
  code := rfl
  forward := by decide
  esp := rfl
  room := by decide
  top := by decide
  apart := by decide
  message := load (k := 0) (by decide)
  messageIn := by decide
  int := by decide
  intIn := by decide
  printed := by decide

theorem ttyReturns (kept : Set Int) : TtyReturns board kept where
  keeps _ _ := ⟨rfl, rfl, rfl, fun _ _ => rfl⟩
  gpr _ _ _ _ := rfl
  df _ _ := rfl

theorem readsBack : ReadsBack board 0x92 where
  same s t h := by
    show (((t.outs.filter _).getLast?).map _).getD 0 = _
    rw [h]
    rfl
  last s l v h := by
    show (((s.outs.filter _).getLast?).map _).getD 0 = v
    rw [h, List.filter_append]
    have hone : [((0x92 : UInt8), v)].filter (·.1 = 0x92) = [(0x92, v)] := by simp
    rw [hone, List.getLast?_append]
    rfl

end Plain

theorem start_enters_plain : ∃ t calls, start Plain.board Plain.labels 12 Plain.cpu = some (t, calls) ∧
    calls.map teletype = bootMessage.map (fun ch => (0x10, 0x0e00 + ch.toNat, 0)) ∧
    Entered Plain.board Plain.labels 0x7e00 0x8000 0x1000 Plain.cpu t ∧ t.loadTask 0x28 = none :=
  start_enters Plain.loaded (Plain.ttyReturns _) Plain.readsBack (by decide)

end LBoot.Startup
