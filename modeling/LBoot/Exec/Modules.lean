/-
  LBoot.Exec.Modules

  Loading the modules behind the kernel (src/exec/exec.c,
  `_exec_load_modules`).

  Files are a parameter: opening one by its path gives a handle or fails, and
  a read puts some bytes into the buffer and returns a value.  The buffer of
  a module is the memory at the address chosen for it.

  `place` is the layout in numbers that do not wrap around: module after
  module, each at the address the `ALIGN` macro makes of where the one before
  ends.  Intervals laid out this way are in order whatever the macro does, as
  long as it does not go back; whether they are aligned depends on it, and it
  leaves exactly those addresses alone that need aligning.
-/

import LBoot.Lib.Memory
import LBoot.Lib.Word32

namespace LBoot.Exec

open LBoot.Lib

/-- `file_open`, and `read` and `close` of the handle. -/
structure Files (ι φ : Type*) where
  fileOpen : ι → List UInt8 → Option φ × ι
  size : φ → Nat
  /-- of so many bytes at an offset: the bytes put into the buffer, and the
      value returned -/
  read : ι → φ → Nat → Int → (List UInt8 × Int) × ι
  close : ι → φ → ι

/-- `config_data_module_t`, without the name, which points to the path. -/
structure ModuleData where
  path : List UInt8
  addr : Nat
  size : Nat
  deriving DecidableEq, Repr

/-- The files, and memory. -/
structure ModulesState (ι : Type*) where
  dev : ι
  mem : Int → UInt8

/-- `ALIGN`, before it is reduced to the width of an address. -/
def align (p a : Nat) : Nat := if p % a ≠ 0 then p else p + (a - p % a)

variable {ι φ : Type*}

/-- The loop of `_exec_load_modules`, with `addr` what it was left at: the
    value returned, the modules, and the state. -/
def execLoadModulesLoop (F : Files ι φ) :
    ModulesState ι → Nat → List ModuleData → Int × List ModuleData × ModulesState ι
  | st, _, [] => (0, [], st)
  | st, addr, m :: ms =>
      let addr := u32 (align addr 8)
      match F.fileOpen st.dev m.path with
      | (none, dev) => (-1, m :: ms, { st with dev })
      | (some f, dev) =>
          match F.read dev f (F.size f) 0 with
          | ((bytes, ret), dev) =>
              let st : ModulesState ι := ⟨dev, storeAt st.mem addr bytes⟩
              if ret ≠ s32 (F.size f) then (-1, m :: ms, st)
              else
                let m := { m with addr, size := F.size f }
                match execLoadModulesLoop F ⟨F.close st.dev f, st.mem⟩ (u32 (addr + m.size)) ms with
                | (ret, ms, st) => (ret, m :: ms, st)

/-- `_exec_load_modules`. -/
def execLoadModules (F : Files ι φ) (st : ModulesState ι) (dataEnd : Nat) (ms : List ModuleData) :
    Int × List ModuleData × ModulesState ι :=
  execLoadModulesLoop F st dataEnd ms

/-! ## The layout -/

theorem align_ge (p a : Nat) : p ≤ align p a := by
  rw [align]
  split <;> omega

/-- The intervals of files of these sizes, as address and size. -/
def place : Nat → List Nat → List (Nat × Nat)
  | _, [] => []
  | addr, n :: ns => (align addr 8, n) :: place (align addr 8 + n) ns

/-- Nothing goes back behind where it starts. -/
theorem place_above {addr : Nat} {ns : List Nat} : ∀ a ∈ place addr ns, addr ≤ a.1 := by
  induction ns generalizing addr with
  | nil => exact fun a ha => absurd ha List.not_mem_nil
  | cons n ns ih =>
      intro a ha
      have hge := align_ge addr 8
      rcases List.mem_cons.mp ha with rfl | ha
      · exact hge
      · have hlater := ih a ha
        omega

/-- The intervals are in order and apart. -/
theorem place_pairwise (addr : Nat) (ns : List Nat) :
    (place addr ns).Pairwise fun a b => a.1 + a.2 ≤ b.1 := by
  induction ns generalizing addr with
  | nil => exact List.Pairwise.nil
  | cons n ns ih =>
      rw [place, List.pairwise_cons]
      exact ⟨place_above, ih _⟩

/-- An address that is a multiple of eight is moved to the next one, and any
    other is left where it is. -/
theorem align_mod (addr : Nat) : align addr 8 % 8 = 0 ↔ addr % 8 = 0 := by
  rw [align]
  split <;> omega

/-- All addresses are multiples of eight exactly if the first place is one to
    begin with, and every file but the last ends on one. -/
theorem place_aligned_iff (addr n : Nat) (ns : List Nat) :
    (∀ a ∈ place addr (n :: ns), a.1 % 8 = 0) ↔
      addr % 8 = 0 ∧ ∀ k ∈ (n :: ns).dropLast, k % 8 = 0 := by
  induction ns generalizing addr n with
  | nil => simp [place, align_mod]
  | cons k ns ih =>
      have hmod := align_mod addr
      rw [place, List.forall_mem_cons, ih, List.dropLast_cons_cons, List.forall_mem_cons, hmod]
      constructor
      · rintro ⟨haddr, hnext, hrest⟩
        refine ⟨haddr, ?_, hrest⟩
        have haligned := hmod.mpr haddr
        omega
      · rintro ⟨haddr, hn, hrest⟩
        refine ⟨haddr, ?_, hrest⟩
        have haligned := hmod.mpr haddr
        omega

/-! ## The loop -/

/-- A read of a whole file that succeeds has read the file. -/
def WholeReads (F : Files ι φ) (content : φ → List UInt8) : Prop :=
  ∀ d f bytes d', F.read d f (F.size f) 0 = ((bytes, s32 (F.size f)), d') →
    bytes = content f ∧ bytes.length = F.size f

/-- The handle was opened for the module. -/
def OpenedFor (F : Files ι φ) (m : ModuleData) (f : φ) : Prop :=
  ∃ d, (F.fileOpen d m.path).1 = some f

/-- The intervals are in the address space. -/
def InAddressSpace (as : List (Nat × Nat)) : Prop :=
  ∀ a ∈ as, a.1 < 2 ^ 32 ∧ a.1 + a.2 ≤ 2 ^ 32

/-- An end at the very top has no interval behind it. -/
theorem place_u32 {addr : Nat} {ns : List Nat} (hfits : InAddressSpace (place addr ns)) :
    place (u32 addr) ns = place addr ns := by
  cases ns with
  | nil => rfl
  | cons n ns =>
      have hge := align_ge addr 8
      have hlt := (hfits _ List.mem_cons_self).1
      rw [u32_of_lt (by omega)]

/-- What a module is loaded to is behind what was there. -/
theorem loadAt_eq_of_frame {mem mem' : Int → UInt8} {addr n : Nat} {ns : List Nat}
    (hframe : ∀ x : Int, (∀ a ∈ place (addr + n) ns, x < a.1) → mem' x = mem x) :
    loadAt mem' addr n = loadAt mem addr n := by
  apply loadAt_congr
  intro x _ hx
  apply hframe
  intro a ha
  have habove := place_above a ha
  omega

/-- One module of a loop that returns 0. -/
theorem execLoadModulesLoop_cons {F : Files ι φ} {m : ModuleData} {ms ms' : List ModuleData}
    {st st' : ModulesState ι} {addr : Nat}
    (h : execLoadModulesLoop F st addr (m :: ms) = (0, ms', st')) :
    ∃ f dev dev' bytes rest, F.fileOpen st.dev m.path = (some f, dev) ∧
      F.read dev f (F.size f) 0 = ((bytes, s32 (F.size f)), dev') ∧
      ms' = { m with addr := u32 (align addr 8), size := F.size f } :: rest ∧
      execLoadModulesLoop F ⟨F.close dev' f, storeAt st.mem (u32 (align addr 8)) bytes⟩
        (u32 (u32 (align addr 8) + F.size f)) ms = (0, rest, st') := by
  rw [execLoadModulesLoop] at h
  dsimp only at h
  -- the two ways out of an iteration do not return 0
  cases hopen : F.fileOpen st.dev m.path with
  | mk found dev =>
      rw [hopen] at h
      cases found with
      | none =>
          obtain ⟨hret, -⟩ := Prod.mk.inj h
          exact absurd hret (by decide)
      | some f =>
          cases hread : F.read dev f (F.size f) 0 with
          | mk res dev' =>
              obtain ⟨bytes, ret⟩ := res
              simp only [hread] at h
              split_ifs at h with hfail
              · obtain ⟨hret, -⟩ := Prod.mk.inj h
                exact absurd hret (by decide)
              · rw [not_not.mp hfail] at hread
                generalize hrest : execLoadModulesLoop F _ _ ms = rest at h
                obtain ⟨hfst, hsnd⟩ := Prod.mk.inj h
                obtain ⟨hms, hst⟩ := Prod.mk.inj hsnd
                refine ⟨f, dev, dev', bytes, rest.2.1, rfl, hread, hms.symm, ?_⟩
                rw [hrest, ← hfst, ← hst]

/-- **The loop.**  If it returns 0 it opened a file for every module, recorded
    the layout of the files, and left them there. -/
theorem execLoadModulesLoop_spec {F : Files ι φ} {content : φ → List UInt8}
    (hF : WholeReads F content) {ms ms' : List ModuleData} {st st' : ModulesState ι} {addr : Nat}
    (hret : execLoadModulesLoop F st addr ms = (0, ms', st')) :
    ∃ fs : List φ, List.Forall₂ (OpenedFor F) ms fs ∧
      (InAddressSpace (place addr (fs.map F.size)) →
        ms'.map (fun m => (m.addr, m.size)) = place addr (fs.map F.size) ∧
        List.Forall₂ (fun m f => loadAt st'.mem m.addr m.size = content f) ms' fs ∧
        ∀ x : Int, (∀ a ∈ place addr (fs.map F.size), x < a.1) → st'.mem x = st.mem x) := by
  induction ms generalizing st addr ms' with
  | nil =>
      rw [execLoadModulesLoop] at hret
      cases hret
      exact ⟨[], .nil, fun _ => ⟨rfl, .nil, fun _ _ => rfl⟩⟩
  | cons m ms ih =>
      obtain ⟨f, dev, dev', bytes, rest, hopen, hread, rfl, hloop⟩ := execLoadModulesLoop_cons hret
      obtain ⟨fs, hopened, hplaced⟩ := ih hloop
      obtain ⟨rfl, hlen⟩ := hF _ _ _ _ hread
      refine ⟨f :: fs, .cons ⟨st.dev, by rw [hopen]⟩ hopened, fun hfits => ?_⟩
      rw [List.map_cons, place, InAddressSpace, List.forall_mem_cons] at hfits
      obtain ⟨⟨haddr, -⟩, hrest⟩ := hfits
      rw [u32_of_lt haddr] at hplaced ⊢
      rw [place_u32 hrest] at hplaced
      -- the modules behind this one are stored above it (`hframe`), so they
      -- leave its bytes alone
      obtain ⟨hmap, hloaded, hframe⟩ := hplaced hrest
      refine ⟨?_, .cons ?_ hloaded, fun x hx => ?_⟩
      · rw [List.map_cons, hmap, List.map_cons, place]
      · show loadAt st'.mem (align addr 8 : Nat) (F.size f) = content f
        rw [loadAt_eq_of_frame hframe, ← hlen]
        exact loadAt_storeAt _ _ _
      · rw [List.map_cons, place, List.forall_mem_cons] at hx
        rw [hframe x hx.2]
        exact storeAt_of_outside (Or.inl hx.1)

/-! ## Placement -/

/-- What the placement of the modules is to be: aligned, behind the kernel,
    in order and apart. -/
structure WellPlaced (dataEnd : Nat) (ms : List ModuleData) : Prop where
  aligned : ∀ m ∈ ms, m.addr % 8 = 0
  behind : ∀ m ∈ ms, dataEnd ≤ m.addr
  apart : ms.Pairwise fun m m' => m.addr + m.size ≤ m'.addr

/-- **Placement.**  Modules that are loaded hold their files, and are placed
    as they should be exactly if there are none, or the kernel ends on a
    multiple of eight and so does every file but the last.  The code goes on
    reading the configuration and itself while it loads: the modules are taken
    to be loaded apart from both. -/
theorem execLoadModules_wellPlaced_iff {F : Files ι φ} {content : φ → List UInt8}
    (hF : WholeReads F content) {ms ms' : List ModuleData} {st st' : ModulesState ι} {dataEnd : Nat}
    (hret : execLoadModules F st dataEnd ms = (0, ms', st')) :
    ∃ fs : List φ, List.Forall₂ (OpenedFor F) ms fs ∧
      (InAddressSpace (place dataEnd (fs.map F.size)) →
        ((WellPlaced dataEnd ms' ∧
            List.Forall₂ (fun m f => loadAt st'.mem m.addr m.size = content f) ms' fs) ↔
          fs = [] ∨ (dataEnd % 8 = 0 ∧ ∀ f ∈ fs.dropLast, F.size f % 8 = 0))) := by
  obtain ⟨fs, hopened, hplaced⟩ := execLoadModulesLoop_spec hF hret
  refine ⟨fs, hopened, fun hfits => ?_⟩
  obtain ⟨hmap, hloaded, -⟩ := hplaced hfits
  -- only the alignment can fail: order and contents always hold
  have hiff : (∀ a ∈ place dataEnd (fs.map F.size), a.1 % 8 = 0) ↔
      fs = [] ∨ (dataEnd % 8 = 0 ∧ ∀ f ∈ fs.dropLast, F.size f % 8 = 0) := by
    cases fs with
    | nil => simp [place]
    | cons f fs =>
        rw [List.map_cons, place_aligned_iff, ← List.map_cons, ← List.map_dropLast,
          List.forall_mem_map]
        simp
  rw [← hiff, ← hmap, List.forall_mem_map]
  constructor
  · exact fun h => h.1.aligned
  · intro haligned
    refine ⟨⟨haligned, ?_, ?_⟩, hloaded⟩
    · have habove := @place_above dataEnd (fs.map F.size)
      rwa [← hmap, List.forall_mem_map] at habove
    · have hpair := place_pairwise dataEnd (fs.map F.size)
      rwa [← hmap, List.pairwise_map] at hpair

/-- Files that hold the bytes of their path. -/
def pathFiles : Files Unit (List UInt8) where
  fileOpen d path := (some path, d)
  size := List.length
  read d f n _ := ((f.take n, s32 n), d)
  close d _ := d

/-- One module of three bytes. -/
def oneModule : List ModuleData := [⟨[1, 2, 3], 0, 0⟩]

theorem pathFiles_wholeReads : WholeReads pathFiles id := by
  intro d f bytes d' hread
  have hbytes := congrArg (·.1.1) hread
  have htake : f.take f.length = bytes := hbytes
  rw [List.take_length] at htake
  rw [← htake]
  exact ⟨rfl, rfl⟩

theorem oneModule_loaded (addr : Nat) :
    execLoadModules pathFiles ⟨(), fun _ => 0⟩ addr oneModule =
      (0, [⟨[1, 2, 3], u32 (align addr 8), 3⟩],
        ⟨(), storeAt (fun _ => 0) (u32 (align addr 8)) [1, 2, 3]⟩) := by
  simp [execLoadModules, execLoadModulesLoop, oneModule, pathFiles]

/-- And one of eight bytes in front of it. -/
def twoModules : List ModuleData := ⟨[1, 2, 3, 4, 5, 6, 7, 8], 0, 0⟩ :: oneModule

theorem twoModules_loaded : ∃ ms' st',
    execLoadModules pathFiles ⟨(), fun _ => 0⟩ 0x100000 twoModules = (0, ms', st') := by
  simp [execLoadModules, execLoadModulesLoop, twoModules, oneModule, pathFiles]

/-- Behind a kernel that ends on a multiple of eight. -/
theorem execLoadModules_wellPlaced_iff_two : ∃ ms' st',
    execLoadModules pathFiles ⟨(), fun _ => 0⟩ 0x100000 twoModules = (0, ms', st') ∧
      WellPlaced 0x100000 ms' := by
  obtain ⟨ms', st', hloaded⟩ := twoModules_loaded
  refine ⟨ms', st', hloaded, ?_⟩
  obtain ⟨fs, hopened, hiff⟩ := execLoadModules_wellPlaced_iff pathFiles_wholeReads hloaded
  obtain rfl : fs = [[1, 2, 3, 4, 5, 6, 7, 8], [1, 2, 3]] := by
    cases hopened with
    | cons hf hrest =>
        cases hrest with
        | cons hg hnil =>
            cases hnil
            obtain ⟨_, hf⟩ := hf
            obtain ⟨_, hg⟩ := hg
            obtain rfl := Option.some.inj hf
            obtain rfl := Option.some.inj hg
            rfl
  have hfits : InAddressSpace (place 0x100000
      ([[1, 2, 3, 4, 5, 6, 7, 8], [1, 2, 3]].map pathFiles.size)) := by
    simp [InAddressSpace, place, align, pathFiles]
  exact ((hiff hfits).mpr (Or.inr ⟨by decide, by simp [pathFiles]⟩)).1

/-- Behind one that does not, the module is not aligned. -/
theorem execLoadModules_unaligned :
    ¬ ∀ (dataEnd : Nat) (ms ms' : List ModuleData) (st st' : ModulesState Unit),
      execLoadModules pathFiles st dataEnd ms = (0, ms', st') → WellPlaced dataEnd ms' := by
  intro hall
  have haligned := (hall _ _ _ _ _ (oneModule_loaded 0x100004)).aligned _ List.mem_cons_self
  exact absurd haligned (by decide)

end LBoot.Exec
