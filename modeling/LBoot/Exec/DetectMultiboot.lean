/-
  LBoot.Exec.DetectMultiboot

  The search for a multiboot header (src/exec/exec.c).

  `_exec_detect_multiboot` takes the first word of the 8 KiB from
  `data_begin` on, at every other word, that is one of the two magic numbers.
  Where the image ends is not looked at, and whether the words behind the
  magic number make it a header is found out later, by `multiboot2_parse`,
  with no way back to the search.
-/

import LBoot.Exec.Elf
import LBoot.Exec.MultibootBuffer

namespace LBoot.Exec

open LBoot.Lib

/-- `MULTIBOOT1_HEAD_MAGIC`. -/
abbrev multiboot1HeadMagic : Nat := 0x1BADB002

/-- The loop of `_exec_detect_multiboot`, with so many iterations left. -/
def detectLoop (mem : Int → UInt8) (search : Nat) : Nat → Nat → Nat × Option Nat
  | 0, _ => (0, none)
  | n + 1, i =>
      if memField mem (u32 (search + 4 * i)) 4 = multiboot1HeadMagic then (1, none)
      else if memField mem (u32 (search + 4 * i)) 4 = multiboot2HeadMagic then
        (2, some (u32 (search + 4 * i)))
      else detectLoop mem search n (i + 2)

/-- `_exec_detect_multiboot`: what it returns, and `exec->multiboot` if it is
    set. -/
def execDetectMultiboot (mem : Int → UInt8) (exec : ExecHand) : Nat × Option Nat :=
  detectLoop mem exec.dataBegin.toNat 1024 0

/-! ## What is searched for -/

section

variable (mem : Int → UInt8) (exec : ExecHand)

/-- The place of the `k`-th word looked at. -/
def searchAddr (k : Nat) : Nat := u32 (exec.dataBegin.toNat + 8 * k)

/-- The word is one of the magic numbers. -/
def IsMagic (k : Nat) : Prop :=
  memField mem (searchAddr exec k) 4 = multiboot1HeadMagic ∨
    memField mem (searchAddr exec k) 4 = multiboot2HeadMagic

/-- The first such word in the 8 KiB searched. -/
def FirstMagic (k : Nat) : Prop := k < 1024 ∧ IsMagic mem exec k ∧ ∀ j < k, ¬ IsMagic mem exec j

/-- The 16 bytes of a multiboot2 header's fields at `a` are in the image. -/
def InImage (a : Nat) : Prop := exec.dataBegin.toNat ≤ a ∧ a + 16 ≤ exec.dataEnd.toNat

/-- A multiboot2 header in the first 8 KiB of the image: magic, architecture,
    length and checksum sum to 0. -/
structure GenuineMultiboot2 (k : Nat) : Prop where
  window : 8 * k + 16 ≤ 8192
  image : exec.dataBegin.toNat + 8 * k + 16 ≤ exec.dataEnd.toNat
  magic : memField mem (searchAddr exec k) 4 = multiboot2HeadMagic
  sum : u32 (memField mem (searchAddr exec k) 4 + memField mem (searchAddr exec k + 4) 4 +
    memField mem (searchAddr exec k + 8) 4 + memField mem (searchAddr exec k + 12) 4) = 0

/-- A multiboot1 header there: magic, flags and checksum sum to 0. -/
structure GenuineMultiboot1 (k : Nat) : Prop where
  window : 8 * k + 12 ≤ 8192
  image : exec.dataBegin.toNat + 8 * k + 12 ≤ exec.dataEnd.toNat
  magic : memField mem (searchAddr exec k) 4 = multiboot1HeadMagic
  sum : u32 (memField mem (searchAddr exec k) 4 + memField mem (searchAddr exec k + 4) 4 +
    memField mem (searchAddr exec k + 8) 4) = 0

/-- What is reported is in the image, and it is a header if there is one and
    the kernel is not a multiboot1 one. -/
structure DetectsGenuine : Prop where
  inside : ∀ a, (execDetectMultiboot mem exec).2 = some a → InImage exec a
  genuine : (∃ k, GenuineMultiboot2 mem exec k) → (¬ ∃ k, GenuineMultiboot1 mem exec k) →
    ∃ k, execDetectMultiboot mem exec = (2, some (searchAddr exec k)) ∧ GenuineMultiboot2 mem exec k

end

/-! ## The search -/

section

variable {mem : Int → UInt8} {exec : ExecHand}

/-- The search goes over words that are no magic number. -/
theorem detectLoop_skip {j n : Nat} (h : ∀ i < j, ¬ IsMagic mem exec i) (hj : j ≤ n) :
    detectLoop mem exec.dataBegin.toNat n 0 = detectLoop mem exec.dataBegin.toNat (n - j) (2 * j) := by
  induction j with
  | zero => rfl
  | succ j ih =>
      have hword := h j (Nat.lt_succ_self j)
      have haddr : exec.dataBegin.toNat + 4 * (2 * j) = exec.dataBegin.toNat + 8 * j := by omega
      rw [IsMagic, searchAddr, not_or] at hword
      rw [ih (fun i hi => h i (Nat.lt_succ_of_lt hi)) (by omega),
        show n - j = n - (j + 1) + 1 by omega, detectLoop, haddr, if_neg hword.1, if_neg hword.2]
      rfl

/-- It stops at the first one. -/
theorem execDetectMultiboot_first {k : Nat} (h : FirstMagic mem exec k) :
    execDetectMultiboot mem exec =
      if memField mem (searchAddr exec k) 4 = multiboot1HeadMagic then (1, none)
      else (2, some (searchAddr exec k)) := by
  obtain ⟨hk, hmagic, hbefore⟩ := h
  have haddr : exec.dataBegin.toNat + 4 * (2 * k) = exec.dataBegin.toNat + 8 * k := by omega
  rw [IsMagic, searchAddr] at hmagic
  rw [execDetectMultiboot, detectLoop_skip hbefore hk.le, show 1024 - k = 1023 - k + 1 by omega,
    detectLoop, haddr, searchAddr]
  split_ifs with h1 h2
  · rfl
  · rfl
  · exact absurd hmagic (not_or.mpr ⟨h1, h2⟩)

theorem execDetectMultiboot_none (h : ∀ k < 1024, ¬ IsMagic mem exec k) :
    execDetectMultiboot mem exec = (0, none) := by
  rw [execDetectMultiboot, detectLoop_skip h le_rfl]
  rfl

/-- If there is one, there is a first one. -/
theorem exists_firstMagic {k : Nat} (hk : k < 1024) (h : IsMagic mem exec k) :
    ∃ j, FirstMagic mem exec j := by
  induction k using Nat.strong_induction_on with
  | _ k ih =>
      by_cases hbefore : ∀ j < k, ¬ IsMagic mem exec j
      · exact ⟨k, hk, h, hbefore⟩
      · obtain ⟨j, hj, hmagic⟩ : ∃ j < k, IsMagic mem exec j := by
          simpa using hbefore
        exact ih j hj (hj.trans hk) hmagic

/-- What is reported is the first of them. -/
theorem execDetectMultiboot_some {a : Nat} (h : (execDetectMultiboot mem exec).2 = some a) :
    ∃ k, FirstMagic mem exec k ∧ a = searchAddr exec k ∧
      memField mem (searchAddr exec k) 4 = multiboot2HeadMagic := by
  by_cases hnone : ∀ k < 1024, ¬ IsMagic mem exec k
  · rw [execDetectMultiboot_none hnone] at h
    cases h
  · obtain ⟨k, hk, hmagic⟩ : ∃ k < 1024, IsMagic mem exec k := by
      simpa using hnone
    obtain ⟨j, hj⟩ := exists_firstMagic hk hmagic
    rw [execDetectMultiboot_first hj] at h
    split_ifs at h with h1
    exact ⟨j, hj, (Option.some.inj h).symm, hj.2.1.resolve_left h1⟩

theorem GenuineMultiboot2.searchAddr_eq {k : Nat} (h : GenuineMultiboot2 mem exec k) :
    searchAddr exec k = exec.dataBegin.toNat + 8 * k := by
  have hin := h.image
  have hlt := exec.dataEnd.toNat_lt
  exact u32_of_lt (by omega)

/-- **The search.**  Whatever the image holds, what is reported is in it and
    is a header where there is one, if and only if the first word that is one
    of the magic numbers has a header's fields in the image, and, unless
    there is no multiboot2 header or a multiboot1 one, is itself the magic
    number of a header. -/
theorem detectsGenuine_iff (mem : Int → UInt8) (exec : ExecHand) :
    DetectsGenuine mem exec ↔ ∀ k, FirstMagic mem exec k →
      (memField mem (searchAddr exec k) 4 = multiboot2HeadMagic →
          InImage exec (searchAddr exec k)) ∧
        ((∃ j, GenuineMultiboot2 mem exec j) → (¬ ∃ j, GenuineMultiboot1 mem exec j) →
          GenuineMultiboot2 mem exec k) := by
  constructor
  · intro hdetects k hk
    have hres := execDetectMultiboot_first hk
    refine ⟨fun hmagic => ?_, fun htwo hone => ?_⟩
    · rw [hmagic, if_neg (by decide)] at hres
      exact hdetects.inside _ (by rw [hres])
    · obtain ⟨j, hj, hgenuine⟩ := hdetects.genuine htwo hone
      rw [hres] at hj
      split_ifs at hj with h1
      · cases (Prod.mk.inj hj).2
      -- two places searched at one address: the same one, as the image does not wrap
      have haddr : searchAddr exec k = searchAddr exec j := Option.some.inj (Prod.mk.inj hj).2
      have hbegin := exec.dataBegin.toNat_lt
      have hjk : k = j := by
        have hwin := hgenuine.window
        have hlt := hk.1
        rw [hgenuine.searchAddr_eq, searchAddr, u32] at haddr
        omega
      rwa [hjk]
  · intro hfirst
    refine ⟨fun a ha => ?_, fun htwo hone => ?_⟩
    · obtain ⟨k, hk, rfl, hmagic⟩ := execDetectMultiboot_some ha
      exact (hfirst k hk).1 hmagic
    · obtain ⟨j, hj⟩ := htwo
      have hwin := hj.window
      obtain ⟨k, hk⟩ := exists_firstMagic (show j < 1024 by omega) (.inr hj.magic)
      have hgenuine := (hfirst k hk).2 ⟨j, hj⟩ hone
      refine ⟨k, ?_, hgenuine⟩
      rw [execDetectMultiboot_first hk, hgenuine.magic, if_neg (by decide)]

/-- A word reported that is no header's is refused: the kernel is not
    started. -/
theorem multiboot2Parse_lookalike {env : Mb2Env} {a : Nat}
    (h : u32 (memField env.mem a 4 + memField env.mem (a + 4) 4 + memField env.mem (a + 8) 4 +
      memField env.mem (a + 12) 4) ≠ 0) (fuel rsdp : Nat) :
    multiboot2Parse env fuel a rsdp = .error .null := by
  rw [multiboot2Parse]
  dsimp only
  rw [if_pos h, ite_self]

end

/-! ### Data in front of the header -/

/-- The magic number as data, and behind it a header of 24 bytes. -/
def lookalikeImage : List UInt8 :=
  toLe 4 multiboot2HeadMagic ++ toLe 4 0 ++ toLe 4 0 ++ toLe 4 0 ++
    toLe 4 multiboot2HeadMagic ++ toLe 4 multiboot2HeadX86 ++ toLe 4 24 ++ toLe 4 0x17ADAF12 ++
    toLe 4 headerTagEnd ++ toLe 4 8

def lookalikeMem : Int → UInt8 := storeAt (fun _ => 0) (0x100000 : Nat) lookalikeImage

def lookalikeExec : ExecHand := ⟨0x100000, 0x100028, 0x100018⟩

theorem lookalike_genuine : GenuineMultiboot2 lookalikeMem lookalikeExec 2 where
  window := by decide
  image := by decide
  magic := by decide +kernel
  sum := by decide +kernel

theorem lookalike_not_multiboot1 : ¬ ∃ k, GenuineMultiboot1 lookalikeMem lookalikeExec k := by
  rintro ⟨k, h⟩
  have himage : (0x100000 : Nat) + 8 * k + 12 ≤ 0x100028 := h.image
  have hnone : ∀ k < 4, memField lookalikeMem (searchAddr lookalikeExec k) 4 ≠ multiboot1HeadMagic := by
    decide +kernel
  exact hnone k (by omega) h.magic

theorem lookalike_first : FirstMagic lookalikeMem lookalikeExec 0 :=
  ⟨by decide, .inr (by decide +kernel), fun j hj => absurd hj (Nat.not_lt_zero j)⟩

/-- The unconditional statement fails: there is a header, and the data is
    reported. -/
theorem detectsGenuine_lookalike : ¬ DetectsGenuine lookalikeMem lookalikeExec := by
  intro hdetects
  obtain ⟨k, hk, hgenuine⟩ := hdetects.genuine ⟨2, lookalike_genuine⟩ lookalike_not_multiboot1
  have hmagic : memField lookalikeMem (searchAddr lookalikeExec 0) 4 = multiboot2HeadMagic := by
    decide +kernel
  rw [execDetectMultiboot_first lookalike_first, hmagic, if_neg (by decide)] at hk
  have haddr : searchAddr lookalikeExec 0 = searchAddr lookalikeExec k :=
    Option.some.inj (Prod.mk.inj hk).2
  have hsum := hgenuine.sum
  rw [← haddr] at hsum
  exact absurd hsum (by decide +kernel)

end LBoot.Exec
