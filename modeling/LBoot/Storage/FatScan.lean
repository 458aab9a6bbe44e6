/-
  LBoot.Storage.FatScan

  What the entries of a directory cluster come to.

  A comparison may run on behind its entry, over blanks, and ends where memory
  is not blank.  Unless all of it is blank from some place on (`NotBlank`),
  enough iterations make the scan of a cluster come to the first entry that is
  wanted, or to none (`fatScanDirents_eventually`).
-/

import LBoot.Storage.FatFind
import Mathlib.Order.Filter.AtTopBot.Basic

namespace LBoot.Storage

open LBoot.Lib Filter

/-- Memory goes on with other bytes than blanks. -/
def NotBlank (m : Int → UInt8) : Prop := ∀ k : Nat, ∃ b : Nat, k ≤ b ∧ m b ≠ 0x20

/-- What holds of every number but the first, from some place on, holds from
    some place on. -/
theorem eventually_of_succ {p : Nat → Prop} (h : ∀ᶠ n in atTop, p (n + 1)) :
    ∀ᶠ n in atTop, p n := by
  rwa [← map_add_atTop_eq_nat 1, eventually_map]

/-- A write leaves it so. -/
theorem NotBlank.storeAt {m : Int → UInt8} (h : NotBlank m) (a : Int) (bs : List UInt8) :
    NotBlank (storeAt m a bs) := by
  intro k
  obtain ⟨b, hb, hne⟩ := h (max k (a + bs.length).toNat)
  refine ⟨b, by omega, ?_⟩
  rwa [storeAt_of_outside (by omega)]

/-! ## Comparisons -/

section Compare

variable {fatName : Nat → UInt8}

/-- The loop over blanks stops at the next other byte. -/
theorem fatSkipBlanks_eventually {b fidx : Nat} (hle : fidx ≤ b) (hb : fatName b ≠ 0x20) :
    ∃ j, ∀ᶠ fuel in atTop, fatSkipBlanks fatName fuel fidx = some j := by
  -- by induction on the distance to a byte that is not blank
  obtain ⟨d, rfl⟩ := Nat.exists_eq_add_of_le hle
  induction d generalizing fidx with
  | zero =>
      exact ⟨fidx, eventually_of_succ (Eventually.of_forall fun _ => if_neg hb)⟩
  | succ d ih =>
      by_cases hblank : fatName fidx = 0x20
      · have hbehind : fatName (fidx + 1 + d) ≠ 0x20 := by rwa [Nat.add_assoc, Nat.add_comm 1]
        obtain ⟨j, hj⟩ := ih (Nat.le_add_right _ _) hbehind
        refine ⟨j, eventually_of_succ ?_⟩
        filter_upwards [hj] with fuel hfuel
        rw [fatSkipBlanks, if_pos hblank, hfuel]
      · exact ⟨fidx, eventually_of_succ (Eventually.of_forall fun _ => if_neg hblank)⟩

/-- A comparison comes to its end. -/
theorem fatStrcmpFrom_eventually (h : ∀ k, ∃ b, k ≤ b ∧ fatName b ≠ 0x20) (filename : List UInt8)
    (fidx : Nat) : ∃ r, ∀ᶠ fuel in atTop, fatStrcmpFrom fuel fatName filename fidx = some r := by
  induction filename generalizing fidx with
  | nil =>
      by_cases htrail : (List.range' fidx (11 - fidx)).any fun k => fatName k ≠ 0x20
      · exact ⟨-1, Eventually.of_forall fun _ => if_pos htrail⟩
      · exact ⟨0, Eventually.of_forall fun _ => if_neg htrail⟩
  | cons c filename ih =>
      by_cases hdot : c = 0x2e
      · -- the only loop inside is the one over blanks
        obtain ⟨b, hle, hb⟩ := h fidx
        obtain ⟨j, hj⟩ := fatSkipBlanks_eventually hle hb
        obtain ⟨r, hr⟩ := ih j
        refine ⟨r, ?_⟩
        filter_upwards [hj, hr] with fuel hskip hrest
        rw [fatStrcmpFrom, if_pos hdot, hskip]
        exact hrest
      · by_cases hchar : fatName fidx ≠ c
        · refine ⟨-1, Eventually.of_forall fun fuel => ?_⟩
          rw [fatStrcmpFrom, if_neg hdot, if_pos hchar]
        · obtain ⟨r, hr⟩ := ih (fidx + 1)
          refine ⟨r, ?_⟩
          filter_upwards [hr] with fuel hrest
          rw [fatStrcmpFrom, if_neg hdot, if_neg hchar, hrest]

end Compare

/-! ## Scans -/

/-- The entry of a buffer as `_fat_strcmp` sees it: what lies from there on. -/
def entryName (dirents : Int → UInt8) (i : Nat) : Nat → UInt8 :=
  fun k => dirents (i * sizeofFatDirent + k : Nat)

/-- The name of the entry compares as equal. -/
def NameMatches (dirents : Int → UInt8) (name : List UInt8) (i : Nat) : Prop :=
  ∀ᶠ fuel in atTop, fatStrcmp fuel (entryName dirents i) name = some 0

/-- An entry `_fat_fs_find` takes: its name compares as equal, and it is
    neither a volume label nor a device nor reserved. -/
def Wanted (dirents : Int → UInt8) (name : List UInt8) (i : Nat) : Prop :=
  NameMatches dirents name i ∧ (fatDirent dirents i).attr &&&
    (fatDirentAttrVolumelabel ||| fatDirentAttrDevice ||| fatDirentAttrReserved) = 0

theorem NotBlank.entryName {dirents : Int → UInt8} (h : NotBlank dirents) (i : Nat) (k : Nat) :
    ∃ b, k ≤ b ∧ entryName dirents i b ≠ 0x20 := by
  obtain ⟨b, hb, hne⟩ := h (i * sizeofFatDirent + k)
  refine ⟨b - i * sizeofFatDirent, by omega, ?_⟩
  have hsum : i * sizeofFatDirent + (b - i * sizeofFatDirent) = b := by omega
  rwa [Storage.entryName, hsum]

/-- A comparison says whether the name matches. -/
theorem fatStrcmp_eventually {dirents : Int → UInt8} (h : NotBlank dirents) (name : List UInt8)
    (i : Nat) : ∃ r, (r = 0 ↔ NameMatches dirents name i) ∧
      ∀ᶠ fuel in atTop, fatStrcmp fuel (entryName dirents i) name = some r := by
  obtain ⟨r, hr⟩ := fatStrcmpFrom_eventually (h.entryName i) name 0
  refine ⟨r, ⟨?_, fun hmatch => ?_⟩, hr⟩
  · rintro rfl
    exact hr
  · obtain ⟨fuel, hfuel, hzero⟩ := (hr.and hmatch).exists
    exact Option.some.inj (hfuel.symm.trans hzero)

open Classical in
/-- What the scan of the entries `is` comes to. -/
noncomputable def scanned (fd : FatData) (dirents : Int → UInt8) (name : List UInt8)
    (is : List Nat) : FindRet FatFile :=
  match is.find? fun i => Wanted dirents name i with
  | some i => .ok (fatPopFile fd (fatDirent dirents i))
  | none => .fail

open Classical in
/-- With enough iterations for its comparisons, it does. -/
theorem fatScanDirents_eventually {dirents : Int → UInt8} (h : NotBlank dirents) (fd : FatData)
    (name : List UInt8) (is : List Nat) :
    ∀ᶠ fuel in atTop, fatScanDirents fuel fd dirents name is = scanned fd dirents name is := by
  induction is with
  | nil => exact Eventually.of_forall fun _ => rfl
  | cons i is ih =>
      obtain ⟨r, hmatch, hr⟩ := fatStrcmp_eventually h name i
      -- enough for this comparison and for those behind it
      filter_upwards [hr, ih] with fuel hcmp hrest
      have hname : (fun k => dirents (i * sizeofFatDirent + k : Nat)) = entryName dirents i := rfl
      rw [fatScanDirents, hname, hcmp, scanned, List.find?_cons]
      dsimp only
      by_cases hwanted : Wanted dirents name i
      · rw [if_pos ⟨hmatch.mpr hwanted.1, hwanted.2⟩, decide_eq_true hwanted]
      · rw [if_neg fun hboth => hwanted ⟨hmatch.mp hboth.1, hboth.2⟩, decide_eq_false hwanted]
        exact hrest

theorem scanned_ne_panic (fd : FatData) (dirents : Int → UInt8) (name : List UInt8)
    (is : List Nat) : scanned fd dirents name is ≠ .panic := by
  rw [scanned]
  split <;> exact nofun

theorem scanned_ne_stuck (fd : FatData) (dirents : Int → UInt8) (name : List UInt8)
    (is : List Nat) : scanned fd dirents name is ≠ .stuck := by
  rw [scanned]
  split <;> exact nofun

end LBoot.Storage
