/-
  LBoot.Storage.FatDevice

  The FAT driver on a device that stands for another one.

  A device `T` reflects `S` along `g` if its reads return what the reads of
  `S` do in the state behind `g`.  The driver cannot tell the two apart: every
  function of it does on `T` what it does on `S`.  So a device may be watched
  without changing what the driver does on it.
-/

import LBoot.Storage.FatFind

namespace LBoot.Storage

open LBoot.Lib

variable {ι κ : Type*}

/-- `T` answers as `S` does, and `g` is what its states stand for. -/
def Reflects (T : StorageHand κ) (S : StorageHand ι) (g : κ → ι) : Prop :=
  ∀ d a n, S.read (g d) a n = ((T.read d a n).1, g (T.read d a n).2)

def FatState.map (g : κ → ι) (s : FatState κ) : FatState ι := ⟨g s.dev, s.cache, s.tmp⟩

def FatSearch.map (g : κ → ι) (s : FatSearch κ) : FatSearch ι := ⟨s.lookup.map g, s.dirents⟩

@[simp] theorem FatState.map_cache (g : κ → ι) (s : FatState κ) : (s.map g).cache = s.cache := rfl

@[simp] theorem FatState.map_dev (g : κ → ι) (s : FatState κ) : (s.map g).dev = g s.dev := rfl

section Reflect

variable {T : StorageHand κ} {S : StorageHand ι} {g : κ → ι} {fd : FatData}

/-! ## Lookups -/

theorem fatTryCache_map (s : FatState κ) (a : Int) :
    fatTryCache fd (s.map g) a = ((fatTryCache fd s a).1, (fatTryCache fd s a).2.map g) := by
  rw [fatTryCache, fatTryCache, FatState.map_cache]
  cases fatCacheFind s.cache a with
  | none => rfl
  | some i => rfl

theorem fatFetch_map (h : Reflects T S g) (s : FatState κ) (a : Int) :
    fatFetch S fd (s.map g) a = ((fatFetch T fd s a).1, (fatFetch T fd s a).2.map g) := by
  rw [fatFetch, fatFetch, fatTryCache_map]
  generalize fatTryCache fd s a = r
  obtain ⟨hit, t⟩ := r
  cases hit with
  | true => rfl
  | false =>
      have hread := h t.dev a fd.clusterSize
      cases hT : T.read t.dev a fd.clusterSize with
      | mk res dev =>
          rw [hT] at hread
          simp only [FatState.map_dev, hread, hT]
          split <;> rfl

theorem fatReadFatData_map (h : Reflects T S g) (s : FatState κ) (off : Int) (sz : Nat) :
    fatReadFatData S fd (s.map g) off sz
      = ((fatReadFatData T fd s off sz).1, (fatReadFatData T fd s off sz).2.map g) := by
  rw [fatReadFatData, fatReadFatData, fatFetch_map h]
  generalize fatFetch T fd s (off - off.tmod fd.sectorSize) = r
  obtain ⟨ok, t⟩ := r
  cases ok with
  | true => rfl
  | false => rfl

theorem fatGetFatEntry_map (h : Reflects T S g) (s : FatState κ) (c : Nat) :
    fatGetFatEntry S fd (s.map g) c
      = ((fatGetFatEntry T fd s c).1, (fatGetFatEntry T fd s c).2.map g) := by
  simp only [fatGetFatEntry, fatReadFatData_map h]
  by_cases hsplit : (s32 (fd.fatOffset + (u32 (c * 3) / 2 : Nat))).tmod fd.clusterSize
      = fd.clusterSize - 1
  · simp only [hsplit, if_true]
  · simp only [hsplit, if_false]

theorem fatGetNextCluster_map (h : Reflects T S g) (s : FatState κ) (c : Int) :
    fatGetNextCluster S fd (s.map g) c
      = ((fatGetNextCluster T fd s c).1, (fatGetNextCluster T fd s c).2.map g) := by
  rw [fatGetNextCluster, fatGetNextCluster]
  split
  · split
    · rfl
    · split <;> rfl
  · dsimp only
    rw [fatGetFatEntry_map h]
    dsimp only
    split <;> rfl

/-! ## Files -/

theorem fatSkip_map (h : Reflects T S g) (fuel : Nat) (s : FatState κ) (cluster off : Int) :
    fatSkip S fd fuel (s.map g) cluster off
      = ((fatSkip T fd fuel s cluster off).1, (fatSkip T fd fuel s cluster off).2.map g) := by
  induction fuel generalizing s cluster off with
  | zero =>
      rw [fatSkip, fatSkip]
      split <;> rfl
  | succ fuel ih =>
      rw [fatSkip, fatSkip]
      split
      · rw [fatGetNextCluster_map h]
        dsimp only
        split
        · rfl
        · exact ih _ _ _
      · rfl

theorem fatCopy_map (h : Reflects T S g) (sz fuel : Nat) (s : FatState κ) (buf : Int → UInt8)
    (cluster off : Int) (pos : Nat) :
    fatCopy S fd sz fuel (s.map g) buf cluster off pos
      = ((fatCopy T fd sz fuel s buf cluster off pos).1,
          (fatCopy T fd sz fuel s buf cluster off pos).2.1,
          (fatCopy T fd sz fuel s buf cluster off pos).2.2.map g) := by
  induction fuel generalizing s buf cluster off pos with
  | zero => rfl
  | succ fuel ih =>
      rw [fatCopy, fatCopy]
      split
      · have hread := h s.dev cluster fd.clusterSize
        cases hT : T.read s.dev cluster fd.clusterSize with
        | mk res dev =>
            rw [hT] at hread
            simp only [FatState.map_dev, hread]
            -- the cluster read is the same, and only the device differs
            have hmap : (⟨g dev, (s.map g).cache, storeAt (s.map g).tmp 0 res.1⟩ : FatState ι)
                = FatState.map g ⟨dev, s.cache, storeAt s.tmp 0 res.1⟩ := rfl
            rw [hmap]
            split
            · rfl
            · split
              · exact ih _ _ _ _ _
              · rw [fatGetNextCluster_map h]
                dsimp only
                split
                · rfl
                · exact ih _ _ _ _ _
      · rfl

theorem fatFileRead_map (h : Reflects T S g) (file : FatFile) (s : FatState κ)
    (buf : Int → UInt8) (sz : Nat) (off : Int) :
    fatFileRead S fd file (s.map g) buf sz off
      = ((fatFileRead T fd file s buf sz off).1, (fatFileRead T fd file s buf sz off).2.1,
          (fatFileRead T fd file s buf sz off).2.2.map g) := by
  rw [fatFileRead, fatFileRead]
  split
  · rfl
  · rw [fatSkip_map h]
    generalize fatSkip T fd off.toNat s file.firstCluster off = r
    obtain ⟨r, t⟩ := r
    cases r with
    | error r => rfl
    | ok at_ => exact fatCopy_map h _ _ _ _ _ _ _

/-! ## Searches -/

theorem fatFsFindLoop_map (h : Reflects T S g) (dir : FatFile) (name : List UInt8) (fuel : Nat)
    (s : FatSearch κ) (pos : Int) :
    fatFsFindLoop S fd dir name fuel (s.map g) pos
      = ((fatFsFindLoop T fd dir name fuel s pos).1,
          (fatFsFindLoop T fd dir name fuel s pos).2.map g) := by
  induction fuel generalizing s pos with
  | zero => rfl
  | succ fuel ih =>
      rw [fatFsFindLoop, fatFsFindLoop, FatSearch.map, fatFileRead_map h]
      -- both sides go on from the same entries, or end the same way
      generalize fatFileRead T fd dir s.lookup s.dirents fd.clusterSize pos = r
      obtain ⟨r, dirents, lookup⟩ := r
      cases r with
      | panic => rfl
      | stuck => rfl
      | ret r =>
          dsimp only
          split
          · rfl
          · generalize fatScanDirents fuel fd dirents name
              (List.range (fd.clusterSize / sizeofFatDirent)) = found
            cases found with
            | fail => exact ih ⟨lookup, dirents⟩ _
            | panic => rfl
            | stuck => rfl
            | ok file => rfl

/-- A search looks at the geometry of the volume and at its root directory
    only. -/
theorem fatFsFind_map (h : Reflects T S g) {fs fs' : FsHand} (hfd : fs'.fdata = fs.fdata)
    (hroot : fs'.rootdir = fs.rootdir) (fuel : Nat) (s : FatSearch κ) (dir : Option FatFile)
    (name : List UInt8) :
    fatFsFind S fs' fuel (s.map g) dir name
      = ((fatFsFind T fs fuel s dir name).1, (fatFsFind T fs fuel s dir name).2.map g) := by
  rw [fatFsFind, fatFsFind, hfd, hroot]
  split
  · rfl
  · exact fatFsFindLoop_map h _ _ _ _ _

end Reflect

end LBoot.Storage
