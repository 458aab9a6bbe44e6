/-
  LBoot.Storage.FatErrors

  Failing storage reads, and what `_fat_file_read` makes of them.

  The device is watched: `logged` writes down every read and what it returned.
  A failed read of a cluster of the file ends the call.  A failed read of a
  FAT sector makes the lookup return all ones, which reads as the end of the
  chain, with one exception.  An entry split across two clusters is put
  together from two lookups; if the second one fails, the first byte is taken
  for the lower end of an entry whose upper bits are set, and such an entry may
  be the number of a cluster (`MaskedLink`).  A call that returns what it was
  asked for has issued no failed read exactly if it has gone over no such link
  (`fatFileRead_reads_iff`).
-/

import LBoot.Storage.FatDevice
import LBoot.Storage.FatLookup

namespace LBoot.Storage

open LBoot.Lib

variable {ι κ : Type*}

/-- A read of the storage: where, of how many bytes, and what it returned. -/
structure StorageRead where
  off : Int
  sz : Nat
  ret : Int
  deriving DecidableEq, Repr

def StorageRead.Succeeded (r : StorageRead) : Prop := r.ret = r.sz

instance (r : StorageRead) : Decidable r.Succeeded := inferInstanceAs (Decidable (r.ret = r.sz))

/-- The device with a record of what has been read from it. -/
def logged (S : StorageHand ι) : StorageHand (ι × List StorageRead) where
  read d off n := ((S.read d.1 off n).1,
    ((S.read d.1 off n).2, d.2 ++ [⟨off, n, (S.read d.1 off n).1.2⟩]))

theorem reflects_logged (S : StorageHand ι) : Reflects (logged S) S Prod.fst := fun _ _ _ => rfl

/-- A state of the driver at which nothing has been recorded. -/
def FatState.unread (s : FatState ι) : FatState (ι × List StorageRead) :=
  ⟨(s.dev, []), s.cache, s.tmp⟩

/-- The storage reads a call of `_fat_file_read` issues, in their order. -/
def fatFileReads (S : StorageHand ι) (fd : FatData) (file : FatFile) (s : FatState ι)
    (buf : Int → UInt8) (sz : Nat) (off : Int) : List StorageRead :=
  (fatFileRead (logged S) fd file s.unread buf sz off).2.2.dev.2

/-! ## Links -/

/-- The sector `_fat_read_fat_data` reads for an offset. -/
def fatSector (fd : FatData) (off : Int) : Int := off - off.tmod fd.sectorSize

/-- The offset of the entry of a cluster, as `_fat_get_fat_entry` computes it. -/
def fatEntryOffset (fd : FatData) (clustNum : Nat) : Int :=
  s32 (fd.fatOffset + (u32 (clustNum * 3) / 2 : Nat))

/-- In a lookup of what follows the cluster `c`, the entry is split across two
    clusters, the first byte is looked up and the second one cannot be, and the
    first byte is such that the result is the number of a cluster. -/
structure MaskedLink (S : StorageHand ι) (fd : FatData) (s : FatState ι) (c : Int) : Prop where
  data : fd.dataOffset ≤ c
  split : (fatEntryOffset fd (clusterNumAt fd c)).tmod fd.clusterSize = fd.clusterSize - 1
  first : (fatFetch S fd s (fatSector fd (fatEntryOffset fd (clusterNumAt fd c)))).1 = true
  second : (fatFetch S fd
    (fatFetch S fd s (fatSector fd (fatEntryOffset fd (clusterNumAt fd c)))).2
    (fatSector fd (fatEntryOffset fd (clusterNumAt fd c) + 1))).1 = false
  small : (fatReadFatData S fd s (fatEntryOffset fd (clusterNumAt fd c)) 1).1
    < if clusterNumAt fd c % 2 = 1 then 0x10 else 0xf1

/-- The states and clusters at which the skip looks for the next cluster. -/
def fatSkipLinks (S : StorageHand ι) (fd : FatData) :
    Nat → FatState ι → Int → Int → List (FatState ι × Int)
  | 0, _, _, _ => []
  | fuel + 1, s, cluster, off =>
      if off ≥ fd.clusterSize then
        (s, cluster) :: match fatGetNextCluster S fd s cluster with
          | (next, s) => if next = 0 then [] else fatSkipLinks S fd fuel s next (off - fd.clusterSize)
      else []

/-- Those at which the copy does. -/
def fatCopyLinks (S : StorageHand ι) (fd : FatData) (sz : Nat) :
    Nat → FatState ι → Int → Int → Nat → List (FatState ι × Int)
  | 0, _, _, _, _ => []
  | fuel + 1, s, cluster, off, pos =>
      if pos < sz then
        match S.read s.dev cluster fd.clusterSize with
        | ((bytes, ret), dev) =>
            let s := { s with dev, tmp := storeAt s.tmp 0 bytes }
            if ret ≠ fd.clusterSize then []
            else if sz - pos ≤ toU32 (fd.clusterSize - off) then
              fatCopyLinks S fd sz fuel s cluster 0 (u32 (pos + fd.clusterSize))
            else
              (s, cluster) :: match fatGetNextCluster S fd s cluster with
                | (next, s) =>
                    if next = 0 then []
                    else fatCopyLinks S fd sz fuel s next 0 (u32 (pos + fd.clusterSize))
      else []

/-- The links a call of `_fat_file_read` goes over. -/
def fatFileLinks (S : StorageHand ι) (fd : FatData) (file : FatFile) (s : FatState ι) (sz : Nat)
    (off : Int) : List (FatState ι × Int) :=
  fatSkipLinks S fd off.toNat s file.firstCluster off ++
    match fatSkip S fd off.toNat s file.firstCluster off with
    | (.error _, _) => []
    | (.ok (cluster, off), s) => fatCopyLinks S fd sz sz s cluster off 0

section Reflect

variable {T : StorageHand κ} {S : StorageHand ι} {g : κ → ι} {fd : FatData}

theorem maskedLink_map (h : Reflects T S g) (s : FatState κ) (c : Int) :
    MaskedLink S fd (s.map g) c ↔ MaskedLink T fd s c := by
  constructor
  · intro hm
    have hfirst := hm.first
    have hsecond := hm.second
    have hsmall := hm.small
    rw [fatFetch_map h] at hfirst hsecond
    rw [fatFetch_map h] at hsecond
    rw [fatReadFatData_map h] at hsmall
    exact ⟨hm.data, hm.split, hfirst, hsecond, hsmall⟩
  · intro hm
    refine ⟨hm.data, hm.split, ?_, ?_, ?_⟩
    · rw [fatFetch_map h]
      exact hm.first
    · rw [fatFetch_map h, fatFetch_map h]
      exact hm.second
    · rw [fatReadFatData_map h]
      exact hm.small

/-- A link on the device that is reflected. -/
def linkMap (g : κ → ι) (l : FatState κ × Int) : FatState ι × Int := (l.1.map g, l.2)

theorem fatSkipLinks_map (h : Reflects T S g) (fuel : Nat) (s : FatState κ) (cluster off : Int) :
    fatSkipLinks S fd fuel (s.map g) cluster off
      = (fatSkipLinks T fd fuel s cluster off).map (linkMap g) := by
  induction fuel generalizing s cluster off with
  | zero => rfl
  | succ fuel ih =>
      rw [fatSkipLinks, fatSkipLinks]
      split
      · rw [fatGetNextCluster_map h, List.map_cons]
        apply congrArg (linkMap g (s, cluster) :: ·)
        dsimp only
        split
        · rfl
        · exact ih _ _ _
      · rfl

theorem fatCopyLinks_map (h : Reflects T S g) (sz fuel : Nat) (s : FatState κ)
    (cluster off : Int) (pos : Nat) :
    fatCopyLinks S fd sz fuel (s.map g) cluster off pos
      = (fatCopyLinks T fd sz fuel s cluster off pos).map (linkMap g) := by
  induction fuel generalizing s cluster off pos with
  | zero => rfl
  | succ fuel ih =>
      rw [fatCopyLinks, fatCopyLinks]
      split
      · have hread := h s.dev cluster fd.clusterSize
        cases hT : T.read s.dev cluster fd.clusterSize with
        | mk res dev =>
            rw [hT] at hread
            simp only [FatState.map_dev, hread]
            have hmap : (⟨g dev, (s.map g).cache, storeAt (s.map g).tmp 0 res.1⟩ : FatState ι)
                = FatState.map g ⟨dev, s.cache, storeAt s.tmp 0 res.1⟩ := rfl
            rw [hmap]
            split
            · rfl
            · split
              · exact ih _ _ _ _
              · rw [fatGetNextCluster_map h, List.map_cons]
                apply congrArg (linkMap g (_, cluster) :: ·)
                dsimp only
                split
                · rfl
                · exact ih _ _ _ _
      · rfl

theorem fatFileLinks_map (h : Reflects T S g) (file : FatFile) (s : FatState κ) (sz : Nat)
    (off : Int) :
    fatFileLinks S fd file (s.map g) sz off = (fatFileLinks T fd file s sz off).map (linkMap g) := by
  rw [fatFileLinks, fatFileLinks, List.map_append, fatSkipLinks_map h, fatSkip_map h]
  apply congrArg (_ ++ ·)
  generalize fatSkip T fd off.toNat s file.firstCluster off = r
  obtain ⟨r, t⟩ := r
  cases r with
  | error r => rfl
  | ok at_ => exact fatCopyLinks_map h _ _ _ _ _ _

end Reflect

/-! ## What a failed lookup returns -/

theorem fatReadFatData_eq (S : StorageHand ι) (fd : FatData) (s : FatState ι) (off : Int)
    (sz : Nat) :
    (fatReadFatData S fd s off sz).2 = (fatFetch S fd s (fatSector fd off)).2 ∧
      ((fatFetch S fd s (fatSector fd off)).1 = false →
        (fatReadFatData S fd s off sz).1 = 0xffffffff) := by
  rw [fatReadFatData, fatSector]
  generalize fatFetch S fd s (off - off.tmod fd.sectorSize) = r
  obtain ⟨ok, t⟩ := r
  cases ok with
  | true =>
      refine ⟨rfl, fun h => ?_⟩
      cases h
  | false => exact ⟨rfl, fun _ => rfl⟩

/-- A byte that was looked up is a byte. -/
theorem fatReadFatData_lt (S : StorageHand ι) (fd : FatData) (s : FatState ι) (off : Int)
    (h : (fatFetch S fd s (fatSector fd off)).1 = true) : (fatReadFatData S fd s off 1).1 < 256 := by
  rw [fatSector] at h
  rw [fatReadFatData]
  generalize fatFetch S fd s (off - off.tmod fd.sectorSize) = r at h
  obtain ⟨ok, t⟩ := r
  obtain rfl : ok = true := h
  dsimp only
  rw [fatMask_one]
  omega

/-- All ones stay all ones, whatever is put beside them. -/
theorem ones_or (hi : Nat) : (0xffffffff ||| (hi <<< 8)) % 2 ^ 16 = 0xffff := by
  have hones : 0xffffffff % 2 ^ 16 = 2 ^ 16 - 1 := by decide
  have hlt : (hi <<< 8) % 2 ^ 16 < 2 ^ 16 := Nat.mod_lt _ (by decide)
  rw [Nat.or_mod_two_pow, hones]
  generalize (hi <<< 8) % 2 ^ 16 = x at hlt
  apply Nat.eq_of_testBit_eq
  intro i
  rw [Nat.testBit_or, Nat.testBit_two_pow_sub_one]
  by_cases hi : i < 16
  · simp [hi]
  · have hzero : x.testBit i = false :=
      Nat.testBit_lt_two_pow (Nat.lt_of_lt_of_le hlt (Nat.pow_le_pow_right (by decide) (by omega)))
    simp [hi, hzero]

/-- A byte below all ones. -/
theorem byte_or_ones {lo : Nat} (h : lo < 256) :
    (lo ||| (0xffffffff <<< 8)) % 2 ^ 16 = 0xff00 + lo := by
  rw [Nat.or_comm, ← Nat.shiftLeft_add_eq_or_of_lt h]
  omega

/-- The entry of a cluster as the driver puts it together. -/
theorem fatGetFatEntry_split (S : StorageHand ι) (fd : FatData) (s : FatState ι) {c : Nat}
    (h : (fatEntryOffset fd c).tmod fd.clusterSize = fd.clusterSize - 1) :
    let lo := fatReadFatData S fd s (fatEntryOffset fd c) 1
    let hi := fatReadFatData S fd lo.2 (fatEntryOffset fd c + 1) 1
    (fatGetFatEntry S fd s c).2 = hi.2 ∧
      ∀ w, (lo.1 ||| (hi.1 <<< 8)) % 2 ^ 16 = w →
        (fatGetFatEntry S fd s c).1 = if c % 2 = 1 then w / 16 else w % 4096 := by
  intro lo hi
  rw [fatEntryOffset] at h
  have hentry : fatGetFatEntry S fd s c
      = ((if c &&& 1 ≠ 0 then ((lo.1 ||| (hi.1 <<< 8)) % 2 ^ 16) >>> 4
          else (lo.1 ||| (hi.1 <<< 8)) % 2 ^ 16) &&& 0xfff, hi.2) := by
    rw [fatGetFatEntry, if_pos h]
    rfl
  rw [hentry]
  refine ⟨rfl, fun w hw => ?_⟩
  have hlt : w < 2 ^ 16 := by
    rw [← hw]
    exact Nat.mod_lt _ (by decide)
  rw [hw]
  exact fatEntry_bits c hlt

theorem fatGetFatEntry_whole (S : StorageHand ι) (fd : FatData) (s : FatState ι) {c : Nat}
    (h : ¬ (fatEntryOffset fd c).tmod fd.clusterSize = fd.clusterSize - 1) :
    let w := fatReadFatData S fd s (fatEntryOffset fd c) 2
    (fatGetFatEntry S fd s c).2 = w.2 ∧
      (w.1 = 0xffffffff → (fatGetFatEntry S fd s c).1 = 0xfff) := by
  intro w
  rw [fatEntryOffset] at h
  have hentry : fatGetFatEntry S fd s c
      = ((if c &&& 1 ≠ 0 then (w.1 % 2 ^ 16) >>> 4 else w.1 % 2 ^ 16) &&& 0xfff, w.2) := by
    rw [fatGetFatEntry, if_neg h]
    rfl
  rw [hentry]
  refine ⟨rfl, fun hw => ?_⟩
  rw [hw]
  dsimp only
  rw [fatEntry_bits c (by decide)]
  split <;> rfl

/-! ## The record -/

/-- No read on record has failed. -/
def Clean (s : FatState (ι × List StorageRead)) : Prop := ∀ r ∈ s.dev.2, r.Succeeded

section Logged

variable {S : StorageHand ι} {fd : FatData}

theorem clean_append {dev : ι} {l : List StorageRead} {r : StorageRead} {cache cache' : FatCache}
    {tmp tmp' : Int → UInt8} {dev' : ι} :
    Clean ⟨(dev, l ++ [r]), cache, tmp⟩ ↔ Clean ⟨(dev', l), cache', tmp'⟩ ∧ r.Succeeded := by
  rw [Clean, Clean]
  simp only [List.mem_append, List.mem_singleton, or_imp, forall_and, forall_eq]

/-- The cache is searched without a read. -/
theorem fatTryCache_dev (fd : FatData) (s : FatState ι) (a : Int) :
    (fatTryCache fd s a).2.dev = s.dev := by
  rw [fatTryCache]
  cases fatCacheFind s.cache a with
  | none => rfl
  | some i => rfl

theorem fatFetch_clean (s : FatState (ι × List StorageRead)) (a : Int) :
    Clean (fatFetch (logged S) fd s a).2 ↔
      Clean s ∧ (fatFetch (logged S) fd s a).1 = true := by
  have hdev := fatTryCache_dev fd s a
  rw [fatFetch]
  generalize fatTryCache fd s a = r at hdev
  obtain ⟨hit, t⟩ := r
  have hclean : Clean t ↔ Clean s := by
    rw [Clean, Clean, hdev]
  cases hit with
  | true =>
      dsimp only
      rw [hclean]
      exact (and_iff_left rfl).symm
  | false =>
      rw [← hclean]
      obtain ⟨⟨dev, l⟩, cache, tmp⟩ := t
      rw [logged]
      dsimp only
      split
      · next hne =>
          dsimp only
          rw [clean_append, StorageRead.Succeeded]
          exact and_congr_right fun _ => iff_of_false hne (by decide)
      · next heq =>
          dsimp only
          rw [clean_append, StorageRead.Succeeded]
          exact and_congr_right fun _ => iff_of_true (not_not.mp heq) rfl

theorem fatReadFatData_clean (s : FatState (ι × List StorageRead)) (off : Int) (sz : Nat) :
    Clean (fatReadFatData (logged S) fd s off sz).2 ↔
      Clean s ∧ (fatFetch (logged S) fd s (fatSector fd off)).1 = true := by
  rw [(fatReadFatData_eq (logged S) fd s off sz).1]
  exact fatFetch_clean s _

/-- In front of the data region nothing is read. -/
theorem fatGetNextCluster_root (S : StorageHand ι) (fd : FatData) (s : FatState ι) {c : Int}
    (h : c < fd.dataOffset) : (fatGetNextCluster S fd s c).2 = s := by
  rw [fatGetNextCluster, if_pos h]
  split
  · rfl
  · split <;> rfl

/-- An entry split across two clusters names one: then its reads succeeded,
    unless the link is masked. -/
theorem fatGetFatEntry_split_clean {s : FatState (ι × List StorageRead)} {c : Int}
    (hdata : fd.dataOffset ≤ c)
    (hsplit : (fatEntryOffset fd (clusterNumAt fd c)).tmod fd.clusterSize = fd.clusterSize - 1)
    (hrange : (fatGetFatEntry (logged S) fd s (clusterNumAt fd c)).1 ≤ 0xff0) :
    Clean (fatGetFatEntry (logged S) fd s (clusterNumAt fd c)).2 ↔
      Clean s ∧ ¬ MaskedLink (logged S) fd s c := by
  obtain ⟨hst, hval⟩ := fatGetFatEntry_split (logged S) fd s hsplit
  have hlo := fatReadFatData_eq (logged S) fd s (fatEntryOffset fd (clusterNumAt fd c)) 1
  have hhi := fatReadFatData_eq (logged S) fd
    (fatReadFatData (logged S) fd s (fatEntryOffset fd (clusterNumAt fd c)) 1).2
    (fatEntryOffset fd (clusterNumAt fd c) + 1) 1
  rw [hst, fatReadFatData_clean, fatReadFatData_clean, and_assoc]
  apply and_congr_right
  intro _
  rw [hlo.1] at hhi hval ⊢
  cases hfirst : (fatFetch (logged S) fd s
      (fatSector fd (fatEntryOffset fd (clusterNumAt fd c)))).1 with
  | false =>
      -- all ones come through
      rw [hlo.2 hfirst] at hval
      have hend := hval _ (ones_or _)
      rw [hend] at hrange
      split at hrange <;> omega
  | true =>
      cases hsecond : (fatFetch (logged S) fd (fatFetch (logged S) fd s
          (fatSector fd (fatEntryOffset fd (clusterNumAt fd c)))).2
          (fatSector fd (fatEntryOffset fd (clusterNumAt fd c) + 1))).1 with
      | true =>
          have hnot : ¬ MaskedLink (logged S) fd s c := fun hm => by
            have hfail := hm.second
            rw [hsecond] at hfail
            exact Bool.noConfusion hfail
          exact iff_of_true ⟨rfl, rfl⟩ hnot
      | false =>
          have hlt := fatReadFatData_lt (logged S) fd s _ hfirst
          rw [hhi.2 hsecond] at hval
          have hsmall := hval _ (byte_or_ones hlt)
          rw [hsmall] at hrange
          have hmasked : MaskedLink (logged S) fd s c := by
            refine ⟨hdata, hsplit, hfirst, hsecond, ?_⟩
            split
            · next hodd =>
                rw [if_pos hodd] at hrange
                omega
            · next heven =>
                rw [if_neg heven] at hrange
                omega
          exact iff_of_false (fun hf => Bool.noConfusion hf.2) (not_not.mpr hmasked)

/-- So it is with the other entries, which no failure can name. -/
theorem fatGetFatEntry_whole_clean {s : FatState (ι × List StorageRead)} {c : Int}
    (hsplit : ¬ (fatEntryOffset fd (clusterNumAt fd c)).tmod fd.clusterSize = fd.clusterSize - 1)
    (hrange : (fatGetFatEntry (logged S) fd s (clusterNumAt fd c)).1 ≤ 0xff0) :
    Clean (fatGetFatEntry (logged S) fd s (clusterNumAt fd c)).2 ↔
      Clean s ∧ ¬ MaskedLink (logged S) fd s c := by
  obtain ⟨hst, hval⟩ := fatGetFatEntry_whole (logged S) fd s hsplit
  have hw := fatReadFatData_eq (logged S) fd s (fatEntryOffset fd (clusterNumAt fd c)) 2
  rw [hst, fatReadFatData_clean]
  apply and_congr_right
  intro _
  have hnot : ¬ MaskedLink (logged S) fd s c := fun hm => hsplit hm.split
  cases hfetch : (fatFetch (logged S) fd s
      (fatSector fd (fatEntryOffset fd (clusterNumAt fd c)))).1 with
  | true => exact iff_of_true rfl hnot
  | false =>
      rw [hval (hw.2 hfetch)] at hrange
      omega

/-- The step: a lookup that yields a cluster has failed in no read, unless it
    is masked. -/
theorem fatGetNextCluster_clean {s : FatState (ι × List StorageRead)} {c : Int}
    (h : (fatGetNextCluster (logged S) fd s c).1 ≠ 0) :
    Clean (fatGetNextCluster (logged S) fd s c).2 ↔
      Clean s ∧ ¬ MaskedLink (logged S) fd s c := by
  by_cases hroot : c < fd.dataOffset
  · rw [fatGetNextCluster_root _ _ _ hroot]
    have hnot : ¬ MaskedLink (logged S) fd s c := fun hm => absurd hm.data (by omega)
    exact (and_iff_left hnot).symm
  obtain ⟨hnext, hstate⟩ := fatGetNextCluster_data (logged S) fd s hroot
  rw [hnext] at h
  rw [hstate]
  -- the entry names a cluster, so it is not the end of the chain
  have hrange : (fatGetFatEntry (logged S) fd s (clusterNumAt fd c)).1 ≤ 0xff0 := by
    by_contra hgt
    exact h (if_neg fun hin => hgt hin.2)
  by_cases hsplit : (fatEntryOffset fd (clusterNumAt fd c)).tmod fd.clusterSize = fd.clusterSize - 1
  · exact fatGetFatEntry_split_clean (by omega) hsplit hrange
  · exact fatGetFatEntry_whole_clean hsplit hrange

/-- No link of the list is masked. -/
def Unmasked (S : StorageHand ι) (fd : FatData) (links : List (FatState ι × Int)) : Prop :=
  ∀ l ∈ links, ¬ MaskedLink S fd l.1 l.2

theorem unmasked_cons {S : StorageHand ι} {s : FatState ι} {c : Int}
    {links : List (FatState ι × Int)} :
    Unmasked S fd ((s, c) :: links) ↔ ¬ MaskedLink S fd s c ∧ Unmasked S fd links :=
  List.forall_mem_cons

theorem unmasked_append {S : StorageHand ι} {links links' : List (FatState ι × Int)} :
    Unmasked S fd (links ++ links') ↔ Unmasked S fd links ∧ Unmasked S fd links' :=
  List.forall_mem_append

/-- A skip that does not arrive is no success. -/
theorem fatSkip_error {S : StorageHand ι} {fuel : Nat} {s t : FatState ι} {cluster off : Int}
    {r : FatRet} (h : fatSkip S fd fuel s cluster off = (.error r, t)) (sz : Nat) : r ≠ .ret sz := by
  induction fuel generalizing s cluster off with
  | zero =>
      rw [fatSkip] at h
      split at h
      · rw [← Except.error.inj (Prod.mk.inj h).1]
        intro he
        cases he
      · cases (Prod.mk.inj h).1
  | succ fuel ih =>
      rw [fatSkip] at h
      split at h
      · dsimp only at h
        split at h
        · rw [← Except.error.inj (Prod.mk.inj h).1]
          intro he
          have hneg := FatRet.ret.inj he
          omega
        · exact ih h
      · cases (Prod.mk.inj h).1

/-- A skip that arrives. -/
theorem fatSkip_clean {fuel : Nat} {s t : FatState (ι × List StorageRead)}
    {cluster off : Int} {p : Int × Int}
    (h : fatSkip (logged S) fd fuel s cluster off = (.ok p, t)) :
    Clean t ↔ Clean s ∧ Unmasked (logged S) fd (fatSkipLinks (logged S) fd fuel s cluster off) := by
  induction fuel generalizing s cluster off with
  | zero =>
      rw [fatSkip] at h
      rw [fatSkipLinks]
      split at h
      · exact absurd (Prod.mk.inj h).1 (fun he => by cases he)
      · rw [← (Prod.mk.inj h).2]
        exact (and_iff_left (List.forall_mem_nil _)).symm
  | succ fuel ih =>
      rw [fatSkip] at h
      rw [fatSkipLinks]
      by_cases hoff : off ≥ fd.clusterSize
      · rw [if_pos hoff] at h ⊢
        have hlink := @fatGetNextCluster_clean _ S fd s cluster
        generalize fatGetNextCluster (logged S) fd s cluster = r at h hlink
        obtain ⟨next, u⟩ := r
        dsimp only at h hlink ⊢
        by_cases hnext : next = 0
        · rw [if_pos hnext] at h
          exact absurd (Prod.mk.inj h).1 (fun he => by cases he)
        · rw [if_neg hnext] at h ⊢
          rw [ih h, hlink hnext, unmasked_cons, and_assoc]
      · rw [if_neg hoff] at h ⊢
        rw [← (Prod.mk.inj h).2]
        exact (and_iff_left (List.forall_mem_nil _)).symm

/-- A copy that ends with what it was asked for. -/
theorem fatCopy_clean {sz fuel : Nat} {s : FatState (ι × List StorageRead)} {buf : Int → UInt8}
    {cluster off : Int} {pos : Nat}
    (h : (fatCopy (logged S) fd sz fuel s buf cluster off pos).1 = .ret sz) :
    Clean (fatCopy (logged S) fd sz fuel s buf cluster off pos).2.2 ↔
      Clean s ∧ Unmasked (logged S) fd (fatCopyLinks (logged S) fd sz fuel s cluster off pos) := by
  have herr : (FatRet.ret (-1)) ≠ .ret sz := fun he => by
    have hneg := FatRet.ret.inj he
    omega
  induction fuel generalizing s buf cluster off pos with
  | zero => exact (and_iff_left (List.forall_mem_nil _)).symm
  | succ fuel ih =>
      rw [fatCopy] at h ⊢
      rw [fatCopyLinks]
      by_cases hpos : pos < sz
      · rw [if_pos hpos] at h ⊢
        rw [if_pos hpos]
        obtain ⟨⟨dev, l⟩, cache, tmp⟩ := s
        generalize hread : S.read dev cluster fd.clusterSize = res
        obtain ⟨⟨bytes, ret⟩, dev'⟩ := res
        have hlog : (logged S).read (dev, l) cluster fd.clusterSize
            = ((bytes, ret), dev', l ++ [⟨cluster, fd.clusterSize, ret⟩]) := by
          show ((S.read dev cluster fd.clusterSize).1, (S.read dev cluster fd.clusterSize).2,
            l ++ [⟨cluster, fd.clusterSize, (S.read dev cluster fd.clusterSize).1.2⟩]) = _
          rw [hread]
        rw [hlog] at h ⊢
        dsimp only at h ⊢
        by_cases hret : ret = fd.clusterSize
        · rw [if_neg (not_not.mpr hret)] at h ⊢
          rw [if_neg (not_not.mpr hret)]
          -- the cluster of the file itself has been read
          have hstart : Clean ⟨(dev', l ++ [⟨cluster, fd.clusterSize, ret⟩]), cache,
              storeAt tmp 0 bytes⟩ ↔ Clean ⟨(dev, l), cache, tmp⟩ :=
            clean_append.trans (and_iff_left hret)
          rw [← hstart]
          generalize (⟨(dev', l ++ [⟨cluster, fd.clusterSize, ret⟩]), cache,
            storeAt tmp 0 bytes⟩ : FatState (ι × List StorageRead)) = s at h ⊢
          by_cases hlast : sz - pos ≤ toU32 (fd.clusterSize - off)
          · rw [if_pos hlast] at h ⊢
            rw [if_pos hlast]
            exact ih h
          · rw [if_neg hlast] at h ⊢
            rw [if_neg hlast, unmasked_cons]
            have hlink := @fatGetNextCluster_clean _ S fd s cluster
            generalize fatGetNextCluster (logged S) fd s cluster = r at h hlink
            obtain ⟨next, u⟩ := r
            dsimp only at h hlink ⊢
            by_cases hnext : next = 0
            · rw [if_pos hnext] at h
              exact absurd h herr
            · rw [if_neg hnext] at h ⊢
              rw [if_neg hnext]
              refine (ih h).trans ?_
              rw [hlink hnext, and_assoc]
        · rw [if_pos hret] at h
          exact absurd h herr
      · rw [if_neg hpos]
        rw [if_neg hpos]
        exact (and_iff_left (List.forall_mem_nil _)).symm

end Logged

/-- **Storage errors.**  A call that returns what it was asked for has issued
    no failed read exactly if none of the links it has gone over was masked. -/
theorem fatFileRead_reads_iff (S : StorageHand ι) (fd : FatData) (file : FatFile) (s : FatState ι)
    (buf : Int → UInt8) (sz : Nat) (off : Int)
    (h : (fatFileRead S fd file s buf sz off).1 = .ret sz) :
    (∀ r ∈ fatFileReads S fd file s buf sz off, r.Succeeded) ↔
      ∀ l ∈ fatFileLinks S fd file s sz off, ¬ MaskedLink S fd l.1 l.2 := by
  have hrefl := reflects_logged S
  have hstart : s.unread.map Prod.fst = s := rfl
  have hclean : Clean s.unread := List.forall_mem_nil _
  -- the watched call takes the same way
  have hlinks : (∀ l ∈ fatFileLinks S fd file s sz off, ¬ MaskedLink S fd l.1 l.2) ↔
      Unmasked (logged S) fd (fatFileLinks (logged S) fd file s.unread sz off) := by
    rw [← hstart, fatFileLinks_map hrefl, List.forall_mem_map]
    exact forall₂_congr fun l _ => not_congr (maskedLink_map hrefl l.1 l.2)
  rw [hlinks]
  rw [← hstart, fatFileRead_map hrefl] at h
  show Clean (fatFileRead (logged S) fd file s.unread buf sz off).2.2 ↔ _
  rw [fatFileRead] at h ⊢
  rw [fatFileLinks]
  split at h
  · cases h
  · next hin =>
      rw [if_neg hin]
      generalize hskip : fatSkip (logged S) fd off.toNat s.unread file.firstCluster off = r at h
      obtain ⟨r, t⟩ := r
      cases r with
      | error r => exact absurd h (fatSkip_error hskip sz)
      | ok at_ =>
          obtain ⟨cluster, rest⟩ := at_
          dsimp only at h ⊢
          rw [unmasked_append, fatCopy_clean h, fatSkip_clean hskip, and_assoc]
          exact and_iff_right hclean

/-! ## A masked error -/

namespace SplitEntry

/-- The entry of cluster 682, whose bytes are the last one of the second
    sector of the FAT and the first one of the third, names cluster 683. -/
def vol (x : Int) : UInt8 := if x = 1535 then 0xab else if x = 1536 then 0x02 else 0

/-- A storage that cannot read the sectors at `bad`. -/
def storage (bad : List Int) : StorageHand Unit where
  read d a n := (if a ∈ bad then ([], -1) else (loadAt vol a n, n), d)

def fd : FatData := ⟨512, 512, 512, 13312, 12800⟩

/-- A file of the clusters 682 and 683. -/
def file : FatFile := ⟨false, 1024, 13312 + 680 * 512⟩

def start : FatState Unit := ⟨(), ⟨fun _ => 1, fun _ => 0, fun _ => 0⟩, fun _ => 0⟩

/-- With the third sector of the FAT unreadable, cluster 4011 is read. -/
theorem reads_broken : fatFileReads (storage [1536]) fd file start (fun _ => 0) 1024 0
    = [⟨361472, 512, 512⟩, ⟨1024, 512, 512⟩, ⟨1536, 512, -1⟩, ⟨2065920, 512, 512⟩] := by
  decide +kernel

end SplitEntry

/-- All sectors readable: the file is read over a link that is not masked. -/
theorem fatFileRead_reads_iff_readable :
    (∀ r ∈ fatFileReads (SplitEntry.storage []) SplitEntry.fd SplitEntry.file SplitEntry.start
        (fun _ => 0) 1024 0, r.Succeeded) ↔
      ∀ l ∈ fatFileLinks (SplitEntry.storage []) SplitEntry.fd SplitEntry.file SplitEntry.start
        1024 0, ¬ MaskedLink (SplitEntry.storage []) SplitEntry.fd l.1 l.2 :=
  fatFileRead_reads_iff _ _ _ _ _ 1024 0 (by decide +kernel)

/-- A failed read that turns up as data of the file. -/
theorem fatFileRead_masks_error :
    ¬ ∀ (S : StorageHand Unit) (fd : FatData) (file : FatFile) (s : FatState Unit)
      (buf : Int → UInt8) (sz : Nat) (off : Int),
      (fatFileRead S fd file s buf sz off).1 = .ret sz →
        ∀ r ∈ fatFileReads S fd file s buf sz off, r.Succeeded := by
  intro h
  have hret : (fatFileRead (SplitEntry.storage [1536]) SplitEntry.fd SplitEntry.file
      SplitEntry.start (fun _ => 0) 1024 0).1 = .ret (1024 : Nat) := by
    decide +kernel
  have hreads := h _ _ _ _ _ 1024 0 hret
  rw [SplitEntry.reads_broken] at hreads
  have hfail := hreads ⟨1536, 512, -1⟩ (by decide)
  exact absurd hfail (by decide)

end LBoot.Storage
