/-
  LBoot.Mm.AllocScan

  What one call does to the allocator's table, as a list of entries.

  Writing an entry of the chain writes the list of all entries
  (`entries_set`) and moves no block, so everything else is about lists: which
  slot `_add_alloc` takes, which entries the two scans point to, and how many
  slots `_find_free` counts as unused.  The count is what bounds the
  recursion: right behind a new block it is at least the size of the block
  (`findFree_ne_stuck`).
-/

import LBoot.Lib.Slots
import LBoot.Mm.Alloc
import Mathlib.Data.List.Basic

namespace LBoot.Mm

open LBoot.Lib

/-! ## The chain -/

/-- The addresses of the blocks. -/
def Alloc.addrs (s : Alloc) : List Nat := s.blocks.map (·.addr)

@[simp] theorem Alloc.addrs_set (s : Alloc) (i : Nat) (e : AllocEnt) :
    (s.set i e).addrs = s.addrs := by
  rw [Alloc.addrs, Alloc.set, Alloc.addrs]
  apply map_modify_of_eq
  intro b
  rfl

@[simp] theorem Alloc.addrs_addAllocBlock (s : Alloc) (addr : Nat) :
    (addAllocBlock s addr).addrs = s.addrs ++ [addr] := by
  rw [Alloc.addrs, addAllocBlock, List.map_append]
  rfl

/-- A pointer into the chain is an index into the list of all entries. -/
@[simp] theorem Alloc.entries_set (s : Alloc) (i : Nat) (e : AllocEnt) :
    (s.set i e).entries = s.entries.set i e := by
  rw [Alloc.entries, Alloc.set, Alloc.entries]
  exact flatMap_modify _ (by decide) (fun b => Vector.length_toList) i s.blocks _
    fun b _ => Vector.toList_setIfInBounds

/-- A new block brings unused entries. -/
theorem Alloc.entries_addAllocBlock (s : Alloc) (addr : Nat) :
    (addAllocBlock s addr).entries
      = s.entries ++ List.replicate allocBlockSz ⟨false, false, 0, 0⟩ := by
  rw [Alloc.entries, addAllocBlock, List.flatMap_append, List.flatMap_singleton, zeroAllocBlock,
    Vector.toList_replicate, ← Alloc.entries]

/-- `_add_alloc` writes a slot that is not in use. -/
theorem addAlloc_spec {s t : Alloc} {al : AllocEnt} (h : addAlloc s al = some t) :
    ∃ i e, s.entries[i]? = some e ∧ e.valid = false ∧ t = s.set i al := by
  rw [addAlloc, Option.map_eq_some_iff] at h
  obtain ⟨i, hi, rfl⟩ := h
  obtain ⟨hlt, hfree, -⟩ := List.findIdx?_eq_some_iff_getElem.mp hi
  exact ⟨i, s.entries[i], List.getElem?_eq_getElem hlt, by simpa using hfree, rfl⟩

/-! ## The scans -/

/-- A candidate of `_find_free`: an entry in the table that is free, and where
    in it the area would start. -/
def FitsAt (s : Alloc) (sz align : Nat) (mrange : AllocMemrange) (c : Nat × AllocEnt × Nat) :
    Prop :=
  s.entries[c.1]? = some c.2.1 ∧ c.2.1.valid = true ∧ c.2.1.used = false ∧
    allocPlace sz align mrange c.2.1 = some c.2.2

/-- The entry `_find_free` settles on is a candidate. -/
theorem findFreeScan_entry {s : Alloc} {sz align : Nat} {mrange : AllocMemrange}
    {c : Nat × AllocEnt × Nat} (h : (findFreeScan s sz align mrange).entry = some c) :
    FitsAt s sz align mrange c := by
  have hall : ∀ d, (findFreeScan s sz align mrange).entry = some d →
      FitsAt s sz align mrange d := by
    rw [findFreeScan]
    apply List.foldlRecOn (motive := fun f : FindFree =>
      ∀ d, f.entry = some d → FitsAt s sz align mrange d)
    · intro d hd
      cases hd
    · rintro f ih ⟨ent, i⟩ hmem d hd
      have hent : s.entries[i]? = some ent := List.mk_mem_zipIdx_iff_getElem?.mp hmem
      rw [findFreeStep] at hd
      split at hd
      · next hfree =>
        have hused : ent.used = false := by simpa using hfree.2
        split at hd
        · exact ih d hd
        · next start hplace =>
          -- the new candidate replaces the old one, or it does not
          have hnew : FitsAt s sz align mrange (i, ent, start) := ⟨hent, hfree.1, hused, hplace⟩
          split at hd
          · split at hd
            · exact Option.some.inj hd ▸ hnew
            · exact ih d hd
          · exact Option.some.inj hd ▸ hnew
      · split at hd <;> exact ih d hd
  exact hall c h

/-- The count is that of the entries not in use. -/
theorem findFreeScan_freeEnts (s : Alloc) (sz align : Nat) (mrange : AllocMemrange) :
    (findFreeScan s sz align mrange).freeEnts = s.entries.countP fun e => !e.valid := by
  have hfold : ∀ (l : List AllocEnt) (k : Nat) (f : FindFree),
      ((l.zipIdx k).foldl (findFreeStep sz align mrange) f).freeEnts
        = f.freeEnts + l.countP fun e => !e.valid := by
    intro l
    induction l with
    | nil => exact fun _ _ => rfl
    | cons e l ih =>
        intro k f
        have hstep : (findFreeStep sz align mrange f (e, k)).freeEnts
            = f.freeEnts + if e.valid then 0 else 1 := by
          rw [findFreeStep]
          cases hv : e.valid with
          | false => simp
          | true =>
              simp only [true_and, not_true, if_false, if_true, Nat.add_zero]
              repeat' split
              all_goals rfl
        rw [List.zipIdx_cons, List.foldl_cons, ih, hstep, List.countP_cons, Nat.add_assoc]
        cases e.valid <;> simp [Nat.add_comm]
  have htotal := hfold s.entries 0 ⟨none, 0⟩
  rwa [Nat.zero_add] at htotal

/-- What `_do_free` points to. -/
structure FreeFound (s : Alloc) (addr : Nat) (f : FreeScan) : Prop where
  pre : ∀ i e, f.pre = some (i, e) → s.entries[i]? = some e ∧ e.valid = true ∧ e.used = false ∧
    u32 (e.addr + e.size) = addr
  ent : ∀ i e, f.ent = some (i, e) → s.entries[i]? = some e ∧ e.valid = true ∧ e.used = true ∧
    e.addr = addr
  post : ∀ i e, f.post = some (i, e) → s.entries[i]? = some e ∧ e.valid = true ∧
    e.used = false ∧ addr < e.addr

theorem freeScan_found (s : Alloc) (addr : Nat) : FreeFound s addr (freeScan s addr) := by
  rw [freeScan]
  apply List.foldlRecOn (motive := FreeFound s addr)
  · constructor
    all_goals
      intro i e h
      cases h
  · rintro f ih ⟨ent, i⟩ hmem
    have hent : s.entries[i]? = some ent := List.mk_mem_zipIdx_iff_getElem?.mp hmem
    rw [freeStep]
    split
    · next hvalid =>
      split
      · next hused =>
        split
        · next haddr =>
          refine ⟨ih.pre, ?_, ih.post⟩
          rintro j e ⟨⟩
          exact ⟨hent, hvalid, hused, haddr.2⟩
        · exact ih
      · next hused =>
        have hused : ent.used = false := by simpa using hused
        split
        · next hpre =>
          refine ⟨?_, ih.ent, ih.post⟩
          rintro j e ⟨⟩
          exact ⟨hent, hvalid, hused, hpre.2⟩
        · split
          · next hgt =>
            -- nearer than the one found before, or not
            have hnew : FreeFound s addr { f with post := some (i, ent) } := by
              refine ⟨ih.pre, ih.ent, ?_⟩
              rintro j e ⟨⟩
              exact ⟨hent, hvalid, hused, hgt⟩
            split
            · exact hnew
            · split
              · exact hnew
              · exact ih
          · exact ih
    · exact ih

/-- The entry of a live address is found. -/
theorem freeScan_ent_isSome {s : Alloc} {addr : Nat} {e : AllocEnt} (he : e ∈ s.entries)
    (hvalid : e.valid = true) (hused : e.used = true) (haddr : e.addr = addr) :
    (freeScan s addr).ent ≠ none := by
  obtain ⟨i, hi, rfl⟩ := List.getElem_of_mem he
  have hmem := List.mk_mem_zipIdx_iff_getElem?.mpr (List.getElem?_eq_getElem hi)
  refine foldl_of_mem (P := fun f : FreeScan => f.ent ≠ none) (fun f x hf => ?_) (fun f => ?_)
    hmem _
  · rw [freeStep]
    repeat' split
    all_goals first | exact hf | exact Option.some_ne_none _
  · rw [freeStep, if_pos hvalid, if_pos hused]
    split
    · exact Option.some_ne_none _
    · next hnot => exact fun hnone => hnot ⟨hnone, haddr⟩

/-- A free entry that stops at the address is found. -/
theorem freeScan_pre_isSome {s : Alloc} {addr : Nat} {e : AllocEnt} (he : e ∈ s.entries)
    (hvalid : e.valid = true) (hused : e.used = false) (hstop : u32 (e.addr + e.size) = addr) :
    (freeScan s addr).pre ≠ none := by
  obtain ⟨i, hi, rfl⟩ := List.getElem_of_mem he
  have hmem := List.mk_mem_zipIdx_iff_getElem?.mpr (List.getElem?_eq_getElem hi)
  refine foldl_of_mem (P := fun f : FreeScan => f.pre ≠ none) (fun f x hf => ?_) (fun f => ?_)
    hmem _
  · rw [freeStep]
    repeat' split
    all_goals first | exact hf | exact Option.some_ne_none _
  · rw [freeStep, if_pos hvalid, if_neg (by rw [hused]; exact Bool.false_ne_true)]
    split
    · exact Option.some_ne_none _
    · next hnot =>
      have hpre : f.pre ≠ none := fun hnone => hnot ⟨hnone, hstop⟩
      repeat' split
      all_goals exact hpre

/-- The free entry found behind the address is the nearest one. -/
theorem freeScan_post_le {s : Alloc} {addr : Nat} {e : AllocEnt} (he : e ∈ s.entries)
    (hvalid : e.valid = true) (hused : e.used = false) (hstop : u32 (e.addr + e.size) ≠ addr)
    (hgt : addr < e.addr) : ∃ i p, (freeScan s addr).post = some (i, p) ∧ p.addr ≤ e.addr := by
  obtain ⟨i, hi, rfl⟩ := List.getElem_of_mem he
  have hmem := List.mk_mem_zipIdx_iff_getElem?.mpr (List.getElem?_eq_getElem hi)
  refine foldl_of_mem (P := fun f : FreeScan =>
    ∃ j p, f.post = some (j, p) ∧ p.addr ≤ s.entries[i].addr) (fun f x hf => ?_) (fun f => ?_) hmem _
  · obtain ⟨j, p, hpost, hle⟩ := hf
    rw [freeStep]
    split
    · split
      · split <;> exact ⟨j, p, hpost, hle⟩
      · split
        · exact ⟨j, p, hpost, hle⟩
        · split
          · rw [hpost]
            dsimp only
            -- a nearer one replaces the one found
            split
            · next hlt => exact ⟨x.2, x.1, rfl, Nat.le_trans (Nat.le_of_lt hlt) hle⟩
            · exact ⟨j, p, hpost, hle⟩
          · exact ⟨j, p, hpost, hle⟩
    · exact ⟨j, p, hpost, hle⟩
  · rw [freeStep, if_pos hvalid, if_neg (by rw [hused]; exact Bool.false_ne_true),
      if_neg (fun hpre => hstop hpre.2), if_pos hgt]
    cases hpost : f.post with
    | none => exact ⟨_, _, rfl, Nat.le_refl _⟩
    | some c =>
        dsimp only
        split
        · exact ⟨_, _, rfl, Nat.le_refl _⟩
        · next hnot => exact ⟨c.1, c.2, hpost, Nat.le_of_not_lt hnot⟩

/-! ## The recursion -/

theorem findFreeCommit_ne_stuck (s : Alloc) (sz : Nat) (entry : Option (Nat × AllocEnt × Nat)) :
    findFreeCommit s sz entry ≠ .stuck := by
  cases entry with
  | none => exact AllocRet.noConfusion
  | some c =>
      rw [findFreeCommit]
      split
      · exact AllocRet.noConfusion
      · split
        · exact AllocRet.noConfusion
        · dsimp only
          split <;> exact AllocRet.noConfusion

/-- Two calls deep is enough: the inner `alloc` makes no new block, and behind
    a new block there are entries enough. -/
theorem findFree_ne_stuck (fuel : Nat) (s : Alloc) (sz flags : Nat) (mrange : AllocMemrange) :
    findFree (fuel + 2) s sz flags mrange ≠ .stuck := by
  -- `ALLOC_FLAG_NONEWBLOCK` keeps the inner call from recursing
  have hinner : ∀ s, allocWith (findFree (fuel + 1)) s sizeofAllocBlock allocFlagNonewblock
      ≠ .stuck := by
    intro s
    rw [allocWith, if_neg (by decide), findFree, if_neg (fun h => absurd h.2 (by decide))]
    have hcommit := findFreeCommit_ne_stuck s sizeofAllocBlock (findFreeScan s sizeofAllocBlock
      (allocAlign allocFlagNonewblock)
      (if allocFlagNonewblock &&& allocFlag16b ≠ 0 then mrange16b else mrange32b)).entry
    split
    · split <;> exact fun h => nomatch h
    · exact hcommit
  rw [findFree]
  split
  · split
    · next newblock t _ =>
      -- the new block's entries are free, so the second scan finds enough
      have hcount : allocBlockSz ≤ (findFreeScan (addAllocBlock t newblock) sz
          (allocAlign flags) mrange).freeEnts := by
        rw [findFreeScan_freeEnts, Alloc.entries_addAllocBlock, List.countP_append,
          List.countP_replicate]
        exact Nat.le_add_left _ _
      rw [findFree, if_neg (by omega)]
      exact findFreeCommit_ne_stuck _ _ _
    · exact hinner s
  · exact findFreeCommit_ne_stuck _ _ _

/-- `alloc` always comes to an end. -/
theorem alloc_ne_stuck (s : Alloc) (sz flags : Nat) : alloc s sz flags ≠ .stuck := by
  rw [alloc, allocWith]
  split
  · exact AllocRet.noConfusion
  · have hfind := findFree_ne_stuck 0 s sz flags
      (if flags &&& allocFlag16b ≠ 0 then mrange16b else mrange32b)
    split
    · split <;> exact AllocRet.noConfusion
    · exact hfind

/-! ## What is returned -/

/-- `alloc` returns what `_find_free` has found, in a range that starts in the
    lower half. -/
theorem allocWith_ret {findFree : Alloc → Nat → Nat → AllocMemrange → AllocRet} {s t : Alloc}
    {sz flags addr : Nat} (hret : allocWith findFree s sz flags = .ret addr t) :
    ∃ mrange : AllocMemrange, mrange.start ≤ 2 ^ 31 ∧ sz ≠ 0 ∧ addr ≠ 0 ∧
      findFree s sz flags mrange = .ret addr t := by
  rw [allocWith] at hret
  split at hret
  · cases hret
  · next hsz =>
    refine ⟨if flags &&& allocFlag16b ≠ 0 then mrange16b else mrange32b, ?_, hsz, ?_⟩
    · split <;> decide
    · split at hret
      · next hfind =>
        split at hret
        · cases hret
        · next hne =>
          cases hret
          exact ⟨hne, hfind⟩
      · next hno => exact absurd hret (hno addr t)

/-- `_find_free` commits an entry it has found, or calls itself behind a new
    block. -/
theorem findFree_ret {fuel : Nat} {s t : Alloc} {sz flags addr : Nat} {mrange : AllocMemrange}
    (hret : findFree (fuel + 1) s sz flags mrange = .ret addr t) (hne : addr ≠ 0) :
    (∃ newblock s₁,
      allocWith (findFree fuel) s sizeofAllocBlock allocFlagNonewblock = .ret newblock s₁ ∧
        findFree fuel (addAllocBlock s₁ newblock) sz flags mrange = .ret addr t) ∨
    ∃ c, (findFreeScan s sz (allocAlign flags) mrange).entry = some c ∧
      findFreeCommit s sz (some c) = .ret addr t := by
  rw [findFree] at hret
  split at hret
  · left
    split at hret
    · next newblock s₁ halloc => exact ⟨newblock, s₁, halloc, hret⟩
    · next hno => exact absurd hret (hno addr t)
  · right
    cases hentry : (findFreeScan s sz (allocAlign flags) mrange).entry with
    | none =>
        rw [hentry] at hret
        cases hret
        exact absurd rfl hne
    | some c =>
        rw [hentry] at hret
        exact ⟨c, rfl, hret⟩

/-- What a call can do. -/
theorem allocMachine_cases {u v : AllocRun} {call : AllocCall}
    (hstep : allocMachine.step u call = some v) :
    (∃ sz flags addr heap, call = .alloc sz flags ∧ alloc u.heap sz flags = .ret addr heap ∧
      v = ⟨heap, (addr, sz) :: u.live⟩) ∨
    ∃ a heap, call = .free a.1 ∧ a ∈ u.live ∧ doFree u.heap a.1 = some heap ∧
      v = ⟨heap, u.live.erase a⟩ := by
  cases call with
  | alloc sz flags =>
      left
      rw [allocMachine] at hstep
      dsimp only at hstep
      split at hstep
      · next addr heap halloc =>
        cases hstep
        exact ⟨sz, flags, addr, heap, rfl, halloc, rfl⟩
      · cases hstep
  | free ptr =>
      right
      rw [allocMachine] at hstep
      dsimp only at hstep
      split at hstep
      · cases hstep
      · next a hfind =>
        obtain ⟨heap, hfree, rfl⟩ := Option.map_eq_some_iff.mp hstep
        have hptr : a.1 = ptr := by simpa using List.find?_some hfind
        rw [← hptr] at hfree ⊢
        exact ⟨a, heap, rfl, List.mem_of_find?_eq_some hfind, hfree, rfl⟩

end LBoot.Mm
