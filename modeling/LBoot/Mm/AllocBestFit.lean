/-
  LBoot.Mm.AllocBestFit

  Which area `_find_free` takes.

  The scan keeps the first of the smallest entries in which the request has
  a place (`findFreeScan_argmin`), and the entry it keeps is cut in place
  (`findFreeCommit_slots`).  That is best fit in the memory range asked for,
  up to its last byte: the ends of the ranges are documented as inclusive and
  compared as exclusive, so `_find_free` never hands out the byte 0xffff.  A
  call differs from best fit exactly if it would need that byte, or the table
  has no slot left for a piece (`findFree_bestFit_iff`).
-/

import LBoot.Mm.AllocSlots
import Mathlib.Data.List.MinMax

namespace LBoot.Mm

open LBoot.Lib

/-! ## What is asked for -/

/-- The next multiple of `align`. -/
def roundUp (align x : Nat) : Nat := (x + (align - 1)) / align * align

/-- The range a call passes to `_find_free`. -/
def allocMrange (flags : Nat) : AllocMemrange :=
  if flags &&& allocFlag16b ≠ 0 then mrange16b else mrange32b

/-- The end of the range asked for: memory below 0x10000, or all above. -/
def rangeStop (flags : Nat) : Nat := if flags &&& allocFlag16b ≠ 0 then 0x10000 else 2 ^ 32

/-- Where in an entry the area would start. -/
def placeIn (flags : Nat) (e : AllocEnt) : Nat :=
  roundUp (allocAlign flags) (max e.addr (allocMrange flags).start)

/-- A free entry that has `sz` bytes in front of `stop`, behind the start of
    the range and the alignment. -/
structure FitsBelow (sz flags stop : Nat) (e : AllocEnt) : Prop where
  valid : e.valid = true
  free : e.used = false
  room : placeIn flags e + sz ≤ min (e.addr + e.size) stop

/-- All valid entries but the one in slot `i` are where they were. -/
structure OthersKept (i : Nat) (s t : Alloc) : Prop where
  addrs : t.addrs = s.addrs
  slots : ∀ j x, j ≠ i → s.entries[j]? = some x → x.valid = true → t.entries[j]? = some x

/-- Best fit: what `_find_free` is to return for `sz` bytes and these flags. -/
structure BestFit (s : Alloc) (sz flags : Nat) (ret : AllocRet) : Prop where
  /-- an area is found exactly if there is one -/
  found : (∃ addr t, ret = .ret addr t ∧ addr ≠ 0) ↔
    ∃ e ∈ s.entries, FitsBelow sz flags (rangeStop flags) e
  /-- it is aligned, lies in the range and in the smallest entry possible -/
  placed : ∀ addr t, ret = .ret addr t → addr ≠ 0 →
    allocAlign flags ∣ addr ∧ (allocMrange flags).start ≤ addr ∧ addr + sz ≤ rangeStop flags ∧
      ∃ i e, s.entries[i]? = some e ∧ FitsBelow sz flags (rangeStop flags) e ∧
        (∀ x ∈ s.entries, FitsBelow sz flags (rangeStop flags) x → e.size ≤ x.size) ∧
        e.addr ≤ addr ∧ addr + sz ≤ e.addr + e.size ∧ OthersKept i s t
  /-- `NULL` leaves the table as it is -/
  nothing : ∀ t, ret = .ret 0 t → t = s

/-- The last byte of the range is not needed: what fits with it fits without
    it in an entry no larger. -/
def LastByteSpared (s : Alloc) (sz flags : Nat) : Prop :=
  ∀ e ∈ s.entries, FitsBelow sz flags (rangeStop flags) e →
    ∃ x ∈ s.entries, FitsBelow sz flags (rangeStop flags - 1) x ∧ x.size ≤ e.size

/-- The slots it takes to cut an area out of an entry. -/
def cutSlots (e : AllocEnt) (start sz : Nat) : Nat :=
  (if e.addr = start then 0 else 1) + if start + sz = e.addr + e.size then 0 else 1

/-- The first of the smallest entries that have a place without the last
    byte. -/
structure Smallest (s : Alloc) (sz flags : Nat) (i : Nat) (e : AllocEnt) : Prop where
  slot : s.entries[i]? = some e
  fits : FitsBelow sz flags (rangeStop flags - 1) e
  first : ∀ (j : Nat) (x : AllocEnt), s.entries[j]? = some x →
    FitsBelow sz flags (rangeStop flags - 1) x → e.size < x.size ∨ (e.size = x.size ∧ i ≤ j)

/-- The table has the slots for cutting it. -/
def SlotsSuffice (s : Alloc) (sz flags : Nat) : Prop :=
  ∀ i e, Smallest s sz flags i e → cutSlots e (placeIn flags e) sz ≤ s.room

/-- No block is added: the table has slots enough, or the flags forbid it. -/
def AddsNoBlock (s : Alloc) (flags : Nat) : Prop :=
  flags &&& allocFlagNonewblock ≠ 0 ∨ 7 * allocBlockSz ≤ 10 * s.room

/-! ## Places -/

theorem allocAlign_bounds (flags : Nat) : 0 < allocAlign flags ∧ allocAlign flags ≤ 2 ^ 15 := by
  rw [allocAlign]
  split
  · rw [Nat.one_shiftLeft]
    exact ⟨Nat.two_pow_pos _, Nat.pow_le_pow_right (by omega) Nat.and_le_right⟩
  · decide

theorem dvd_roundUp (align x : Nat) : align ∣ roundUp align x := Nat.dvd_mul_left _ _

/-- Rounding as the code does it. -/
theorem roundUp_eq {align : Nat} (h : 0 < align) (x : Nat) :
    roundUp align x = if x % align ≠ 0 then x + (align - x % align) else x := by
  have hdiv := Nat.div_add_mod x align
  have hmod := Nat.mod_lt x h
  generalize x / align = q at hdiv
  generalize x % align = r at hdiv hmod ⊢
  subst hdiv
  rw [roundUp, Nat.add_assoc, Nat.mul_add_div h, Nat.add_mul, Nat.mul_comm q]
  by_cases hr : r = 0
  · have hzero : (r + (align - 1)) / align = 0 := Nat.div_eq_of_lt (by omega)
    rw [if_neg (not_not.mpr hr), hzero, hr, Nat.zero_mul]
  · have hone : (r + (align - 1)) / align = 1 := by
      rw [Nat.div_eq_iff h]
      omega
    rw [if_pos hr, hone, Nat.one_mul]
    omega

theorem le_roundUp {align : Nat} (h : 0 < align) (x : Nat) : x ≤ roundUp align x := by
  rw [roundUp_eq h]
  split <;> omega

variable {s t : Alloc} {i sz flags : Nat} {e : AllocEnt}

theorem placeIn_ge (flags : Nat) (e : AllocEnt) :
    e.addr ≤ placeIn flags e ∧ (allocMrange flags).start ≤ placeIn flags e := by
  have hle := le_roundUp (allocAlign_bounds flags).1 (max e.addr (allocMrange flags).start)
  exact ⟨Nat.le_trans (Nat.le_max_left _ _) hle, Nat.le_trans (Nat.le_max_right _ _) hle⟩

/-- The code looks for a place in front of the last byte of the range. -/
theorem allocPlace_eq (hend : e.addr + e.size ≤ 2 ^ 31) :
    allocPlace sz (allocAlign flags) (allocMrange flags) e
      = if placeIn flags e + sz ≤ min (e.addr + e.size) (rangeStop flags - 1)
        then some (placeIn flags e) else none := by
  obtain ⟨hpos, hle⟩ := allocAlign_bounds flags
  have hstart : (allocMrange flags).start ≤ 2 ^ 16 := by
    rw [allocMrange]
    split <;> decide
  have hstop : (allocMrange flags).stop = rangeStop flags - 1 := by
    rw [allocMrange, rangeStop]
    split <;> rfl
  have hmax : (if e.addr < (allocMrange flags).start then (allocMrange flags).start else e.addr)
      = max e.addr (allocMrange flags).start := by
    split <;> omega
  have hmin : (if e.addr + e.size > rangeStop flags - 1 then rangeStop flags - 1
      else e.addr + e.size) = min (e.addr + e.size) (rangeStop flags - 1) := by
    split <;> omega
  have hplace : (if max e.addr (allocMrange flags).start % allocAlign flags ≠ 0
      then u32 (max e.addr (allocMrange flags).start
        + (allocAlign flags - max e.addr (allocMrange flags).start % allocAlign flags))
      else max e.addr (allocMrange flags).start) = placeIn flags e := by
    rw [placeIn, roundUp_eq hpos, u32_of_lt]
    omega
  have hsum : u32 (e.addr + e.size) = e.addr + e.size := u32_of_lt (by omega)
  rw [allocPlace, hsum, hstop, hmax, hmin, hplace]
  generalize placeIn flags e = start
  generalize min (e.addr + e.size) (rangeStop flags - 1) = stop
  by_cases hfit : start + sz ≤ stop
  · rw [if_pos hfit, if_neg (by omega)]
  · rw [if_neg hfit, if_pos (by omega)]

/-! ## The scan -/

/-- What the body of the loops finds in an entry. -/
def allocCandidate (sz align : Nat) (mrange : AllocMemrange) (ent : AllocEnt × Nat) :
    Option (Nat × AllocEnt × Nat) :=
  if ent.1.valid ∧ ¬ ent.1.used then
    (allocPlace sz align mrange ent.1).map fun start => (ent.2, ent.1, start)
  else none

/-- The scan keeps the first of the smallest candidates. -/
theorem findFreeScan_argmin (s : Alloc) (sz align : Nat) (mrange : AllocMemrange) :
    (findFreeScan s sz align mrange).entry
      = (s.entries.zipIdx.filterMap (allocCandidate sz align mrange)).argmin fun c => c.2.1.size := by
  -- a round of the scan is one of `argmin`, for an entry that is a candidate
  have hstep : ∀ (f : FindFree) (ent : AllocEnt × Nat),
      (findFreeStep sz align mrange f ent).entry
        = match allocCandidate sz align mrange ent with
          | none => f.entry
          | some c => List.argAux (fun b c => b.2.1.size < c.2.1.size) f.entry c := by
    intro f ent
    rw [findFreeStep, allocCandidate]
    by_cases hfree : ent.1.valid ∧ ¬ ent.1.used
    · rw [if_pos hfree, if_pos hfree]
      cases allocPlace sz align mrange ent.1 with
      | none => rfl
      | some start =>
          cases hentry : f.entry with
          | none => rfl
          | some best =>
              simp only [Option.map_some, List.argAux]
              split
              · rfl
              · exact hentry
    · rw [if_neg hfree, if_neg hfree]
      split <;> rfl
  have hfold : ∀ (l : List (AllocEnt × Nat)) (f : FindFree),
      (l.foldl (findFreeStep sz align mrange) f).entry
        = (l.filterMap (allocCandidate sz align mrange)).foldl
          (List.argAux fun b c => b.2.1.size < c.2.1.size) f.entry := by
    intro l
    induction l with
    | nil => exact fun _ => rfl
    | cons ent l ih =>
        intro f
        rw [List.foldl_cons, ih, hstep]
        cases hcand : allocCandidate sz align mrange ent with
        | none => rw [List.filterMap_cons_none hcand]
        | some c => rw [List.filterMap_cons_some hcand, List.foldl_cons]
  exact hfold s.entries.zipIdx ⟨none, 0⟩

/-- No area of the table ends behind `2^31`. -/
def Low (s : Alloc) : Prop := ∀ e ∈ s.valid, e.addr + e.size ≤ 2 ^ 31

/-- A candidate is an entry with a place in front of the last byte. -/
theorem mem_candidates (hlow : Low s) {c : Nat × AllocEnt × Nat} :
    c ∈ s.entries.zipIdx.filterMap (allocCandidate sz (allocAlign flags) (allocMrange flags)) ↔
      s.entries[c.1]? = some c.2.1 ∧ FitsBelow sz flags (rangeStop flags - 1) c.2.1 ∧
        c.2.2 = placeIn flags c.2.1 := by
  obtain ⟨i, e, start⟩ := c
  rw [List.mem_filterMap]
  constructor
  · rintro ⟨⟨x, j⟩, hmem, hcand⟩
    have hslot : s.entries[j]? = some x := List.mk_mem_zipIdx_iff_getElem?.mp hmem
    rw [allocCandidate] at hcand
    split at hcand
    · next hfree =>
      rw [allocPlace_eq (hlow x (mem_valid hslot hfree.1))] at hcand
      split at hcand
      · next hfit =>
        cases hcand
        exact ⟨hslot, ⟨hfree.1, by simpa using hfree.2, hfit⟩, rfl⟩
      · cases hcand
    · cases hcand
  · rintro ⟨hslot, hfit, hstart⟩
    dsimp only at hslot hfit hstart
    refine ⟨(e, i), List.mk_mem_zipIdx_iff_getElem?.mpr hslot, ?_⟩
    have hfree : e.valid ∧ ¬ e.used := ⟨hfit.valid, by rw [hfit.free]; exact Bool.false_ne_true⟩
    rw [allocCandidate, if_pos hfree, allocPlace_eq (hlow e (mem_valid hslot hfit.valid)),
      if_pos hfit.room, hstart]
    rfl

/-- The scan comes back without an entry if none has a place. -/
theorem findFreeScan_none (hlow : Low s) :
    (findFreeScan s sz (allocAlign flags) (allocMrange flags)).entry = none ↔
      ∀ e ∈ s.entries, ¬ FitsBelow sz flags (rangeStop flags - 1) e := by
  rw [findFreeScan_argmin, List.argmin_eq_none, List.eq_nil_iff_forall_not_mem]
  constructor
  · intro hnone e he hfit
    obtain ⟨i, hi⟩ := List.getElem?_of_mem he
    exact hnone (i, e, placeIn flags e) ((mem_candidates hlow).mpr ⟨hi, hfit, rfl⟩)
  · intro hnone c hc
    obtain ⟨hslot, hfit, -⟩ := (mem_candidates hlow).mp hc
    exact hnone _ (List.mem_of_getElem? hslot) hfit

theorem findFreeScan_some (hlow : Low s) {c : Nat × AllocEnt × Nat}
    (h : (findFreeScan s sz (allocAlign flags) (allocMrange flags)).entry = some c) :
    Smallest s sz flags c.1 c.2.1 ∧ c.2.2 = placeIn flags c.2.1 := by
  rw [findFreeScan_argmin, List.argmin_eq_some_iff] at h
  obtain ⟨hmem, hmin, hfirst⟩ := h
  obtain ⟨hslot, hfit, hstart⟩ := (mem_candidates hlow).mp hmem
  refine ⟨⟨hslot, hfit, fun j x hx hxfit => ?_⟩, hstart⟩
  have hxmem := (mem_candidates (c := (j, x, placeIn flags x)) hlow).mpr ⟨hx, hxfit, rfl⟩
  rcases Nat.lt_or_eq_of_le (hmin _ hxmem) with hlt | heq
  · exact Or.inl hlt
  · refine Or.inr ⟨heq, ?_⟩
    -- candidates come by ascending slot
    have hkeys : (s.entries.zipIdx.filterMap
        (allocCandidate sz (allocAlign flags) (allocMrange flags))).Pairwise
          fun a b => a.1 < b.1 := by
      refine List.Pairwise.filterMap _ ?_ (pairwise_zipIdx s.entries 0)
      intro a b hab c hc d hd
      have hkey : ∀ (a : AllocEnt × Nat) (c : Nat × AllocEnt × Nat),
          allocCandidate sz (allocAlign flags) (allocMrange flags) a = some c → c.1 = a.2 := by
        intro a c hc
        rw [allocCandidate] at hc
        split at hc
        · obtain ⟨start, -, rfl⟩ := Option.map_eq_some_iff.mp hc
          rfl
        · cases hc
      rw [hkey a c hc, hkey b d hd]
      exact hab
    exact key_le_of_idxOf_le hkeys hmem hxmem (hfirst _ hxmem (Nat.le_of_eq heq.symm))

/-! ## The cut -/

theorem addAlloc_none (h : s.room = 0) (al : AllocEnt) : addAlloc s al = none := by
  cases hadd : addAlloc s al with
  | none => rfl
  | some t =>
      obtain ⟨i, e, hi, hv, -⟩ := addAlloc_spec hadd
      have hpos : 0 < s.room :=
        List.countP_pos_iff.mpr ⟨e, List.mem_of_getElem? hi, by rw [hv]; rfl⟩
      omega

theorem OthersKept.refl (i : Nat) (s : Alloc) : OthersKept i s s := ⟨rfl, fun _ _ _ h _ => h⟩

theorem OthersKept.trans {u : Alloc} (h : OthersKept i s t) (h' : OthersKept i t u) :
    OthersKept i s u :=
  ⟨h'.addrs.trans h.addrs, fun j x hj hx hv => h'.slots j x hj (h.slots j x hj hx hv) hv⟩

theorem OthersKept.set (i : Nat) (s : Alloc) (e : AllocEnt) : OthersKept i s (s.set i e) :=
  ⟨Alloc.addrs_set s i e, fun j x hj hx _ => by
    rw [Alloc.entries_set, List.getElem?_set_ne hj.symm, hx]⟩

theorem addAlloc_kept {al : AllocEnt} (h : addAlloc s al = some t) (hal : al.valid = true)
    (i : Nat) : OthersKept i s t :=
  ⟨(addAlloc_valid h hal).2.1, fun j x _ => (addAlloc_valid h hal).2.2 j x⟩

/-- The part in front, if there is one, takes a slot. -/
theorem splitPrior_slots {start : Nat} (hslot : s.entries[i]? = some e) (hv : e.valid = true)
    (hu : e.used = false) (hlo : e.addr ≤ start) (hhi : start ≤ e.addr + e.size)
    (hend : e.addr + e.size ≤ 2 ^ 31) :
    ((if e.addr = start then 0 else 1) ≤ s.room → ∃ t,
      splitPrior s i e start = some (t, ⟨true, false, start, e.addr + e.size - start⟩) ∧
        t.entries[i]? = some ⟨true, false, start, e.addr + e.size - start⟩ ∧
        t.room + (if e.addr = start then 0 else 1) = s.room ∧ OthersKept i s t) ∧
      (s.room < (if e.addr = start then 0 else 1) → splitPrior s i e start = none) := by
  obtain ⟨valid, used, addr, size⟩ := e
  obtain rfl : valid = true := hv
  obtain rfl : used = false := hu
  dsimp only at hlo hhi hend
  rw [splitPrior]
  dsimp only
  by_cases heq : addr = start
  · subst heq
    rw [if_neg (not_not.mpr rfl), if_pos rfl, Nat.add_sub_cancel_left]
    exact ⟨fun _ => ⟨s, rfl, hslot, rfl, OthersKept.refl i s⟩, fun h => absurd h (Nat.not_lt_zero _)⟩
  · -- the entry keeps the part from `start` on, and a new one takes the part in front
    have hrest : sub32 size (sub32 start addr) = addr + size - start := by
      rw [sub32_of_le hlo (by omega), sub32_of_le (by omega) (by omega)]
      omega
    rw [if_pos heq, if_neg heq, hrest]
    constructor
    · intro hroom
      obtain ⟨t, ht⟩ := addAlloc_isSome hroom ⟨true, false, addr, sub32 start addr⟩
      have hslot' := (addAlloc_valid ht rfl).2.2 i _ hslot rfl
      have hlen : i < t.entries.length := (List.getElem?_eq_some_iff.mp hslot').1
      refine ⟨t.set i ⟨true, false, start, addr + size - start⟩, ?_, ?_, ?_, ?_⟩
      · rw [ht]
        rfl
      · rw [Alloc.entries_set, List.getElem?_set_self hlen]
      · rw [room_replace hslot' rfl rfl]
        exact addAlloc_room ht rfl
      · exact (addAlloc_kept ht rfl i).trans (OthersKept.set i t _)
    · intro hroom
      rw [addAlloc_none (by omega)]
      rfl

/-- What the cut leaves in the slot. -/
def cutRest (e : AllocEnt) (start sz : Nat) : AllocEnt :=
  if start + sz = e.addr + e.size then ⟨true, true, start, sz⟩
  else ⟨true, false, start + sz, e.addr + e.size - (start + sz)⟩

/-- The end of `_find_free` cuts the area out of the entry, if there are slots
    for the pieces, and touches no other entry. -/
theorem findFreeCommit_slots {start : Nat} (hslot : s.entries[i]? = some e) (hv : e.valid = true)
    (hu : e.used = false) (hlo : e.addr ≤ start) (hfit : start + sz ≤ e.addr + e.size)
    (hend : e.addr + e.size ≤ 2 ^ 31) :
    (cutSlots e start sz ≤ s.room → ∃ t, findFreeCommit s sz (some (i, e, start)) = .ret start t ∧
      t.entries[i]? = some (cutRest e start sz) ∧ OthersKept i s t) ∧
      (s.room < cutSlots e start sz → findFreeCommit s sz (some (i, e, start)) = .panic) := by
  obtain ⟨hsome, hnone⟩ := splitPrior_slots hslot hv hu hlo (by omega) hend
  rw [cutSlots, cutRest, findFreeCommit]
  generalize (if e.addr = start then 0 else 1) = prior at hsome hnone ⊢
  -- a slot for the piece in front first, then one for what is left behind
  by_cases hroom : prior ≤ s.room
  · obtain ⟨t, hsplit, hslot', hleft, hkept⟩ := hsome hroom
    have hlen : i < t.entries.length := (List.getElem?_eq_some_iff.mp hslot').1
    rw [hsplit]
    dsimp only
    by_cases hall : start + sz = e.addr + e.size
    · have hsize : e.addr + e.size - start = sz := by omega
      rw [if_pos hsize, if_pos hall, if_pos hall, hsize]
      refine ⟨fun _ => ⟨_, rfl, ?_, hkept.trans (OthersKept.set i t _)⟩, fun h => ?_⟩
      · rw [Alloc.entries_set, List.getElem?_set_self hlen]
      · omega
    · have hstart : u32 (start + sz) = start + sz := u32_of_lt (by omega)
      have hrest : sub32 (e.addr + e.size - start) sz = e.addr + e.size - (start + sz) := by
        rw [sub32_of_le (by omega) (by omega)]
        omega
      have hsize : e.addr + e.size - start ≠ sz := by omega
      rw [if_neg hsize, if_neg hall, if_neg hall, hstart, hrest]
      have hset : (t.set i ⟨true, false, start + sz, e.addr + e.size - (start + sz)⟩).room
          = t.room := room_replace hslot' rfl rfl
      constructor
      · intro henough
        obtain ⟨u, hu⟩ := addAlloc_isSome
          (s := t.set i ⟨true, false, start + sz, e.addr + e.size - (start + sz)⟩) (by omega)
          ⟨true, true, start, sz⟩
        refine ⟨u, by rw [hu], ?_, ?_⟩
        · apply (addAlloc_valid hu rfl).2.2 i _ _ rfl
          rw [Alloc.entries_set, List.getElem?_set_self hlen]
        · exact hkept.trans ((OthersKept.set i t _).trans (addAlloc_kept hu rfl i))
      · intro hfew
        rw [addAlloc_none (by omega)]
  · rw [hnone (by omega)]
    exact ⟨fun h => by omega, fun _ => rfl⟩

/-! ## Best fit -/

theorem FitsBelow.mono {stop stop' : Nat} (h : FitsBelow sz flags stop e) (hle : stop ≤ stop') :
    FitsBelow sz flags stop' e :=
  ⟨h.valid, h.free, Nat.le_trans h.room (by omega)⟩

theorem Smallest.unique {j : Nat} {x : AllocEnt} (h : Smallest s sz flags i e)
    (h' : Smallest s sz flags j x) : i = j ∧ e = x := by
  have hij := h.first j x h'.slot h'.fits
  have hji := h'.first i e h.slot h.fits
  obtain rfl : i = j := by omega
  exact ⟨rfl, Option.some.inj (h.slot.symm.trans h'.slot)⟩

/-- The cut changes the entry. -/
theorem cutRest_ne {start : Nat} (hu : e.used = false) (hlo : e.addr ≤ start) (hsz : 1 ≤ sz) :
    cutRest e start sz ≠ e := by
  intro heq
  rw [cutRest] at heq
  split at heq
  · rw [← heq] at hu
    exact Bool.noConfusion hu
  · have haddr := congrArg AllocEnt.addr heq
    dsimp only at haddr
    omega

/-- How `_find_free` ends if it adds no block. -/
theorem findFree_cases (hlow : Low s) (hflat : AddsNoBlock s flags) :
    ((∀ e ∈ s.entries, ¬ FitsBelow sz flags (rangeStop flags - 1) e) ∧
        findFree 2 s sz flags (allocMrange flags) = .ret 0 s) ∨
      ∃ i e, Smallest s sz flags i e ∧
        (cutSlots e (placeIn flags e) sz ≤ s.room → ∃ t,
          findFree 2 s sz flags (allocMrange flags) = .ret (placeIn flags e) t ∧
            t.entries[i]? = some (cutRest e (placeIn flags e) sz) ∧ OthersKept i s t) ∧
        (s.room < cutSlots e (placeIn flags e) sz →
          findFree 2 s sz flags (allocMrange flags) = .panic) := by
  have hfind : findFree 2 s sz flags (allocMrange flags) = findFreeCommit s sz
      (findFreeScan s sz (allocAlign flags) (allocMrange flags)).entry := by
    apply findFree_flat
    intro hflag
    have hsize : allocBlockSz = 128 := rfl
    rcases hflat with hset | hmany
    · exact absurd hflag hset
    · omega
  rw [hfind]
  cases hentry : (findFreeScan s sz (allocAlign flags) (allocMrange flags)).entry with
  | none => exact Or.inl ⟨(findFreeScan_none hlow).mp hentry, rfl⟩
  | some c =>
      obtain ⟨i, e, start⟩ := c
      obtain ⟨hsmall, hstart⟩ := findFreeScan_some hlow hentry
      dsimp only at hsmall hstart
      subst hstart
      have hroom := hsmall.fits.room
      refine Or.inr ⟨i, e, hsmall, ?_⟩
      exact findFreeCommit_slots hsmall.slot hsmall.fits.valid hsmall.fits.free
        (placeIn_ge flags e).1 (by omega) (hlow e (mem_valid hsmall.slot hsmall.fits.valid))

/-- What is best fit spares the last byte. -/
theorem lastByteSpared_of_bestFit (hlow : Low s) (hsz : 1 ≤ sz) (hflat : AddsNoBlock s flags)
    (hbest : BestFit s sz flags (findFree 2 s sz flags (allocMrange flags))) :
    LastByteSpared s sz flags := by
  have hcases := @findFree_cases s sz flags hlow hflat
  generalize findFree 2 s sz flags (allocMrange flags) = ret at hcases hbest
  intro e he hfit
  obtain ⟨addr, t, rfl, hne⟩ := hbest.found.mpr ⟨e, he, hfit⟩
  rcases hcases with ⟨-, hnull⟩ | ⟨i, m, hsmall, hcut, hpanic⟩
  · exact absurd (AllocRet.ret.inj hnull).1 hne
  · by_cases hroom : cutSlots m (placeIn flags m) sz ≤ s.room
    · obtain ⟨t', hret, hrest, -⟩ := hcut hroom
      obtain ⟨rfl, rfl⟩ := AllocRet.ret.inj hret
      obtain ⟨-, -, -, k, x, hx, -, hmin, -, -, hkept⟩ := hbest.placed _ _ rfl hne
      -- the entry that was cut is the one that changed
      have hki : i = k := by
        by_contra hik
        have hsame := hkept.slots i m hik hsmall.slot hsmall.fits.valid
        exact cutRest_ne hsmall.fits.free (placeIn_ge flags m).1 hsz
          (Option.some.inj (hrest.symm.trans hsame))
      subst hki
      obtain rfl := Option.some.inj (hsmall.slot.symm.trans hx)
      exact ⟨m, List.mem_of_getElem? hsmall.slot, hsmall.fits, hmin e he hfit⟩
    · exact absurd (hpanic (by omega)) nofun

/-- And there was room in the table. -/
theorem slotsSuffice_of_bestFit (hlow : Low s) (hflat : AddsNoBlock s flags)
    (hbest : BestFit s sz flags (findFree 2 s sz flags (allocMrange flags))) :
    SlotsSuffice s sz flags := by
  have hcases := @findFree_cases s sz flags hlow hflat
  generalize findFree 2 s sz flags (allocMrange flags) = ret at hcases hbest
  intro i e hsmall
  by_contra hroom
  rcases hcases with ⟨hnone, -⟩ | ⟨j, m, hsmall', -, hpanic⟩
  · exact hnone e (List.mem_of_getElem? hsmall.slot) hsmall.fits
  · obtain ⟨rfl, rfl⟩ := hsmall.unique hsmall'
    obtain ⟨addr, t, hret, -⟩ := hbest.found.mpr
      ⟨e, List.mem_of_getElem? hsmall.slot, hsmall.fits.mono (Nat.sub_le _ _)⟩
    rw [hpanic (by omega)] at hret
    cases hret

/-- Together they are enough. -/
theorem bestFit_of_spared (hlow : Low s) (hpos : ∀ e ∈ s.valid, 0 < e.addr)
    (hflat : AddsNoBlock s flags) (hspared : LastByteSpared s sz flags)
    (hslots : SlotsSuffice s sz flags) :
    BestFit s sz flags (findFree 2 s sz flags (allocMrange flags)) := by
  have hcases := @findFree_cases s sz flags hlow hflat
  generalize findFree 2 s sz flags (allocMrange flags) = ret at hcases
  rcases hcases with ⟨hnone, rfl⟩ | ⟨i, e, hsmall, hcut, -⟩
  · refine ⟨⟨?_, ?_⟩, ?_, ?_⟩
    · rintro ⟨addr, t, hret, hne⟩
      exact absurd (AllocRet.ret.inj hret).1.symm hne
    · rintro ⟨e, he, hfit⟩
      obtain ⟨x, hx, hxfit, -⟩ := hspared e he hfit
      exact absurd hxfit (hnone x hx)
    · rintro addr t hret hne
      exact absurd (AllocRet.ret.inj hret).1.symm hne
    · rintro t hret
      exact (AllocRet.ret.inj hret).2.symm
  · obtain ⟨t, rfl, -, hkept⟩ := hcut (hslots i e hsmall)
    obtain ⟨haddr, hstart⟩ := placeIn_ge flags e
    have hmem := List.mem_of_getElem? hsmall.slot
    have hadr := hpos e (mem_valid hsmall.slot hsmall.fits.valid)
    have hroom := hsmall.fits.room
    have hfit : FitsBelow sz flags (rangeStop flags) e := hsmall.fits.mono (Nat.sub_le _ _)
    refine ⟨⟨fun _ => ⟨e, hmem, hfit⟩, fun _ => ⟨_, t, rfl, by omega⟩⟩, ?_, ?_⟩
    · rintro addr u hret -
      obtain ⟨rfl, rfl⟩ := AllocRet.ret.inj hret
      refine ⟨dvd_roundUp _ _, hstart, by omega, i, e, hsmall.slot, hfit, ?_, haddr, by omega,
        hkept⟩
      intro x hx hxfit
      obtain ⟨y, hy, hyfit, hle⟩ := hspared x hx hxfit
      obtain ⟨j, hj⟩ := List.getElem?_of_mem hy
      have hfirst := hsmall.first j y hj hyfit
      omega
    · rintro u hret
      have hzero := (AllocRet.ret.inj hret).1
      omega

/-- One call. -/
theorem bestFit_iff (hlow : Low s) (hpos : ∀ e ∈ s.valid, 0 < e.addr) (hsz : 1 ≤ sz)
    (hflat : AddsNoBlock s flags) :
    BestFit s sz flags (findFree 2 s sz flags (allocMrange flags)) ↔
      LastByteSpared s sz flags ∧ SlotsSuffice s sz flags := by
  constructor
  · intro hbest
    exact ⟨lastByteSpared_of_bestFit hlow hsz hflat hbest, slotsSuffice_of_bestFit hlow hflat hbest⟩
  · rintro ⟨hspared, hslots⟩
    exact bestFit_of_spared hlow hpos hflat hspared hslots

/-- The last byte of all memory is never needed. -/
theorem lastByteSpared_above (hlow : Low s) (h : flags &&& allocFlag16b = 0) (sz : Nat) :
    LastByteSpared s sz flags := by
  intro e he hfit
  refine ⟨e, he, ⟨hfit.valid, hfit.free, ?_⟩, Nat.le_refl _⟩
  have hend := hlow e (List.mem_filter.mpr ⟨he, hfit.valid⟩)
  have hstop : rangeStop flags = 2 ^ 32 := by rw [rangeStop, if_neg (not_not.mpr h)]
  have hroom := hfit.room
  rw [hstop] at hroom ⊢
  omega

/-! ## Runs -/

/-- In a region of no bytes no call succeeds. -/
theorem allocMachine_empty {lo : Nat} (hlo : lo ≤ 2 ^ 31) (hvalid : s.valid = [⟨true, false, lo, 0⟩])
    (hroom : 90 ≤ s.room) (call : AllocCall) : allocMachine.step ⟨s, []⟩ call = none := by
  have hlow : Low s := by
    intro e he
    rw [hvalid, List.mem_singleton] at he
    rw [he]
    exact hlo
  cases call with
  | free ptr => rfl
  | alloc sz flags =>
      have hpanic : alloc s sz flags = .panic := by
        rw [alloc, allocWith]
        by_cases hsz : sz = 0
        · rw [if_pos hsz]
        · rw [if_neg hsz, ← allocMrange]
          rcases @findFree_cases s sz flags hlow (Or.inr (by
            have hsize : allocBlockSz = 128 := rfl
            omega)) with ⟨-, hnull⟩ | ⟨i, e, hsmall, -⟩
          · rw [hnull]
            rfl
          · -- the only entry has no bytes
            have hmem := mem_valid hsmall.slot hsmall.fits.valid
            rw [hvalid, List.mem_singleton] at hmem
            have hfit := hsmall.fits.room
            have hge := (placeIn_ge flags e).1
            rw [hmem] at hfit hge
            dsimp only at hfit hge
            omega
      rw [allocMachine]
      dsimp only
      rw [hpanic]

/-- In every state a run reaches the areas of the table lie below the end of
    the region, and above zero. -/
theorem alloc_run_low {base size : Nat} (hfit : base + size ≤ 2 ^ 31)
    (hregion : firstBlock base + sizeofAllocBlock ≤ base + size) {calls : List AllocCall}
    {u : AllocRun}
    (hrun : (allocInit base size).bind (fun s => allocMachine.run ⟨s, []⟩ calls) = some u) :
    Low u.heap ∧ ∀ e ∈ u.heap.valid, 0 < e.addr := by
  obtain ⟨s, hinit, hcalls⟩ := Option.bind_eq_some_iff.mp hrun
  rcases Nat.lt_or_eq_of_le hregion with hlt | heq
  · have hkeep := Machine.run_invariant
      (I := fun v => Keeps (firstBlock base + sizeofAllocBlock) (base + size) v.live v.heap)
      (fun v call w hv hstep => allocMachine_step hfit hv hstep)
      (allocInit_keeps hfit hlt hinit) hcalls
    refine ⟨fun e he => ?_, fun e he => ?_⟩
    · exact Nat.le_trans (hkeep.bounds he).2.2 hfit
    · exact Nat.lt_of_lt_of_le (by rw [sizeofAllocBlock]; omega) (hkeep.bounds he).1
  · -- an empty region: one entry of no bytes, and no call returns
    obtain ⟨hge, hle⟩ := @firstBlock_bounds base (by omega)
    have hnew : u32 (firstBlock base + sizeofAllocBlock) = firstBlock base + sizeofAllocBlock :=
      u32_of_lt (by omega)
    have hdiff : sub32 (firstBlock base + sizeofAllocBlock) base
        = firstBlock base + sizeofAllocBlock - base := sub32_of_le (by omega) (by omega)
    have hsize : sub32 size (firstBlock base + sizeofAllocBlock - base) = 0 := by
      rw [sub32_of_le (by omega) (by omega)]
      omega
    have hvalid := (allocInit_valid hinit).2
    rw [hnew, hdiff, hsize] at hvalid
    have hnil : calls = [] := by
      cases calls with
      | nil => rfl
      | cons call calls =>
          obtain ⟨v, hstep, -⟩ := Machine.run_cons_eq_some hcalls
          rw [allocMachine_empty (by omega) hvalid (by rw [allocInit_room hinit]; decide)] at hstep
          cases hstep
    subst hnil
    cases hcalls
    rw [Low, hvalid]
    refine ⟨List.forall_mem_singleton.mpr ?_, List.forall_mem_singleton.mpr ?_⟩
    · dsimp only
      omega
    · dsimp only
      rw [sizeofAllocBlock]
      omega

/-- **Best fit.**  In every state a run reaches, for every request that adds
    no block: `_find_free` is best fit exactly if the last byte of the range is
    not needed and there are slots for the pieces.  There always are if the
    calls leave the internal flag alone. -/
theorem findFree_bestFit_iff {base size : Nat} (hfit : base + size ≤ 2 ^ 31)
    (hregion : firstBlock base + sizeofAllocBlock ≤ base + size) {calls : List AllocCall}
    {u : AllocRun}
    (hrun : (allocInit base size).bind (fun s => allocMachine.run ⟨s, []⟩ calls) = some u)
    {sz flags : Nat} (hsz : 1 ≤ sz) (hflat : AddsNoBlock u.heap flags) :
    (BestFit u.heap sz flags (findFree 2 u.heap sz flags (allocMrange flags)) ↔
        LastByteSpared u.heap sz flags ∧ SlotsSuffice u.heap sz flags) ∧
      ((∀ call ∈ calls, call.Client) → SlotsSuffice u.heap sz flags) := by
  obtain ⟨hlow, hpos⟩ := alloc_run_low hfit hregion hrun
  refine ⟨bestFit_iff hlow hpos hsz hflat, fun hcalls i e _ => ?_⟩
  obtain ⟨s, hinit, hcalls'⟩ := Option.bind_eq_some_iff.mp hrun
  have hstart : 88 ≤ (⟨s, []⟩ : AllocRun).heap.room := by
    rw [allocInit_room hinit]
    decide
  have hroom := allocMachine_run_room hcalls hstart hcalls'
  rw [cutSlots]
  split <;> split <;> omega

/-- Above 0x10000, behind an area that was freed. -/
theorem findFree_bestFit_iff_above :
    ∃ u, ((allocInit 0x7e00 0x78200).bind fun s => allocMachine.run ⟨s, []⟩
        [.alloc 100 0, .alloc 8 0, .free 0x10000]) = some u ∧
      (BestFit u.heap 24 0 (findFree 2 u.heap 24 0 (allocMrange 0)) ↔
          LastByteSpared u.heap 24 0 ∧ SlotsSuffice u.heap 24 0) ∧
        ((∀ call ∈ [AllocCall.alloc 100 0, .alloc 8 0, .free 0x10000], call.Client) →
          SlotsSuffice u.heap 24 0) := by
  have hrun : ((allocInit 0x7e00 0x78200).bind fun s => allocMachine.run ⟨s, []⟩
      [.alloc 100 0, .alloc 8 0, .free 0x10000]).any
        (fun u => decide (7 * allocBlockSz ≤ 10 * u.heap.room)) = true := by
    decide +kernel
  obtain ⟨u, hu, hroom⟩ := (Option.any_eq_true _ _).mp hrun
  exact ⟨u, hu, findFree_bestFit_iff (by decide) (by decide) hu (by decide)
    (Or.inr (of_decide_eq_true hroom))⟩

/-- Right behind `alloc_init`, a request for all memory below 0x10000 finds
    nothing: it would need the last byte. -/
theorem findFree_last_byte : ∃ s, allocInit 0x7e00 0x78200 = some s ∧
    AddsNoBlock s allocFlag16b ∧ ¬ BestFit s 0x7bfc allocFlag16b
      (findFree 2 s 0x7bfc allocFlag16b (allocMrange allocFlag16b)) := by
  have hcheck : (allocInit 0x7e00 0x78200).any (fun s =>
      decide (7 * allocBlockSz ≤ 10 * s.room) &&
      decide (s.entries[0]? = some ⟨true, false, 0x8404, 0x77bfc⟩) &&
      decide (findFree 2 s 0x7bfc allocFlag16b (allocMrange allocFlag16b) = .ret 0 s)) = true := by
    decide +kernel
  obtain ⟨s, hs, hall⟩ := (Option.any_eq_true _ _).mp hcheck
  simp only [Bool.and_eq_true, decide_eq_true_eq] at hall
  obtain ⟨⟨hroom, hslot⟩, hnull⟩ := hall
  refine ⟨s, hs, Or.inr hroom, fun hbest => ?_⟩
  have hfits : FitsBelow 0x7bfc allocFlag16b (rangeStop allocFlag16b)
      ⟨true, false, 0x8404, 0x77bfc⟩ := ⟨rfl, rfl, by decide⟩
  obtain ⟨addr, t, hret, hne⟩ := hbest.found.mpr ⟨_, List.mem_of_getElem? hslot, hfits⟩
  rw [hnull] at hret
  exact hne (AllocRet.ret.inj hret).1.symm

end LBoot.Mm
