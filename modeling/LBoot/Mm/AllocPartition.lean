/-
  LBoot.Mm.AllocPartition

  The allocator partitions its memory, in every state a run can reach.

  The valid entries of the table, in whatever slots they are, form an arena
  (`Keeps`): they tile the memory behind the first block, and the used ones
  are the areas handed out and not freed, plus one for each block chained
  later.  What the code does are moves on an arena: `alloc` takes a part of a
  free area and leaves the parts before and behind it
  (`findFreeCommit_cases`), `free` releases an area and joins it with its
  neighbours (`doFree_freeing`).  What a caller relies on is read off the
  arena (`Keeps.partitioned`).
-/

import LBoot.Lib.Arena
import LBoot.Lib.Slots
import LBoot.Mm.AllocScan
import Mathlib.Data.Nat.Basic

namespace LBoot.Mm

open LBoot.Lib

/-- An area as an interval. -/
def span (a : Nat × Nat) : Nat × Nat := (a.1, a.1 + a.2)

/-- What an entry stands for. -/
def AllocEnt.area (e : AllocEnt) : Bool × (Nat × Nat) := (e.used, (e.addr, e.addr + e.size))

/-- The valid entries of all blocks. -/
def Alloc.valid (s : Alloc) : List AllocEnt := s.entries.filter (·.valid)

/-- The areas of all blocks but the first one. -/
def Alloc.chained (s : Alloc) : List (Nat × Nat) := s.addrs.tail.map fun a => (a, sizeofAllocBlock)

/-- The valid entries are an arena; what is taken is `held` and the areas of
    the chained blocks. -/
structure Keeps (lo hi : Nat) (held : List (Nat × Nat)) (s : Alloc) : Prop where
  first : s.addrs.head?.map (· + sizeofAllocBlock) = some lo
  arena : Arena lo hi ((held ++ s.chained).map span) (s.valid.map AllocEnt.area)

variable {lo hi : Nat} {held : List (Nat × Nat)} {s t : Alloc} {i : Nat} {e e' : AllocEnt}
  {r : List AllocEnt}

/-! ## Writing entries -/

theorem mem_valid (h : s.entries[i]? = some e) (hv : e.valid = true) : e ∈ s.valid :=
  List.mem_filter.mpr ⟨List.mem_of_getElem? h, hv⟩

/-- A valid entry, and the others. -/
theorem exists_others (he : e ∈ s.valid) : ∃ r, s.valid.Perm (e :: r) :=
  ⟨_, List.perm_cons_erase he⟩

/-- `_add_alloc` adds an entry and leaves the slots in use alone. -/
theorem addAlloc_valid {al : AllocEnt} (h : addAlloc s al = some t) (hal : al.valid = true) :
    t.valid.Perm (al :: s.valid) ∧ t.addrs = s.addrs ∧
      ∀ (i : Nat) (e : AllocEnt), s.entries[i]? = some e → e.valid = true →
        t.entries[i]? = some e := by
  obtain ⟨j, old, hj, hold, rfl⟩ := addAlloc_spec h
  refine ⟨?_, Alloc.addrs_set _ _ _, fun i e hi he => ?_⟩
  · rw [Alloc.valid, Alloc.entries_set]
    exact filter_set_insert hj hold hal
  · have hne : j ≠ i := by
      rintro rfl
      rw [hj, Option.some.injEq] at hi
      rw [← hi, hold] at he
      exact Bool.false_ne_true he
    rw [Alloc.entries_set, List.getElem?_set_ne hne, hi]

theorem set_valid (e' : AllocEnt) (h : s.entries[i]? = some e) (he : e.valid = true)
    (he' : e'.valid = true) (hr : s.valid.Perm (e :: r)) : (s.set i e').valid.Perm (e' :: r) := by
  rw [Alloc.valid, Alloc.entries_set]
  exact filter_set_replace h he he' hr

theorem clear_valid (h : s.entries[i]? = some e) (he : e.valid = true) (he' : e'.valid = false)
    (hr : s.valid.Perm (e :: r)) : (s.set i e').valid.Perm r := by
  rw [Alloc.valid, Alloc.entries_set]
  exact filter_set_remove h he he' hr

namespace Keeps

/-- Another table for an arena of the same blocks. -/
theorem of_arena {held' : List (Nat × Nat)} {areas : List AllocEnt} (h : Keeps lo hi held s)
    (haddrs : t.addrs = s.addrs) (hvalid : t.valid.Perm areas)
    (ha : Arena lo hi ((held' ++ s.chained).map span) (areas.map AllocEnt.area)) :
    Keeps lo hi held' t where
  first := by rw [haddrs, h.first]
  arena := by
    rw [Alloc.chained, haddrs, ← Alloc.chained]
    exact ha.perm (hvalid.symm.map _) (List.Perm.refl _)

/-- An entry is not empty and lies in the arena. -/
theorem bounds (h : Keeps lo hi held s) (he : e ∈ s.valid) :
    lo ≤ e.addr ∧ 0 < e.size ∧ e.addr + e.size ≤ hi := by
  have hmem : (e.addr, e.addr + e.size) ∈ (s.valid.map AllocEnt.area).map Prod.snd :=
    List.mem_map.mpr ⟨e.area, List.mem_map_of_mem he, rfl⟩
  obtain ⟨hlo, hhi⟩ := h.arena.tiles.within hmem
  have hne := h.arena.tiles.nonempty _ hmem
  exact ⟨hlo, by dsimp only at hne; omega, hhi⟩

/-- Two entries at one address are the same area. -/
theorem size_unique (h : Keeps lo hi held s) (he : e ∈ s.valid) (he' : e' ∈ s.valid)
    (haddr : e.addr = e'.addr) : e.size = e'.size := by
  have hspan : (e.addr, e.addr + e.size) = (e'.addr, e'.addr + e'.size) :=
    h.arena.start_inj (List.mem_map_of_mem he) (List.mem_map_of_mem he') haddr
  have hstop := congrArg Prod.snd hspan
  dsimp only at hstop
  omega

/-- What is held, or keeps a block, has a used entry of exactly that area. -/
theorem used_entry (h : Keeps lo hi held s) {a : Nat × Nat} (ha : a ∈ held ++ s.chained) :
    ∃ e ∈ s.valid, e.used = true ∧ e.addr = a.1 ∧ e.size = a.2 := by
  obtain ⟨e, he, harea⟩ := List.mem_map.mp (h.arena.mem_of_taken (List.mem_map_of_mem ha))
  rw [AllocEnt.area, span, Prod.mk.injEq, Prod.mk.injEq] at harea
  obtain ⟨hused, haddr, hstop⟩ := harea
  exact ⟨e, he, hused, haddr, by omega⟩

end Keeps

/-! ## Allocating -/

/-- A place found lies in its entry. -/
theorem allocPlace_spec {sz flags start : Nat} {mrange : AllocMemrange}
    (hrange : mrange.start ≤ 2 ^ 31) (hend : e.addr + e.size ≤ 2 ^ 31)
    (h : allocPlace sz (allocAlign flags) mrange e = some start) :
    e.addr ≤ start ∧ start + sz ≤ e.addr + e.size := by
  have halign : allocAlign flags ≤ 2 ^ 15 := by
    rw [allocAlign]
    split
    · rw [Nat.one_shiftLeft]
      exact Nat.pow_le_pow_right (by omega) Nat.and_le_right
    · decide
  have hsum : u32 (e.addr + e.size) = e.addr + e.size := u32_of_lt (by omega)
  rw [allocPlace, hsum] at h
  -- the start is at most raised, the end at most lowered
  have hstart : e.addr ≤ (if e.addr < mrange.start then mrange.start else e.addr) := by
    split <;> omega
  have hstart' : (if e.addr < mrange.start then mrange.start else e.addr) ≤ 2 ^ 31 := by
    split <;> omega
  have hstop : (if e.addr + e.size > mrange.stop then mrange.stop else e.addr + e.size)
      ≤ e.addr + e.size := by
    split <;> omega
  generalize (if e.addr < mrange.start then mrange.start else e.addr) = lo at h hstart hstart'
  generalize (if e.addr + e.size > mrange.stop then mrange.stop else e.addr + e.size) = stop
    at h hstop
  rw [u32_of_lt (by omega)] at h
  have hround : lo ≤ (if lo % allocAlign flags ≠ 0
      then lo + (allocAlign flags - lo % allocAlign flags) else lo) := by
    split <;> omega
  generalize (if lo % allocAlign flags ≠ 0
    then lo + (allocAlign flags - lo % allocAlign flags) else lo) = at' at h hround
  split at h
  · cases h
  · cases h
    omega

/-- A free entry, if there is room for one. -/
def freePiece (a b : Nat) : List AllocEnt := if a < b then [⟨true, false, a, b - a⟩] else []

theorem freePiece_area (a b : Nat) : (freePiece a b).map AllocEnt.area = freePart a b := by
  rw [freePiece, freePart]
  split
  · next hlt =>
    have hstop : a + (b - a) = b := by omega
    rw [List.map_singleton, AllocEnt.area]
    dsimp only
    rw [hstop]
  · rfl

/-- What comes before the new start becomes an entry of its own; the entry
    split keeps its slot. -/
theorem splitPrior_cases {newAddr : Nat} (hent : s.entries[i]? = some e) (hv : e.valid = true)
    (hu : e.used = false) (hlo : e.addr ≤ newAddr) (hlt : newAddr < e.addr + e.size)
    (hend : e.addr + e.size ≤ 2 ^ 31) (hr : s.valid.Perm (e :: r))
    (hsplit : splitPrior s i e newAddr = some (t, e')) :
    t.addrs = s.addrs ∧ t.entries[i]? = some e' ∧
      e' = ⟨true, false, newAddr, e.addr + e.size - newAddr⟩ ∧
        t.valid.Perm (e' :: (freePiece e.addr newAddr ++ r)) := by
  rw [splitPrior] at hsplit
  split at hsplit
  · next hne =>
    obtain ⟨s₁, hadd, heq⟩ := Option.map_eq_some_iff.mp hsplit
    obtain ⟨rfl, rfl⟩ := Prod.mk.inj heq
    have hsz : sub32 newAddr e.addr = newAddr - e.addr := sub32_of_le hlo (by omega)
    have hrest : sub32 e.size (newAddr - e.addr) = e.addr + e.size - newAddr := by
      rw [sub32_of_le (by omega) (by omega)]
      omega
    rw [hsz] at hadd
    rw [hsz, hrest]
    obtain ⟨hvalid, haddrs, hkeep⟩ := addAlloc_valid hadd rfl
    have hent₁ := hkeep i e hent hv
    have hlen : i < s₁.entries.length := (List.getElem?_eq_some_iff.mp hent₁).1
    have hpiece : freePiece e.addr newAddr = [⟨true, false, e.addr, newAddr - e.addr⟩] := by
      rw [freePiece, if_pos (Nat.lt_of_le_of_ne hlo hne)]
    refine ⟨by rw [Alloc.addrs_set, haddrs],
      by rw [Alloc.entries_set, List.getElem?_set_self hlen], by rw [hv, hu], ?_⟩
    rw [hpiece]
    -- the slots: the shortened entry, the prior one, the others
    exact set_valid _ hent₁ hv hv (hvalid.trans ((hr.cons _).trans (List.Perm.swap _ _ _)))
  · next heq =>
    cases hsplit
    obtain rfl : e.addr = newAddr := of_not_not heq
    refine ⟨rfl, hent, ?_, ?_⟩
    · obtain ⟨valid, used, addr, size⟩ := e
      cases hv
      cases hu
      rw [Nat.add_sub_cancel_left]
    · rwa [freePiece, if_neg (Nat.lt_irrefl _)]

/-- What the end of `_find_free` does with the entry chosen: it is cut in up to
    three, and the piece returned is used. -/
theorem findFreeCommit_cases {sz addr flags : Nat} {mrange : AllocMemrange}
    {c : Nat × AllocEnt × Nat} (hhi : hi ≤ 2 ^ 31) (hrange : mrange.start ≤ 2 ^ 31)
    (hsz : sz ≠ 0) (h : Keeps lo hi held s) (hc : FitsAt s sz (allocAlign flags) mrange c)
    (hret : findFreeCommit s sz (some c) = .ret addr t) :
    ∃ (e : AllocEnt) (r : List AllocEnt), e.used = false ∧
      (e.addr ≤ addr ∧ addr + sz ≤ e.addr + e.size) ∧ s.valid.Perm (e :: r) ∧
      t.valid.Perm (⟨true, true, addr, sz⟩ ::
        (freePiece (addr + sz) (e.addr + e.size) ++ (freePiece e.addr addr ++ r))) ∧
      t.addrs = s.addrs := by
  obtain ⟨i, entry, newAddr⟩ := c
  obtain ⟨hent, hv, hu, hplace⟩ := hc
  obtain ⟨-, -, hend⟩ := h.bounds (mem_valid hent hv)
  obtain ⟨hlo, hfit⟩ := allocPlace_spec hrange (by dsimp only at *; omega) hplace
  dsimp only at hent hv hu hlo hfit hend
  obtain ⟨r, hr⟩ := exists_others (mem_valid hent hv)
  rw [findFreeCommit] at hret
  split at hret
  · cases hret
  · next s₁ e₁ hsplit =>
    obtain ⟨haddrs, hent₁, rfl, hvalid₁⟩ :=
      splitPrior_cases hent hv hu hlo (by omega) (by omega) hr hsplit
    dsimp only at hret
    split at hret
    · next hsize =>
      -- the whole of what is left
      cases hret
      refine ⟨entry, r, hu, ⟨hlo, hfit⟩, hr, ?_, by rw [Alloc.addrs_set, haddrs]⟩
      rw [freePiece, if_neg (by omega), List.nil_append, ← hsize]
      exact set_valid _ hent₁ rfl rfl hvalid₁
    · next hsize =>
      rw [u32_of_lt (by omega), sub32_of_le (by omega) (by omega)] at hret
      split at hret
      · cases hret
      · next s₂ hadd =>
        cases hret
        -- the rest stays in the slot, the new entry goes in front of it
        obtain ⟨hvalid, haddrs', -⟩ := addAlloc_valid hadd rfl
        refine ⟨entry, r, hu, ⟨hlo, hfit⟩, hr, ?_, by rw [haddrs', Alloc.addrs_set, haddrs]⟩
        rw [freePiece, if_pos (by omega), ← Nat.sub_sub]
        exact hvalid.trans ((set_valid _ hent₁ rfl rfl hvalid₁).cons _)

/-- The end of `_find_free` takes the area it returns. -/
theorem findFreeCommit_spec {sz addr flags : Nat} {mrange : AllocMemrange}
    {c : Nat × AllocEnt × Nat} (hhi : hi ≤ 2 ^ 31) (hrange : mrange.start ≤ 2 ^ 31)
    (hsz : sz ≠ 0) (h : Keeps lo hi held s) (hc : FitsAt s sz (allocAlign flags) mrange c)
    (hret : findFreeCommit s sz (some c) = .ret addr t) : Keeps lo hi ((addr, sz) :: held) t := by
  obtain ⟨e, r, hu, ⟨hlo, hfit⟩, hr, hvalid, haddrs⟩ :=
    findFreeCommit_cases hhi hrange hsz h hc hret
  apply h.of_arena haddrs hvalid
  have harena := h.arena.perm (hr.map AllocEnt.area) (List.Perm.refl _)
  rw [List.map_cons, AllocEnt.area, hu] at harena
  have hcarved := harena.carve hlo (c := addr + sz) (by omega) hfit
  rwa [← freePiece_area, ← freePiece_area, ← List.map_append, ← List.map_append] at hcarved

/-- What `_find_free` is relied on for. -/
def Allocates (lo hi : Nat) (findFree : Alloc → Nat → Nat → AllocMemrange → AllocRet) : Prop :=
  ∀ (s t : Alloc) (held : List (Nat × Nat)) (sz flags addr : Nat) (mrange : AllocMemrange),
    mrange.start ≤ 2 ^ 31 → sz ≠ 0 → Keeps lo hi held s →
      findFree s sz flags mrange = .ret addr t → addr ≠ 0 → Keeps lo hi ((addr, sz) :: held) t

theorem allocWith_spec {findFree : Alloc → Nat → Nat → AllocMemrange → AllocRet}
    (hF : Allocates lo hi findFree) (h : Keeps lo hi held s) {sz flags addr : Nat}
    (hret : allocWith findFree s sz flags = .ret addr t) : Keeps lo hi ((addr, sz) :: held) t := by
  obtain ⟨mrange, hrange, hsz, hne, hfind⟩ := allocWith_ret hret
  exact hF s t held sz flags addr mrange hrange hsz h hfind hne

/-- A new block brings no valid entry. -/
@[simp] theorem valid_addAllocBlock (s : Alloc) (addr : Nat) :
    (addAllocBlock s addr).valid = s.valid := by
  rw [Alloc.valid, Alloc.entries_addAllocBlock, List.filter_append, ← Alloc.valid,
    List.filter_replicate_of_neg Bool.false_ne_true, List.append_nil]

/-- A block that was allocated goes from what is held to what is chained. -/
theorem Keeps.addAllocBlock {addr : Nat}
    (h : Keeps lo hi ((addr, sizeofAllocBlock) :: held) s) :
    Keeps lo hi held (addAllocBlock s addr) := by
  -- the first block is the static one, so the chain is not empty
  obtain ⟨a, as, haddrs⟩ : ∃ a as, s.addrs = a :: as := by
    cases hc : s.addrs with
    | nil =>
        have hfirst := h.first
        rw [hc] at hfirst
        cases hfirst
    | cons a as => exact ⟨a, as, rfl⟩
  have hchained : (LBoot.Mm.addAllocBlock s addr).chained
      = s.chained ++ [(addr, sizeofAllocBlock)] := by
    rw [Alloc.chained, Alloc.addrs_addAllocBlock, Alloc.chained, haddrs, List.cons_append,
      List.tail_cons, List.tail_cons, List.map_append]
    rfl
  constructor
  · have hfirst := h.first
    rw [haddrs] at hfirst
    rw [Alloc.addrs_addAllocBlock, haddrs, List.cons_append]
    exact hfirst
  · rw [valid_addAllocBlock, hchained]
    apply h.arena.perm (List.Perm.refl _) (List.Perm.map _ _)
    rw [List.cons_append, ← List.append_assoc]
    exact (List.perm_append_singleton _ _).symm

/-- `_find_free` takes what it returns, also when it grows the table first. -/
theorem findFree_allocates (hhi : hi ≤ 2 ^ 31) (fuel : Nat) :
    Allocates lo hi (findFree fuel) := by
  induction fuel with
  | zero =>
      intro s t held sz flags addr mrange _ _ _ hret
      cases hret
  | succ fuel ih =>
      intro s t held sz flags addr mrange hrange hsz h hret hne
      obtain ⟨newblock, s₁, halloc, hagain⟩ | ⟨c, hentry, hcommit⟩ := findFree_ret hret hne
      · exact ih _ t held sz flags addr mrange hrange hsz
          (allocWith_spec ih h halloc).addAllocBlock hagain hne
      · exact findFreeCommit_spec hhi hrange hsz h (findFreeScan_entry hentry) hcommit

/-! ## What a caller has -/

namespace Keeps

variable {a b : Nat × Nat}

/-- What is held lies in the arena. -/
theorem held_bounds (h : Keeps lo hi held s) (ha : a ∈ held) :
    lo ≤ a.1 ∧ 0 < a.2 ∧ a.1 + a.2 ≤ hi := by
  obtain ⟨e, he, -, haddr, hsize⟩ := h.used_entry (List.mem_append_left s.chained ha)
  obtain ⟨hlo, hpos, hhi⟩ := h.bounds he
  exact ⟨by omega, by omega, by omega⟩

/-- An area is apart from those held before. -/
theorem held_apart (h : Keeps lo hi (a :: held) s) (hb : b ∈ held) :
    a.1 + a.2 ≤ b.1 ∨ b.1 + b.2 ≤ a.1 := by
  have hapart := h.arena.taken_apart
  rw [List.cons_append, List.map_cons, List.pairwise_cons] at hapart
  exact hapart.1 _ (List.mem_map_of_mem (List.mem_append_left _ hb))

/-- `alloc` adds an area to what is held. -/
theorem alloc (hhi : hi ≤ 2 ^ 31) (h : Keeps lo hi held s) {sz flags addr : Nat}
    (hret : LBoot.Mm.alloc s sz flags = .ret addr t) : Keeps lo hi ((addr, sz) :: held) t :=
  allocWith_spec (findFree_allocates hhi 2) h hret

end Keeps

/-- The address returned is the one chosen. -/
theorem findFreeCommit_addr {sz addr newAddr : Nat}
    (hret : findFreeCommit s sz (some (i, e, newAddr)) = .ret addr t) : addr = newAddr := by
  have hsplit : ∀ s₁ e₁, splitPrior s i e newAddr = some (s₁, e₁) → e₁.addr = newAddr := by
    intro s₁ e₁ h
    rw [splitPrior] at h
    split at h
    · obtain ⟨s₂, -, heq⟩ := Option.map_eq_some_iff.mp h
      rw [← (Prod.mk.inj heq).2]
    · next heq =>
      rw [← (Prod.mk.inj (Option.some.inj h)).2]
      exact of_not_not heq
  rw [findFreeCommit] at hret
  split at hret
  · cases hret
  · next s₁ e₁ hs =>
    dsimp only at hret
    split at hret
    · cases hret
      exact hsplit _ _ hs
    · split at hret
      · cases hret
      · cases hret
        rfl

/-- What is raised to a multiple of four may wrap around, to one again. -/
theorem allocPlace_dvd {sz start : Nat} {mrange : AllocMemrange}
    (h : allocPlace sz minAlign mrange e = some start) : 4 ∣ start := by
  obtain ⟨x, y, stop, hy, hsome⟩ : ∃ x y stop : Nat,
      y = (if x % 4 ≠ 0 then u32 (x + (4 - x % 4)) else x) ∧
        (if y > stop ∨ stop - y < sz then none else some y) = some start := ⟨_, _, _, rfl, h⟩
  split at hsome
  · cases hsome
  · obtain rfl := Option.some.inj hsome
    apply Nat.dvd_of_mod_eq_zero
    rw [hy]
    split
    · rw [u32]
      omega
    · next h4 => exact not_not.mp h4

/-- Without flags an area starts at a multiple of four. -/
theorem findFree_dvd {fuel sz addr : Nat} {mrange : AllocMemrange} (hne : addr ≠ 0)
    (hret : findFree fuel s sz 0 mrange = .ret addr t) : 4 ∣ addr := by
  induction fuel generalizing s with
  | zero => cases hret
  | succ fuel ih =>
      obtain ⟨newblock, s₁, -, hagain⟩ | ⟨c, hentry, hcommit⟩ := findFree_ret hret hne
      · exact ih hagain
      · obtain ⟨i, e, newAddr⟩ := c
        obtain rfl := findFreeCommit_addr hcommit
        obtain ⟨-, -, -, hplace⟩ := findFreeScan_entry hentry
        exact allocPlace_dvd hplace

theorem alloc_dvd {sz addr : Nat} (hret : alloc s sz 0 = .ret addr t) : 4 ∣ addr := by
  obtain ⟨mrange, -, -, hne, hfind⟩ := allocWith_ret hret
  exact findFree_dvd hne hfind

/-! ## Freeing -/

/-- In the middle of `_do_free`: the slot `i` still holds the used entry, and
    what is freed has grown to `ent`. -/
structure Freeing (lo hi : Nat) (taken : List (Nat × Nat)) (i : Nat) (old : AllocEnt) (s : Alloc)
    (ent : AllocEnt) : Prop where
  slot : s.entries[i]? = some old
  used : old.used = true
  valid : ent.valid = true ∧ old.valid = true
  arena : ∃ r, s.valid.Perm (old :: r) ∧
    Arena lo hi taken ((false, (ent.addr, ent.addr + ent.size)) :: r.map AllocEnt.area)

variable {taken : List (Nat × Nat)} {j : Nat} {old ent ent' x : AllocEnt}

/-- What is freed ends in the arena, and so does a free entry. -/
theorem Freeing.bounds (h : Freeing lo hi taken i old s ent) (hx : s.entries[j]? = some x)
    (hv : x.valid = true) (hu : x.used = false) :
    ent.addr + ent.size ≤ hi ∧ 0 < x.size ∧ x.addr + x.size ≤ hi := by
  obtain ⟨r, hr, harena⟩ := h.arena
  have hmem : x ∈ r := by
    rcases List.mem_cons.mp (hr.mem_iff.mp (mem_valid hx hv)) with rfl | hmem
    · exact absurd (hu.symm.trans h.used) Bool.false_ne_true
    · exact hmem
  have hx' : (x.addr, x.addr + x.size)
      ∈ ((false, (ent.addr, ent.addr + ent.size)) :: r.map AllocEnt.area).map Prod.snd :=
    List.mem_cons_of_mem _ (List.mem_map.mpr ⟨x.area, List.mem_map_of_mem hmem, rfl⟩)
  have hne := harena.tiles.nonempty _ hx'
  dsimp only at hne
  exact ⟨(harena.tiles.within List.mem_cons_self).2, by omega, (harena.tiles.within hx').2⟩

/-- A neighbour that is free is cleared, and what is freed grows by it. -/
theorem Freeing.absorb (h : Freeing lo hi taken i old s ent) (hx : s.entries[j]? = some x)
    (hv : x.valid = true) (hu : x.used = false) (hv' : ent'.valid = true)
    (hjoin : ∀ areas, Arena lo hi taken ((false, (ent.addr, ent.addr + ent.size)) ::
        (false, (x.addr, x.addr + x.size)) :: areas) →
      Arena lo hi taken ((false, (ent'.addr, ent'.addr + ent'.size)) :: areas)) :
    Freeing lo hi taken i old (s.set j { x with valid := false, used := false }) ent' := by
  obtain ⟨r, hr, harena⟩ := h.arena
  have hne : x ≠ old := by
    rintro rfl
    exact absurd (hu.symm.trans h.used) Bool.false_ne_true
  have hij : j ≠ i := by
    rintro rfl
    exact hne (Option.some.inj (hx.symm.trans h.slot))
  obtain ⟨r', hr'⟩ : ∃ r', r.Perm (x :: r') := by
    refine ⟨_, List.perm_cons_erase ?_⟩
    exact (List.mem_cons.mp (hr.mem_iff.mp (mem_valid hx hv))).resolve_left hne
  refine ⟨?_, h.used, ⟨hv', h.valid.2⟩, r', ?_, ?_⟩
  · rw [Alloc.entries_set, List.getElem?_set_ne hij, h.slot]
  · exact clear_valid hx hv rfl (hr.trans ((hr'.cons old).trans (List.Perm.swap x old r')))
  · have hgrown := harena.perm ((hr'.map AllocEnt.area).cons _) (List.Perm.refl _)
    rw [List.map_cons, AllocEnt.area, hu] at hgrown
    exact hjoin _ hgrown

theorem joinPre_addrs (s : Alloc) (ent : AllocEnt) (pre : Option (Nat × AllocEnt)) :
    (joinPre s ent pre).1.addrs = s.addrs := by
  cases pre with
  | none => rfl
  | some c => exact Alloc.addrs_set _ _ _

theorem joinPost_addrs (s : Alloc) (ent : AllocEnt) (post : Option (Nat × AllocEnt)) :
    (joinPost s ent post).1.addrs = s.addrs := by
  cases post with
  | none => rfl
  | some c =>
      rw [joinPost]
      split
      · exact Alloc.addrs_set _ _ _
      · rfl

theorem joinPre_spec (hhi : hi ≤ 2 ^ 31) (h : Freeing lo hi taken i old s ent)
    (pre : Option (Nat × AllocEnt)) (hpre : ∀ j x, pre = some (j, x) →
      s.entries[j]? = some x ∧ x.valid = true ∧ x.used = false ∧ u32 (x.addr + x.size) = ent.addr) :
    Freeing lo hi taken i old (joinPre s ent pre).1 (joinPre s ent pre).2 := by
  cases pre with
  | none => exact h
  | some c =>
      obtain ⟨j, x⟩ := c
      obtain ⟨hx, hv, hu, htouch⟩ := hpre j x rfl
      obtain ⟨hend, -, hxend⟩ := h.bounds hx hv hu
      rw [u32_of_lt (by omega)] at htouch
      rw [joinPre]
      refine h.absorb hx hv hu h.valid.1 fun areas harena => ?_
      have hswap := harena.perm (List.Perm.swap _ _ _) (List.Perm.refl _)
      rw [htouch] at hswap
      have hstop : x.addr + (ent.size + x.size) = ent.addr + ent.size := by omega
      rw [u32_of_lt (by omega), hstop]
      exact hswap.join

theorem joinPost_spec (hhi : hi ≤ 2 ^ 31) (h : Freeing lo hi taken i old s ent)
    (post : Option (Nat × AllocEnt)) (hpost : ∀ j x, post = some (j, x) →
      s.entries[j]? = some x ∧ x.valid = true ∧ x.used = false) :
    Freeing lo hi taken i old (joinPost s ent post).1 (joinPost s ent post).2 := by
  cases post with
  | none => exact h
  | some c =>
      obtain ⟨j, x⟩ := c
      obtain ⟨hx, hv, hu⟩ := hpost j x rfl
      obtain ⟨hend, -, hxend⟩ := h.bounds hx hv hu
      rw [joinPost]
      split
      · next htouch =>
        rw [u32_of_lt (by omega)] at htouch
        refine h.absorb hx hv hu h.valid.1 fun areas harena => ?_
        rw [htouch] at harena
        have hstop : ent.addr + (ent.size + x.size) = x.addr + x.size := by omega
        dsimp only
        rw [u32_of_lt (by omega), hstop]
        exact harena.join
      · exact h

/-- What `_do_free` does with the entries it found: it joins what is freed with
    the one before, then with the one behind, and drops the flag. -/
theorem doFree_freeing (hhi : hi ≤ 2 ^ 31) (h : Keeps lo hi held s) {a : Nat × Nat}
    (ha : a ∈ held) (hfree : doFree s a.1 = some t) :
    ∃ (i : Nat) (ent ent₁ ent₂ : AllocEnt) (s₁ s₂ : Alloc),
      (s.entries[i]? = some ent ∧ ent.valid = true ∧ ent.used = true ∧ ent.addr = a.1) ∧
      joinPre s ent (freeScan s a.1).pre = (s₁, ent₁) ∧
      joinPost s₁ ent₁ (freeScan s a.1).post = (s₂, ent₂) ∧
      Freeing lo hi ((held.erase a ++ s.chained).map span) i ent s₂ ent₂ ∧
      t = s₂.set i { ent₂ with used := false } := by
  have hfound := freeScan_found s a.1
  rw [doFree] at hfree
  cases hent : (freeScan s a.1).ent with
  | none =>
      rw [hent] at hfree
      cases hfree
  | some c =>
      obtain ⟨i, ent⟩ := c
      obtain ⟨hslot, hv, hu, haddr⟩ := hfound.ent i ent hent
      have hmem := mem_valid hslot hv
      obtain ⟨-, -, hend⟩ := h.bounds hmem
      -- the entry found is the one that was returned
      obtain ⟨e, he, -, headdr, hesize⟩ := h.used_entry (List.mem_append_left s.chained ha)
      have hsize : ent.size = a.2 := (h.size_unique hmem he (haddr.trans headdr.symm)).trans hesize
      have hspan : span a = (ent.addr, ent.addr + ent.size) := by rw [span, haddr, hsize]
      have hstart : Freeing lo hi ((held.erase a ++ s.chained).map span) i ent s ent := by
        obtain ⟨r, hr⟩ := exists_others hmem
        refine ⟨hslot, hu, ⟨hv, hv⟩, r, hr, ?_⟩
        have harena := h.arena.perm (hr.map AllocEnt.area)
          (((List.perm_cons_erase ha).append_right s.chained).map span)
        rw [List.map_cons, AllocEnt.area, hu, List.cons_append, List.map_cons, hspan] at harena
        exact harena.release
      have hpre := joinPre_spec hhi hstart (freeScan s a.1).pre (by
        intro j x hx
        obtain ⟨hxj, hxv, hxu, htouch⟩ := hfound.pre j x hx
        exact ⟨hxj, hxv, hxu, by rw [htouch, haddr]⟩)
      have hpost := joinPost_spec hhi hpre (freeScan s a.1).post (by
        intro j x hx
        obtain ⟨hxj, hxv, hxu, hgt⟩ := hfound.post j x hx
        refine ⟨?_, hxv, hxu⟩
        cases hp : (freeScan s a.1).pre with
        | none => exact hxj
        | some d =>
            obtain ⟨k, y⟩ := d
            obtain ⟨hyk, hyv, -, htouch⟩ := hfound.pre k y hp
            obtain ⟨-, hysize, hyend⟩ := h.bounds (mem_valid hyk hyv)
            rw [u32_of_lt (by omega)] at htouch
            -- the entry before is not the entry behind
            have hne : k ≠ j := by
              rintro rfl
              obtain rfl := Option.some.inj (hyk.symm.trans hxj)
              omega
            rw [joinPre, Alloc.entries_set, List.getElem?_set_ne hne, hxj])
      rw [hent] at hfree
      dsimp only at hfree
      cases hfree
      exact ⟨i, ent, _, _, _, _, ⟨hslot, hv, hu, haddr⟩, rfl, rfl, hpost, rfl⟩

/-- `free` of something held releases exactly that. -/
theorem doFree_spec (hhi : hi ≤ 2 ^ 31) (h : Keeps lo hi held s) {a : Nat × Nat} (ha : a ∈ held)
    (hfree : doFree s a.1 = some t) : Keeps lo hi (held.erase a) t ∧ t.addrs = s.addrs := by
  obtain ⟨i, ent, ent₁, ent₂, s₁, s₂, -, hpre, hpost, hfreeing, rfl⟩ :=
    doFree_freeing hhi h ha hfree
  obtain ⟨r, hr, harena⟩ := hfreeing.arena
  have haddrs₁ : s₁.addrs = s.addrs := by
    rw [← joinPre_addrs s ent (freeScan s a.1).pre, hpre]
  have haddrs₂ : s₂.addrs = s₁.addrs := by
    rw [← joinPost_addrs s₁ ent₁ (freeScan s a.1).post, hpost]
  have haddrs : (s₂.set i { ent₂ with used := false }).addrs = s.addrs := by
    rw [Alloc.addrs_set, haddrs₂, haddrs₁]
  exact ⟨h.of_arena haddrs
    (set_valid _ hfreeing.slot hfreeing.valid.2 hfreeing.valid.1 hr) harena, haddrs⟩

/-! ## Runs -/

theorem firstBlock_bounds {base : Nat} (h : base ≤ 2 ^ 31) :
    base ≤ firstBlock base ∧ firstBlock base ≤ base + 3 := by
  rw [firstBlock]
  split
  · rw [u32_of_lt (by omega)]
    omega
  · omega

/-- `alloc_init` makes one entry, in the first block. -/
theorem allocInit_valid {base size : Nat} (hinit : allocInit base size = some s) :
    s.addrs = [firstBlock base] ∧
      s.valid = [⟨true, false, u32 (firstBlock base + sizeofAllocBlock),
        sub32 size (sub32 (u32 (firstBlock base + sizeofAllocBlock)) base)⟩] := by
  rw [allocInit] at hinit
  by_cases hzero : firstBlock base = 0
  · rw [if_pos hzero] at hinit
    cases hinit
  · rw [if_neg hzero] at hinit
    obtain ⟨hvalid, haddrs, -⟩ := addAlloc_valid hinit rfl
    have hnone : (⟨[zeroAllocBlock (firstBlock base)]⟩ : Alloc).valid = [] := by
      rw [Alloc.valid, Alloc.entries, List.flatMap_singleton, zeroAllocBlock,
        Vector.toList_replicate, List.filter_replicate_of_neg Bool.false_ne_true]
    rw [hnone] at hvalid
    exact ⟨haddrs, List.perm_singleton.mp hvalid⟩

/-- At first everything behind the first block is free. -/
theorem allocInit_keeps {base size : Nat} (hfit : base + size ≤ 2 ^ 31)
    (hroom : firstBlock base + sizeofAllocBlock < base + size)
    (hinit : allocInit base size = some s) :
    Keeps (firstBlock base + sizeofAllocBlock) (base + size) [] s := by
  obtain ⟨hge, hle⟩ := @firstBlock_bounds base (by omega)
  have hnew : u32 (firstBlock base + sizeofAllocBlock) = firstBlock base + sizeofAllocBlock :=
    u32_of_lt (by omega)
  have hdiff : sub32 (firstBlock base + sizeofAllocBlock) base
      = firstBlock base + sizeofAllocBlock - base := sub32_of_le (by omega) (by omega)
  have hsize : sub32 size (firstBlock base + sizeofAllocBlock - base)
      = size - (firstBlock base + sizeofAllocBlock - base) := sub32_of_le (by omega) (by omega)
  obtain ⟨haddrs, hvalid⟩ := allocInit_valid hinit
  rw [hnew, hdiff, hsize] at hvalid
  refine ⟨by rw [haddrs]; rfl, ?_⟩
  have hstop : firstBlock base + sizeofAllocBlock
      + (size - (firstBlock base + sizeofAllocBlock - base)) = base + size := by omega
  have hchained : s.chained = [] := by rw [Alloc.chained, haddrs]; rfl
  rw [hchained, hvalid, List.map_singleton, AllocEnt.area]
  dsimp only
  rw [hstop]
  exact Arena.single hroom

/-- Every call keeps the arena. -/
theorem allocMachine_step (hhi : hi ≤ 2 ^ 31) {u v : AllocRun} {call : AllocCall}
    (h : Keeps lo hi u.live u.heap) (hstep : allocMachine.step u call = some v) :
    Keeps lo hi v.live v.heap := by
  obtain ⟨sz, flags, addr, heap, rfl, halloc, rfl⟩ | ⟨a, heap, rfl, hmem, hfree, rfl⟩ :=
    allocMachine_cases hstep
  · exact allocWith_spec (findFree_allocates hhi 2) h halloc
  · exact (doFree_spec hhi h hmem hfree).1

/-- What callers rely on, for memory from `base` to `hi` behind the block at
    `base`. -/
structure Partitioned (base hi : Nat) (u : AllocRun) : Prop where
  /-- valid entries are apart -/
  disjoint : u.heap.valid.Pairwise fun e f => e.addr + e.size ≤ f.addr ∨ f.addr + f.size ≤ e.addr
  /-- no byte is lost -/
  cover : ∀ x, (∃ e ∈ u.heap.valid, e.addr ≤ x ∧ x < e.addr + e.size) ↔
    base + sizeofAllocBlock ≤ x ∧ x < hi
  /-- what is live has a used entry of its size -/
  live : ∀ a ∈ u.live, ∃ e ∈ u.heap.valid, e.used = true ∧ e.addr = a.1 ∧ e.size = a.2
  /-- the first block is where it was put -/
  first : u.heap.addrs.head? = some base
  /-- the other blocks lie in used entries that are nobody's -/
  chained : ∀ b ∈ u.heap.addrs.tail, ∃ e ∈ u.heap.valid, e.used = true ∧ e.addr ≤ b ∧
    b + sizeofAllocBlock ≤ e.addr + e.size ∧ ∀ a ∈ u.live, a.1 ≠ e.addr
  /-- live areas and blocks do not overlap -/
  apart : ((u.live ++ u.heap.addrs.map fun b => (b, sizeofAllocBlock)).map span).Pairwise Apart

theorem Keeps.partitioned {base : Nat} {u : AllocRun}
    (h : Keeps (base + sizeofAllocBlock) hi u.live u.heap) : Partitioned base hi u := by
  obtain ⟨as, haddrs⟩ : ∃ as, u.heap.addrs = base :: as := by
    cases hc : u.heap.addrs with
    | nil =>
        have hfirst := h.first
        rw [hc] at hfirst
        cases hfirst
    | cons a as =>
        have hfirst := h.first
        rw [hc] at hfirst
        exact ⟨as, by rw [Nat.add_right_cancel (Option.some.inj hfirst)]⟩
  have hareas : (u.heap.valid.map AllocEnt.area).map Prod.snd
      = u.heap.valid.map fun e => (e.addr, e.addr + e.size) := List.map_map
  have hapart := h.arena.taken_apart
  constructor
  · have htiles := h.arena.tiles.apart
    rw [hareas, List.pairwise_map] at htiles
    exact htiles
  · intro x
    rw [h.arena.tiles.cover, hareas]
    simp only [List.mem_map, exists_exists_and_eq_and]
  · exact fun a ha => h.used_entry (List.mem_append_left _ ha)
  · rw [haddrs]
    rfl
  · intro b hb
    have hmem : (b, sizeofAllocBlock) ∈ u.heap.chained := List.mem_map_of_mem hb
    obtain ⟨e, he, hused, haddr, hsize⟩ := h.used_entry (List.mem_append_right u.live hmem)
    refine ⟨e, he, hused, Nat.le_of_eq haddr, by rw [haddr, hsize], fun a ha heq => ?_⟩
    -- a live area at the same address would overlap the block
    rw [List.map_append] at hapart
    have hcross := (List.pairwise_append.mp hapart).2.2 _ (List.mem_map_of_mem ha) _
      (List.mem_map_of_mem hmem)
    obtain ⟨e', he', -, haddr', hsize'⟩ := h.used_entry (List.mem_append_left u.heap.chained ha)
    have hpos := (h.bounds he').2.1
    have hblock : 0 < sizeofAllocBlock := by decide
    rw [Apart, span, span] at hcross
    dsimp only at hcross
    omega
  · -- the first block lies below everything the entries describe
    have hperm : (u.live ++ u.heap.addrs.map fun b => (b, sizeofAllocBlock)).Perm
        ((base, sizeofAllocBlock) :: (u.live ++ u.heap.chained)) := by
      rw [Alloc.chained, haddrs, List.map_cons, List.tail_cons]
      exact List.perm_middle
    apply List.Pairwise.perm _ (hperm.symm.map span) fun hap => Std.Symm.symm _ _ hap
    rw [List.map_cons, List.pairwise_cons]
    refine ⟨fun s hs => Or.inl ?_, hapart⟩
    exact (h.arena.tiles.within (List.mem_map_of_mem (h.arena.mem_of_taken hs))).1

/-- For every base and size below `2^31` with room behind the first block, and
    every sequence of calls that does not panic and frees only what is live:
    the memory behind the first block is partitioned. -/
theorem alloc_partition (base size : Nat) (hfit : base + size ≤ 2 ^ 31)
    (hroom : firstBlock base + sizeofAllocBlock < base + size) (calls : List AllocCall)
    {u : AllocRun}
    (hrun : (allocInit base size).bind (fun s => allocMachine.run ⟨s, []⟩ calls) = some u) :
    Partitioned (firstBlock base) (base + size) u := by
  obtain ⟨s, hinit, hcalls⟩ := Option.bind_eq_some_iff.mp hrun
  apply Keeps.partitioned
  exact Machine.run_invariant (I := fun v : AllocRun => Keeps _ (base + size) v.live v.heap)
    (fun v call w hv hstep => allocMachine_step hfit hv hstep)
    (allocInit_keeps hfit hroom hinit) hcalls

/-- An unaligned base; two areas, of which the lower one is freed. -/
theorem alloc_partition_two :
    ∃ u, ((allocInit 0x7e01 0x78000).bind fun s => allocMachine.run ⟨s, []⟩
        [.alloc 100 0, .alloc 8 allocFlag16b, .free 0x10000]) = some u ∧
      u.live = [(0x8408, 8)] ∧ Partitioned 0x7e04 0x7fe01 u := by
  have hlive : ((allocInit 0x7e01 0x78000).bind fun s => allocMachine.run ⟨s, []⟩
      [.alloc 100 0, .alloc 8 allocFlag16b, .free 0x10000]).map AllocRun.live
      = some [(0x8408, 8)] := by
    decide +kernel
  obtain ⟨u, hu, hl⟩ := Option.map_eq_some_iff.mp hlive
  exact ⟨u, hu, hl, alloc_partition 0x7e01 0x78000 (by decide) (by decide) _ hu⟩

end LBoot.Mm
