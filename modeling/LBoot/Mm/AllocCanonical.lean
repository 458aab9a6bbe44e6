/-
  LBoot.Mm.AllocCanonical

  The allocator's free list is canonical, in every state a run can reach.

  No call leaves two free entries that touch.  `alloc` puts the area it
  returns between the pieces it leaves of a free entry
  (`findFreeCommit_coalesced`); `free` may miss a neighbour only if the scan
  did, and the scan finds whatever stops at the address and the nearest free
  entry behind it (`doFree_coalesced`).  So the free entries are the gaps
  between the used ones, and what is used decides what is free: the order of
  the calls that led there does not matter.
-/

import LBoot.Lib.Coalesced
import LBoot.Mm.AllocPartition
import Mathlib.Data.List.Nodup

namespace LBoot.Mm

open LBoot.Lib

/-- The areas of the free entries. -/
def Alloc.freeRegions (s : Alloc) : List (Nat × Nat) :=
  (s.valid.filter fun e => !e.used).map fun e => (e.addr, e.size)

/-- The areas of the used entries. -/
def Alloc.usedRegions (s : Alloc) : List (Nat × Nat) :=
  (s.valid.filter fun e => e.used).map fun e => (e.addr, e.size)

variable {lo hi : Nat} {held : List (Nat × Nat)} {s t : Alloc} {i : Nat} {e e' x : AllocEnt}
  {r : List AllocEnt}

/-- No free entry stops where another one starts. -/
theorem coalesced_iff : Coalesced (s.valid.map AllocEnt.area) ↔ ∀ e ∈ s.valid, ∀ f ∈ s.valid,
    e.used = false → f.used = false → e.addr + e.size ≠ f.addr := by
  rw [Coalesced, List.forall_mem_map]
  refine forall₂_congr fun e _ => ?_
  rw [List.forall_mem_map]
  rfl

theorem mem_valid_iff : x ∈ s.valid ↔ x ∈ s.entries ∧ x.valid = true := List.mem_filter

/-- A free entry and a used one have no byte in common. -/
theorem Keeps.apart (h : Keeps lo hi held s) (he : e ∈ s.valid) (he' : e' ∈ s.valid)
    (hfree : e.used = false) (hused : e'.used = true) :
    e.addr + e.size ≤ e'.addr ∨ e'.addr + e'.size ≤ e.addr := by
  obtain ⟨-, hpos, -⟩ := h.bounds he
  obtain ⟨-, hpos', -⟩ := h.bounds he'
  by_contra hover
  have heq := h.arena.eq_of_common (List.mem_map_of_mem he) (List.mem_map_of_mem he')
    (p := max e.addr e'.addr)
    ⟨Nat.le_max_left _ _, by rw [AllocEnt.area]; dsimp only; omega⟩
    ⟨Nat.le_max_right _ _, by rw [AllocEnt.area]; dsimp only; omega⟩
  have hflag : e.used = e'.used := congrArg Prod.fst heq
  rw [hfree, hused] at hflag
  exact Bool.false_ne_true hflag

/-! ## Allocating -/

/-- The area returned lies between the pieces. -/
theorem findFreeCommit_coalesced {sz addr flags : Nat} {mrange : AllocMemrange}
    {c : Nat × AllocEnt × Nat} (hhi : hi ≤ 2 ^ 31) (hrange : mrange.start ≤ 2 ^ 31)
    (hsz : sz ≠ 0) (h : Keeps lo hi held s) (hcoal : Coalesced (s.valid.map AllocEnt.area))
    (hc : FitsAt s sz (allocAlign flags) mrange c)
    (hret : findFreeCommit s sz (some c) = .ret addr t) :
    Coalesced (t.valid.map AllocEnt.area) ∧ t.addrs = s.addrs := by
  obtain ⟨e, r, hu, ⟨hlo, hfit⟩, hr, hvalid, haddrs⟩ :=
    findFreeCommit_cases hhi hrange hsz h hc hret
  refine ⟨Coalesced.perm ?_ (hvalid.symm.map AllocEnt.area), haddrs⟩
  have harena := h.arena.perm (hr.map AllocEnt.area) (List.Perm.refl _)
  have hbefore := hcoal.perm (hr.map AllocEnt.area)
  rw [List.map_cons, AllocEnt.area, hu] at harena hbefore
  have hcarved := harena.carve_coalesced hbefore hlo (c := addr + sz) (by omega) hfit
  rwa [← freePiece_area, ← freePiece_area, ← List.map_append, ← List.map_append] at hcarved

/-- What else `_find_free` is relied on for.  The table grows at its end. -/
def Coalesces (lo hi : Nat) (findFree : Alloc → Nat → Nat → AllocMemrange → AllocRet) : Prop :=
  ∀ (s t : Alloc) (held : List (Nat × Nat)) (sz flags addr : Nat) (mrange : AllocMemrange),
    mrange.start ≤ 2 ^ 31 → sz ≠ 0 → Keeps lo hi held s →
      Coalesced (s.valid.map AllocEnt.area) → findFree s sz flags mrange = .ret addr t →
        addr ≠ 0 → Coalesced (t.valid.map AllocEnt.area) ∧ s.addrs <+: t.addrs

theorem allocWith_coalesced {findFree : Alloc → Nat → Nat → AllocMemrange → AllocRet}
    (hF : Coalesces lo hi findFree) (h : Keeps lo hi held s)
    (hcoal : Coalesced (s.valid.map AllocEnt.area)) {sz flags addr : Nat}
    (hret : allocWith findFree s sz flags = .ret addr t) :
    Coalesced (t.valid.map AllocEnt.area) ∧ s.addrs <+: t.addrs := by
  obtain ⟨mrange, hrange, hsz, hne, hfind⟩ := allocWith_ret hret
  exact hF s t held sz flags addr mrange hrange hsz h hcoal hfind hne

theorem findFree_coalesces (hhi : hi ≤ 2 ^ 31) (fuel : Nat) :
    Coalesces lo hi (findFree fuel) := by
  induction fuel with
  | zero =>
      intro s t held sz flags addr mrange _ _ _ _ hret
      cases hret
  | succ fuel ih =>
      intro s t held sz flags addr mrange hrange hsz h hcoal hret hne
      obtain ⟨newblock, s₁, halloc, hagain⟩ | ⟨c, hentry, hcommit⟩ := findFree_ret hret hne
      · obtain ⟨hcoal₁, hgrow₁⟩ := allocWith_coalesced ih h hcoal halloc
        rw [← valid_addAllocBlock s₁ newblock] at hcoal₁
        obtain ⟨hcoal₂, hgrow₂⟩ := ih _ t held sz flags addr mrange hrange hsz
          (allocWith_spec (findFree_allocates hhi fuel) h halloc).addAllocBlock hcoal₁ hagain hne
        rw [Alloc.addrs_addAllocBlock] at hgrow₂
        exact ⟨hcoal₂, hgrow₁.trans ((List.prefix_append _ _).trans hgrow₂)⟩
      · obtain ⟨hcoal', haddrs⟩ := findFreeCommit_coalesced hhi hrange hsz h hcoal
          (findFreeScan_entry hentry) hcommit
        exact ⟨hcoal', haddrs ▸ List.prefix_refl _⟩

/-! ## Freeing -/

/-- A write adds at most the entry written. -/
theorem mem_valid_set (hx : x ∈ (s.set i e).valid) : x = e ∨ x ∈ s.valid := by
  obtain ⟨hmem, hv⟩ := mem_valid_iff.mp hx
  rw [Alloc.entries_set] at hmem
  exact (List.mem_or_eq_of_mem_set hmem).symm.imp_right fun hold => mem_valid_iff.mpr ⟨hold, hv⟩

/-- Clearing a slot adds nothing. -/
theorem mem_valid_clear (he : e.valid = false) (hx : x ∈ (s.set i e).valid) : x ∈ s.valid := by
  rcases mem_valid_set hx with rfl | hold
  · exact absurd (he.symm.trans (mem_valid_iff.mp hx).2) Bool.false_ne_true
  · exact hold

variable {ent : AllocEnt} {addr : Nat}

theorem joinPre_valid {pre : Option (Nat × AllocEnt)} (hx : x ∈ (joinPre s ent pre).1.valid) :
    x ∈ s.valid := by
  cases pre with
  | none => exact hx
  | some c => exact mem_valid_clear rfl hx

theorem joinPost_valid {post : Option (Nat × AllocEnt)}
    (hx : x ∈ (joinPost s ent post).1.valid) : x ∈ s.valid := by
  cases post with
  | none => exact hx
  | some c =>
      rw [joinPost] at hx
      split at hx
      · exact mem_valid_clear rfl hx
      · exact hx

/-- The second join leaves the start where it is. -/
theorem joinPost_addr (s : Alloc) (ent : AllocEnt) (post : Option (Nat × AllocEnt)) :
    (joinPost s ent post).2.addr = ent.addr := by
  cases post with
  | none => rfl
  | some c =>
      rw [joinPost]
      split <;> rfl

/-- Behind the first join no free entry stops where the one that is freed
    starts: its neighbour was found, and the neighbour had none itself. -/
theorem joinPre_untouched (hhi : hi ≤ 2 ^ 31) (h : Keeps lo hi held s)
    (hcoal : Coalesced (s.valid.map AllocEnt.area)) (ent : AllocEnt) (hx : x ∈ s.valid)
    (hxfree : x.used = false) :
    x.addr + x.size ≠ (joinPre s ent (freeScan s ent.addr).pre).2.addr := by
  obtain ⟨-, -, hxend⟩ := h.bounds hx
  obtain ⟨hxmem, hxvalid⟩ := mem_valid_iff.mp hx
  cases hpre : (freeScan s ent.addr).pre with
  | none =>
      intro htouch
      refine freeScan_pre_isSome hxmem hxvalid hxfree ?_ hpre
      rw [u32_of_lt (by omega)]
      exact htouch
  | some c =>
      obtain ⟨j, p⟩ := c
      obtain ⟨hp, hpvalid, hpfree, -⟩ := (freeScan_found s ent.addr).pre j p hpre
      exact coalesced_iff.mp hcoal x hx p (mem_valid hp hpvalid) hxfree hpfree

/-- The first join leaves the end where it is. -/
theorem joinPre_stop (hhi : hi ≤ 2 ^ 31) (h : Keeps lo hi held s) (hent : ent ∈ s.valid) :
    (joinPre s ent (freeScan s ent.addr).pre).2.addr
      + (joinPre s ent (freeScan s ent.addr).pre).2.size = ent.addr + ent.size := by
  obtain ⟨-, -, hend⟩ := h.bounds hent
  cases hpre : (freeScan s ent.addr).pre with
  | none => rfl
  | some c =>
      obtain ⟨j, p⟩ := c
      obtain ⟨hp, hpvalid, -, htouch⟩ := (freeScan_found s ent.addr).pre j p hpre
      obtain ⟨-, -, hpend⟩ := h.bounds (mem_valid hp hpvalid)
      rw [u32_of_lt (by omega)] at htouch
      rw [joinPre]
      dsimp only
      rw [u32_of_lt (by omega)]
      omega

/-- Behind the second join no free entry starts where the one that is freed
    stops.  The scan looks for the nearest free entry behind the address; one
    that touches is the nearest. -/
theorem joinPost_untouched (hhi : hi ≤ 2 ^ 31) (h : Keeps lo hi held s)
    (hcoal : Coalesced (s.valid.map AllocEnt.area)) (hent : ent ∈ s.valid)
    (hused : ent.used = true) (hx : x ∈ s.valid) (hxfree : x.used = false) {s₁ s₂ : Alloc}
    {ent₁ ent₂ : AllocEnt} (hstop₁ : ent₁.addr + ent₁.size = ent.addr + ent.size)
    (hpost : joinPost s₁ ent₁ (freeScan s ent.addr).post = (s₂, ent₂)) :
    ent₂.addr + ent₂.size ≠ x.addr := by
  obtain ⟨-, hpos, hend⟩ := h.bounds hent
  obtain ⟨-, hxpos, hxend⟩ := h.bounds hx
  obtain ⟨hxmem, hxvalid⟩ := mem_valid_iff.mp hx
  -- where a free entry touches what is freed, the scan found one
  have hfind : ent.addr + ent.size = x.addr →
      ∃ j p, (freeScan s ent.addr).post = some (j, p) ∧ p.addr ≤ x.addr := by
    intro htouch
    refine freeScan_post_le hxmem hxvalid hxfree ?_ (by omega)
    rw [u32_of_lt (by omega)]
    omega
  cases hfound : (freeScan s ent.addr).post with
  | none =>
      rw [hfound] at hpost
      cases hpost
      intro htouch
      obtain ⟨j, p, hp, -⟩ := hfind (hstop₁.symm.trans htouch)
      rw [hfound] at hp
      cases hp
  | some c =>
      obtain ⟨j, p⟩ := c
      obtain ⟨hp, hpvalid, hpfree, hgt⟩ := (freeScan_found s ent.addr).post j p hfound
      have hpmem := mem_valid hp hpvalid
      obtain ⟨-, -, hpend⟩ := h.bounds hpmem
      rw [hfound, joinPost, u32_of_lt (by omega)] at hpost
      split at hpost
      · next htouch =>
        obtain ⟨-, rfl⟩ := Prod.mk.inj hpost
        dsimp only
        rw [u32_of_lt (by omega)]
        intro hnext
        exact coalesced_iff.mp hcoal p hpmem x hx hpfree hxfree (by omega)
      · next hno =>
        cases hpost
        intro htouch
        obtain ⟨k, q, hq, hle⟩ := hfind (hstop₁.symm.trans htouch)
        rw [hfound, Option.some.injEq] at hq
        obtain ⟨rfl, rfl⟩ := Prod.mk.inj hq
        -- the nearest one is not inside what is freed
        have hapart := h.apart hpmem hent hpfree hused
        omega

/-- `free` leaves no two free entries that touch. -/
theorem doFree_coalesced (hhi : hi ≤ 2 ^ 31) (h : Keeps lo hi held s)
    (hcoal : Coalesced (s.valid.map AllocEnt.area)) {a : Nat × Nat} (ha : a ∈ held)
    (hfree : doFree s a.1 = some t) : Coalesced (t.valid.map AllocEnt.area) := by
  obtain ⟨hkeep, -⟩ := doFree_spec hhi h ha hfree
  obtain ⟨i, ent, ent₁, ent₂, s₁, s₂, ⟨hslot, hv, hu, haddr⟩, hpre, hpost, hfreeing, rfl⟩ :=
    doFree_freeing hhi h ha hfree
  rw [← haddr] at hpre hpost
  obtain ⟨r, hr, -⟩ := hfreeing.arena
  have hvalid := set_valid { ent₂ with used := false } hfreeing.slot hfreeing.valid.2
    hfreeing.valid.1 hr
  have hmem := mem_valid hslot hv
  have hstop₁ : ent₁.addr + ent₁.size = ent.addr + ent.size := by
    have hstop := joinPre_stop hhi h hmem
    rwa [hpre] at hstop
  have hstart₂ : ent₂.addr = ent₁.addr := by
    rw [← joinPost_addr s₁ ent₁ (freeScan s ent.addr).post, hpost]
  -- the others were there before
  have hold : ∀ x ∈ r, x ∈ s.valid := by
    intro x hx
    have hx₂ : x ∈ s₂.valid := hr.mem_iff.mpr (List.mem_cons_of_mem _ hx)
    have hx₁ : x ∈ s₁.valid := joinPost_valid (by rw [hpost]; exact hx₂)
    exact joinPre_valid (by rw [hpre]; exact hx₁)
  refine coalesced_iff.mpr fun x hx y hy hxfree hyfree htouch => ?_
  rcases List.mem_cons.mp (hvalid.mem_iff.mp hx) with rfl | hxr
  · rcases List.mem_cons.mp (hvalid.mem_iff.mp hy) with rfl | hyr
    · obtain ⟨-, hpos, -⟩ := hkeep.bounds hx
      omega
    · exact joinPost_untouched hhi h hcoal hmem hu (hold y hyr) hyfree hstop₁ hpost htouch
  · rcases List.mem_cons.mp (hvalid.mem_iff.mp hy) with rfl | hyr
    · have huntouched := joinPre_untouched hhi h hcoal ent (hold x hxr) hxfree
      rw [hpre] at huntouched
      exact huntouched (htouch.trans hstart₂)
    · exact coalesced_iff.mp hcoal x (hold x hxr) y (hold y hyr) hxfree hyfree htouch

/-- What is held can be freed. -/
theorem doFree_isSome (h : Keeps lo hi held s) {a : Nat × Nat} (ha : a ∈ held) :
    ∃ t, doFree s a.1 = some t := by
  obtain ⟨e, he, hused, haddr, -⟩ := h.used_entry (List.mem_append_left s.chained ha)
  obtain ⟨hmem, hv⟩ := mem_valid_iff.mp he
  rw [doFree]
  cases hent : (freeScan s a.1).ent with
  | none => exact absurd hent (freeScan_ent_isSome hmem hv hused haddr)
  | some c => exact ⟨_, rfl⟩

/-! ## What is used decides what is free -/

/-- The free regions are the free areas of the arena. -/
theorem freeRegions_map_span (s : Alloc) : s.freeRegions.map span
    = ((s.valid.map AllocEnt.area).filter fun a => !a.1).map Prod.snd := by
  rw [Alloc.freeRegions, List.filter_map, List.map_map, List.map_map]
  rfl

/-- The used regions are what is taken. -/
theorem usedRegions_map_span (s : Alloc) : s.usedRegions.map span
    = ((s.valid.map AllocEnt.area).filter Prod.fst).map Prod.snd := by
  rw [Alloc.usedRegions, List.filter_map, List.map_map, List.map_map]
  rfl

theorem mem_freeRegions_span {a : Nat × Nat} :
    a ∈ s.freeRegions.map span ↔ (false, a) ∈ s.valid.map AllocEnt.area := by
  rw [freeRegions_map_span, List.mem_map]
  constructor
  · rintro ⟨⟨used, a⟩, hmem, rfl⟩
    obtain ⟨hmem, hfree⟩ := List.mem_filter.mp hmem
    cases used with
    | false => exact hmem
    | true => cases hfree
  · intro hmem
    exact ⟨_, List.mem_filter.mpr ⟨hmem, rfl⟩, rfl⟩

/-- The free regions are the gaps between the used ones. -/
theorem Keeps.mem_freeRegions (h : Keeps lo hi held s)
    (hcoal : Coalesced (s.valid.map AllocEnt.area)) (a : Nat × Nat) :
    a ∈ s.freeRegions.map span ↔ Gap lo hi (s.usedRegions.map span) a := by
  rw [mem_freeRegions_span, h.arena.free_iff_gap hcoal, usedRegions_map_span]
  exact gap_congr fun b => h.arena.held.mem_iff.symm

theorem span_injective : Function.Injective span := by
  intro a b heq
  obtain ⟨hstart, hstop⟩ := Prod.mk.inj heq
  exact Prod.ext hstart (by omega)

theorem Keeps.freeRegions_nodup (h : Keeps lo hi held s) : s.freeRegions.Nodup := by
  have hsub : (s.freeRegions.map span).Sublist ((s.valid.map AllocEnt.area).map Prod.snd) := by
    rw [freeRegions_map_span]
    exact List.filter_sublist.map Prod.snd
  have hnodup := nodup_of_apart h.arena.tiles.nonempty h.arena.tiles.apart
  exact List.Nodup.of_map span (hnodup.sublist hsub)

/-- Two tables that keep the same areas have the same free regions. -/
theorem Keeps.freeRegions_perm {held' : List (Nat × Nat)} (hs : Keeps lo hi held s)
    (hscoal : Coalesced (s.valid.map AllocEnt.area)) (ht : Keeps lo hi held' t)
    (htcoal : Coalesced (t.valid.map AllocEnt.area)) (haddrs : s.addrs = t.addrs)
    (hheld : ∀ a, a ∈ held ↔ a ∈ held') : s.freeRegions.Perm t.freeRegions := by
  have hchained : s.chained = t.chained := by rw [Alloc.chained, haddrs, Alloc.chained]
  rw [List.perm_ext_iff_of_nodup hs.freeRegions_nodup ht.freeRegions_nodup]
  intro a
  have hsmem := List.mem_map_of_injective span_injective (a := a) (l := s.freeRegions)
  have htmem := List.mem_map_of_injective span_injective (a := a) (l := t.freeRegions)
  rw [← hsmem, ← htmem, mem_freeRegions_span, mem_freeRegions_span,
    hs.arena.free_iff_gap hscoal, ht.arena.free_iff_gap htcoal]
  refine gap_congr fun b => ?_
  simp only [List.mem_map, List.mem_append, hheld, hchained]

/-! ## Runs -/

/-- What every call keeps. -/
structure Settled (lo hi : Nat) (u : AllocRun) : Prop where
  keeps : Keeps lo hi u.live u.heap
  coalesced : Coalesced (u.heap.valid.map AllocEnt.area)

variable {u v : AllocRun}

theorem allocMachine_settled (hhi : hi ≤ 2 ^ 31) {call : AllocCall} (h : Settled lo hi u)
    (hstep : allocMachine.step u call = some v) : Settled lo hi v := by
  refine ⟨allocMachine_step hhi h.keeps hstep, ?_⟩
  obtain ⟨sz, flags, addr, heap, rfl, halloc, rfl⟩ | ⟨a, heap, rfl, hmem, hfree, rfl⟩ :=
    allocMachine_cases hstep
  · exact (allocWith_coalesced (findFree_coalesces hhi 2) h.keeps h.coalesced halloc).1
  · exact doFree_coalesced hhi h.keeps h.coalesced hmem hfree

/-- Nothing live is live twice, nor at the address of something else. -/
theorem Keeps.live_unique (h : Keeps lo hi held s) :
    held.Nodup ∧ ∀ a ∈ held, ∀ b ∈ held, a.1 = b.1 → a = b := by
  constructor
  · have hnodup : ((held ++ s.chained).map span).Nodup := by
      refine nodup_of_apart (fun a ha => ?_) h.arena.taken_apart
      exact h.arena.tiles.nonempty a (List.mem_map_of_mem (h.arena.mem_of_taken ha))
    exact (List.Nodup.of_map span hnodup).sublist (List.sublist_append_left _ _)
  · intro a ha b hb heq
    obtain ⟨e, he, -, headdr, hesize⟩ := h.used_entry (List.mem_append_left s.chained ha)
    obtain ⟨f, hf, -, hfaddr, hfsize⟩ := h.used_entry (List.mem_append_left s.chained hb)
    have hsize := h.size_unique he hf (by rw [headdr, hfaddr, heq])
    exact Prod.ext heq (by rw [← hesize, ← hfsize, hsize])

/-- Freeing distinct live addresses frees exactly these, in any order. -/
theorem freeAll_run (hhi : hi ≤ 2 ^ 31) (ptrs : List Nat) (hnodup : ptrs.Nodup)
    (h : Settled lo hi u) (hlive : ∀ p ∈ ptrs, p ∈ u.live.map Prod.fst) :
    ∃ v, allocMachine.run u (ptrs.map AllocCall.free) = some v ∧ Settled lo hi v ∧
      v.heap.addrs = u.heap.addrs ∧ ∀ a, a ∈ v.live ↔ a ∈ u.live ∧ a.1 ∉ ptrs := by
  induction ptrs generalizing u with
  | nil => exact ⟨u, rfl, h, rfl, fun a => by simp⟩
  | cons p ptrs ih =>
      obtain ⟨hfresh, hrest⟩ := List.nodup_cons.mp hnodup
      obtain ⟨b, hb, hbp⟩ := List.mem_map.mp (hlive p List.mem_cons_self)
      obtain ⟨hdistinct, hunique⟩ := h.keeps.live_unique
      -- the area at this address is the one found
      have hfind : u.live.find? (fun a => a.1 = p) = some b := by
        cases hf : u.live.find? (fun a => a.1 = p) with
        | none => exact absurd (List.find?_eq_none.mp hf b hb) (by simpa using hbp)
        | some c =>
            have hcp : c.1 = p := by simpa using List.find?_some hf
            rw [hunique c (List.mem_of_find?_eq_some hf) b hb (hcp.trans hbp.symm)]
      obtain ⟨t, hfree⟩ := doFree_isSome h.keeps hb
      rw [hbp] at hfree
      have hstep : allocMachine.step u (.free p) = some ⟨t, u.live.erase b⟩ := by
        rw [allocMachine]
        dsimp only
        rw [hfind]
        dsimp only
        rw [hfree]
        rfl
      have hmem : ∀ a, a ∈ u.live.erase b ↔ a ∈ u.live ∧ a.1 ≠ p := by
        intro a
        rw [hdistinct.mem_erase_iff]
        constructor
        · rintro ⟨hne, ha⟩
          exact ⟨ha, fun heq => hne (hunique a ha b hb (heq.trans hbp.symm))⟩
        · rintro ⟨ha, hne⟩
          exact ⟨fun heq => hne (heq ▸ hbp), ha⟩
      obtain ⟨v, hrun, hsettled, haddrs, hleft⟩ := ih hrest (allocMachine_settled hhi h hstep) (by
        intro q hq
        obtain ⟨c, hc, hcq⟩ := List.mem_map.mp (hlive q (List.mem_cons_of_mem _ hq))
        refine List.mem_map.mpr ⟨c, (hmem c).mpr ⟨hc, ?_⟩, hcq⟩
        rintro rfl
        exact hfresh (hcq ▸ hq))
      refine ⟨v, ?_, hsettled, ?_, fun a => ?_⟩
      · rw [List.map_cons, Machine.run_cons, hstep]
        exact hrun
      · rw [← hbp] at hfree
        rw [haddrs, (doFree_spec hhi h.keeps hb hfree).2]
      · rw [hleft, hmem, List.mem_cons, not_or, and_assoc]

/-- What the free list of a state is good for. -/
structure Canonical (lo hi : Nat) (u : AllocRun) : Prop where
  /-- the free entries are the maximal intervals without a used byte -/
  gaps : ∀ a, a ∈ u.heap.freeRegions.map span ↔ Gap lo hi (u.heap.usedRegions.map span) a
  /-- no two free entries are adjacent -/
  apart : ∀ e ∈ u.heap.valid, ∀ f ∈ u.heap.valid, e.used = false → f.used = false →
    e.addr + e.size ≠ f.addr
  /-- what is live may be freed in any order -/
  anyOrder : ∀ ptrs ptrs' : List Nat, ptrs.Nodup → (∀ p ∈ ptrs, p ∈ u.live.map Prod.fst) →
    ptrs.Perm ptrs' → ∃ v v', allocMachine.run u (ptrs.map AllocCall.free) = some v ∧
      allocMachine.run u (ptrs'.map AllocCall.free) = some v' ∧
      v.heap.freeRegions.Perm v'.heap.freeRegions
  /-- `free` undoes an `alloc` that did not grow the table -/
  restored : ∀ sz flags addr heap, alloc u.heap sz flags = .ret addr heap →
    heap.blocks.length = u.heap.blocks.length →
      ∃ heap', doFree heap addr = some heap' ∧ heap'.freeRegions.Perm u.heap.freeRegions

theorem Settled.canonical (hhi : hi ≤ 2 ^ 31) (h : Settled lo hi u) : Canonical lo hi u where
  gaps := h.keeps.mem_freeRegions h.coalesced
  apart := coalesced_iff.mp h.coalesced
  anyOrder := by
    intro ptrs ptrs' hnodup hlive hperm
    obtain ⟨v, hrun, hv, haddrs, hleft⟩ := freeAll_run hhi ptrs hnodup h hlive
    obtain ⟨v', hrun', hv', haddrs', hleft'⟩ := freeAll_run hhi ptrs' (hperm.nodup_iff.mp hnodup) h
      fun p hp => hlive p (hperm.mem_iff.mpr hp)
    refine ⟨v, v', hrun, hrun', ?_⟩
    -- both orders end with the same allocations, and these fix the free regions
    refine hv.keeps.freeRegions_perm hv.coalesced hv'.keeps hv'.coalesced
      (haddrs.trans haddrs'.symm) fun a => ?_
    rw [hleft, hleft', hperm.mem_iff]
  restored := by
    intro sz flags addr heap halloc hlen
    have hkeep := allocWith_spec (findFree_allocates hhi 2) h.keeps halloc
    obtain ⟨hcoal, hgrow⟩ :=
      allocWith_coalesced (findFree_coalesces hhi 2) h.keeps h.coalesced halloc
    -- no block was added, so the blocks are those of before
    have haddrs : u.heap.addrs = heap.addrs := by
      refine hgrow.eq_of_length ?_
      rw [Alloc.addrs, List.length_map, Alloc.addrs, List.length_map, hlen]
    have hmem : (addr, sz) ∈ (addr, sz) :: u.live := List.mem_cons_self
    obtain ⟨heap', hfree⟩ := doFree_isSome hkeep hmem
    obtain ⟨hkeep', haddrs'⟩ := doFree_spec hhi hkeep hmem hfree
    rw [List.erase_cons_head] at hkeep'
    exact ⟨heap', hfree, hkeep'.freeRegions_perm (doFree_coalesced hhi hkeep hcoal hmem hfree)
      h.keeps h.coalesced (haddrs'.trans haddrs.symm) fun _ => Iff.rfl⟩

/-- One area touches nothing. -/
theorem allocInit_settled {base size : Nat} (hfit : base + size ≤ 2 ^ 31)
    (hroom : firstBlock base + sizeofAllocBlock < base + size)
    (hinit : allocInit base size = some s) :
    Settled (firstBlock base + sizeofAllocBlock) (base + size) ⟨s, []⟩ := by
  have hkeep := allocInit_keeps hfit hroom hinit
  obtain ⟨-, hvalid⟩ := allocInit_valid hinit
  refine ⟨hkeep, coalesced_iff.mpr fun e he f hf _ _ htouch => ?_⟩
  obtain ⟨-, hpos, -⟩ := hkeep.bounds he
  rw [hvalid, List.mem_singleton] at he hf
  rw [hf, ← he] at htouch
  omega

/-- For every base and size below `2^31` with room behind the first block, and
    every sequence of calls that does not panic and frees only what is live:
    the free list is canonical. -/
theorem alloc_canonical (base size : Nat) (hfit : base + size ≤ 2 ^ 31)
    (hroom : firstBlock base + sizeofAllocBlock < base + size) (calls : List AllocCall)
    {u : AllocRun}
    (hrun : (allocInit base size).bind (fun s => allocMachine.run ⟨s, []⟩ calls) = some u) :
    Canonical (firstBlock base + sizeofAllocBlock) (base + size) u := by
  obtain ⟨s, hinit, hcalls⟩ := Option.bind_eq_some_iff.mp hrun
  apply Settled.canonical hfit
  exact Machine.run_invariant (I := Settled _ (base + size))
    (fun v call w hv hstep => allocMachine_settled hfit hv hstep)
    (allocInit_settled hfit hroom hinit) hcalls

/-- An area between two others is freed last: nothing but the lowest one is
    left behind. -/
theorem alloc_canonical_between :
    ∃ u, ((allocInit 0x7e01 0x78000).bind fun s => allocMachine.run ⟨s, []⟩
        [.alloc 100 0, .alloc 8 allocFlag16b, .alloc 16 0, .free 0x10064, .free 0x10000]) = some u ∧
      u.heap.freeRegions = [(0x8410, 0x779f1)] ∧ Canonical 0x8408 0x7fe01 u := by
  have hfree : ((allocInit 0x7e01 0x78000).bind fun s => allocMachine.run ⟨s, []⟩
      [.alloc 100 0, .alloc 8 allocFlag16b, .alloc 16 0, .free 0x10064, .free 0x10000]).map
        (fun u => u.heap.freeRegions) = some [(0x8410, 0x779f1)] := by
    decide +kernel
  obtain ⟨u, hu, hl⟩ := Option.map_eq_some_iff.mp hfree
  exact ⟨u, hu, hl, alloc_canonical 0x7e01 0x78000 (by decide) (by decide) _ hu⟩

end LBoot.Mm
