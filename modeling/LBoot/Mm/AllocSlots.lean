/-
  LBoot.Mm.AllocSlots

  The allocator's table does not run out of slots.

  An `alloc` takes at most two slots of the table for the pieces it cuts an
  area into, and `free` takes none.  The table is grown before fewer than 90
  slots are left, so every `alloc` starts from 88 at least, also the inner one
  that allocates the new block (`alloc_room`).  A trace of a call lists the
  tables on which `_add_alloc` was called and counts how often `_find_free`
  was entered.
-/

import LBoot.Mm.AllocPartition

namespace LBoot.Mm

open LBoot.Lib

/-- How many slots are not in use. -/
def Alloc.room (s : Alloc) : Nat := s.entries.countP fun e => !e.valid

/-- Some chained block has a slot that is not in use. -/
def HasSlot (s : Alloc) : Prop := ∃ b ∈ s.blocks, ∃ e ∈ b.entries.toList, e.valid = false

theorem hasSlot_iff {s : Alloc} : HasSlot s ↔ 0 < s.room := by
  rw [Alloc.room, List.countP_pos_iff, HasSlot]
  simp only [Alloc.entries, List.mem_flatMap, Bool.not_eq_true']
  constructor
  · rintro ⟨b, hb, e, he, hfree⟩
    exact ⟨e, ⟨b, hb, he⟩, hfree⟩
  · rintro ⟨e, ⟨b, hb, he⟩, hfree⟩
    exact ⟨b, hb, e, he, hfree⟩

/-! ## Traces -/

/-- The tables `_add_alloc` was called on, in order, and how often
    `_find_free` was entered. -/
structure AllocTrace where
  adds : List Alloc
  entered : Nat

/-- The calls of `_add_alloc` at the end of `_find_free`. -/
def findFreeCommitAdds (s : Alloc) (sz : Nat) : Option (Nat × AllocEnt × Nat) → List Alloc
  | none => []
  | some (i, entry, newAddr) =>
      (if entry.addr ≠ newAddr then [s] else []) ++
        match splitPrior s i entry newAddr with
        | none => []
        | some (s, entry) =>
            if entry.size = sz then []
            else [s.set i { entry with
              addr := u32 (entry.addr + sz), size := sub32 entry.size sz }]

/-- `alloc` with its trace. -/
def allocWithTrace
    (findFree : Alloc → Nat → Nat → AllocMemrange → AllocRet × AllocTrace) (s : Alloc)
    (sz flags : Nat) : AllocRet × AllocTrace :=
  if sz = 0 then (.panic, ⟨[], 0⟩)
  else
    match findFree s sz flags (if flags &&& allocFlag16b ≠ 0 then mrange16b else mrange32b) with
    | (.ret addr s, trace) => (if addr = 0 then .panic else .ret addr s, trace)
    | (r, trace) => (r, trace)

/-- `_find_free` with its trace. -/
def findFreeTrace : Nat → Alloc → Nat → Nat → AllocMemrange → AllocRet × AllocTrace
  | 0, _, _, _, _ => (.stuck, ⟨[], 0⟩)
  | fuel + 1, s, sz, flags, mrange =>
      let f := findFreeScan s sz (allocAlign flags) mrange
      if 10 * f.freeEnts < 7 * allocBlockSz ∧ flags &&& allocFlagNonewblock = 0 then
        match allocWithTrace (findFreeTrace fuel) s sizeofAllocBlock allocFlagNonewblock with
        | (.ret newblock s, inner) =>
            match findFreeTrace fuel (addAllocBlock s newblock) sz flags mrange with
            | (r, again) => (r, ⟨inner.adds ++ again.adds, 1 + inner.entered + again.entered⟩)
        | (r, inner) => (r, ⟨inner.adds, 1 + inner.entered⟩)
      else (findFreeCommit s sz f.entry, ⟨findFreeCommitAdds s sz f.entry, 1⟩)

/-- `alloc`, with so many calls of `_find_free` inside each other allowed. -/
def allocTrace (depth : Nat) (s : Alloc) (sz flags : Nat) : AllocRet × AllocTrace :=
  allocWithTrace (findFreeTrace depth) s sz flags

theorem allocWithTrace_fst
    {findFree : Alloc → Nat → Nat → AllocMemrange → AllocRet}
    {findFreeT : Alloc → Nat → Nat → AllocMemrange → AllocRet × AllocTrace}
    (h : ∀ s sz flags mrange, (findFreeT s sz flags mrange).1 = findFree s sz flags mrange)
    (s : Alloc) (sz flags : Nat) :
    (allocWithTrace findFreeT s sz flags).1 = allocWith findFree s sz flags := by
  rw [allocWithTrace, allocWith]
  split
  · rfl
  · rw [← h]
    generalize findFreeT s sz flags _ = r
    obtain ⟨r, trace⟩ := r
    cases r <;> rfl

/-- The trace changes nothing. -/
theorem findFreeTrace_fst (fuel : Nat) (s : Alloc) (sz flags : Nat) (mrange : AllocMemrange) :
    (findFreeTrace fuel s sz flags mrange).1 = findFree fuel s sz flags mrange := by
  induction fuel generalizing s sz flags mrange with
  | zero => rfl
  | succ fuel ih =>
      rw [findFreeTrace, findFree]
      dsimp only
      split
      · rw [← allocWithTrace_fst ih]
        generalize allocWithTrace (findFreeTrace fuel) s sizeofAllocBlock allocFlagNonewblock = r
        obtain ⟨r, trace⟩ := r
        cases r with
        | panic => rfl
        | stuck => rfl
        | ret newblock s => exact ih _ _ _ _
      · rfl

/-! ## Slots -/

variable {s t : Alloc} {i : Nat} {e e' : AllocEnt}

theorem room_set (h : s.entries[i]? = some e) (e' : AllocEnt) :
    (s.set i e').room + (if e.valid then 0 else 1) = s.room + if e'.valid then 0 else 1 := by
  obtain ⟨hi, hget⟩ := List.getElem?_eq_some_iff.mp h
  have hset := List.countP_set (p := fun e : AllocEnt => !e.valid) (a := e') hi
  have hpos : e.valid = false → 0 < s.room := fun hv =>
    List.countP_pos_iff.mpr ⟨e, List.mem_of_getElem? h, by rw [hv]; rfl⟩
  rw [hget] at hset
  rw [Alloc.room, Alloc.entries_set, hset]
  rw [Alloc.room] at hpos ⊢
  cases hv : e.valid with
  | true => cases e'.valid <;> simp
  | false =>
      have hroom := hpos hv
      cases e'.valid <;> simp <;> omega

/-- Writing a valid entry over a valid one. -/
theorem room_replace (h : s.entries[i]? = some e) (hv : e.valid = true) (hv' : e'.valid = true) :
    (s.set i e').room = s.room := by
  have hset := room_set h e'
  rwa [hv, hv'] at hset

/-- No write of a valid entry's slot takes a slot. -/
theorem room_le_set (h : s.entries[i]? = some e) (hv : e.valid = true) (e' : AllocEnt) :
    s.room ≤ (s.set i e').room := by
  have hset := room_set h e'
  rw [hv] at hset
  exact Nat.le.intro hset.symm

/-- `_add_alloc` takes one slot. -/
theorem addAlloc_room {al : AllocEnt} (h : addAlloc s al = some t) (hv : al.valid = true) :
    t.room + 1 = s.room := by
  obtain ⟨i, old, hi, hold, rfl⟩ := addAlloc_spec h
  have hset := room_set hi al
  rwa [hold, hv] at hset

/-- It finds one if there is one. -/
theorem addAlloc_isSome (h : 0 < s.room) (al : AllocEnt) : ∃ t, addAlloc s al = some t := by
  obtain ⟨e, he, hfree⟩ := List.countP_pos_iff.mp h
  have hfind : (s.entries.findIdx? fun e => !e.valid).isSome := by
    rw [List.findIdx?_isSome, List.any_eq_true]
    exact ⟨e, he, hfree⟩
  obtain ⟨i, hi⟩ := Option.isSome_iff_exists.mp hfind
  exact ⟨s.set i al, by rw [addAlloc, hi]; rfl⟩

/-- A new block brings its slots. -/
theorem room_addAllocBlock (s : Alloc) (addr : Nat) :
    (addAllocBlock s addr).room = s.room + allocBlockSz := by
  rw [Alloc.room, Alloc.entries_addAllocBlock, List.countP_append, List.countP_replicate]
  rfl

/-- The part in front of the new entry takes one slot, if there is such a
    part. -/
theorem splitPrior_room {i newAddr : Nat} {entry : AllocEnt} (hslot : s.entries[i]? = some entry)
    (hv : entry.valid = true) (hroom : 1 ≤ s.room) :
    ∃ s₁ e₁, splitPrior s i entry newAddr = some (s₁, e₁) ∧ s₁.entries[i]? = some e₁ ∧
      e₁.valid = true ∧ s.room ≤ s₁.room + 1 := by
  rw [splitPrior]
  by_cases hne : entry.addr ≠ newAddr
  · rw [if_pos hne]
    obtain ⟨t, ht⟩ := addAlloc_isSome (s := s) (by omega)
      ⟨true, false, entry.addr, sub32 newAddr entry.addr⟩
    have hslot' := (addAlloc_valid ht rfl).2.2 i entry hslot hv
    have hlen : i < t.entries.length := (List.getElem?_eq_some_iff.mp hslot').1
    have htake := addAlloc_room ht rfl
    dsimp only
    rw [ht]
    refine ⟨_, _, rfl, ?_, hv, ?_⟩
    · rw [Alloc.entries_set, List.getElem?_set_self hlen]
    · have hkeep := room_le_set hslot' hv { entry with
        addr := newAddr, size := sub32 entry.size (sub32 newAddr entry.addr) }
      omega
  · rw [if_neg hne]
    exact ⟨s, entry, rfl, hslot, hv, Nat.le_succ _⟩

/-- With two slots left the end of `_find_free` always finds one, and it takes
    no more than these. -/
theorem findFreeCommit_room {sz align : Nat} {mrange : AllocMemrange}
    {c : Option (Nat × AllocEnt × Nat)} (hc : ∀ d, c = some d → FitsAt s sz align mrange d)
    (hroom : 2 ≤ s.room) :
    (∀ t ∈ findFreeCommitAdds s sz c, 0 < t.room) ∧
      ∃ addr t, findFreeCommit s sz c = .ret addr t ∧ s.room ≤ t.room + 2 := by
  cases c with
  | none => exact ⟨List.forall_mem_nil _, 0, s, rfl, Nat.le_add_right _ _⟩
  | some d =>
      obtain ⟨i, entry, newAddr⟩ := d
      obtain ⟨hslot, hv, hu, -⟩ := hc _ rfl
      dsimp only at hslot hv hu
      -- the prior entry takes the first slot
      obtain ⟨s₁, e₁, hsplit, hslot₁, hv₁, hroom₁⟩ :=
        splitPrior_room hslot hv (by omega)
      have hfirst : ∀ t ∈ (if entry.addr ≠ newAddr then [s] else []), 0 < t.room := by
        intro t ht
        split at ht
        · rw [List.mem_singleton.mp ht]
          omega
        · cases ht
      rw [findFreeCommitAdds, findFreeCommit, hsplit]
      dsimp only
      by_cases hsize : e₁.size = sz
      · rw [if_pos hsize, if_pos hsize, List.append_nil]
        have hkeep := room_le_set hslot₁ hv₁ { e₁ with used := true }
        exact ⟨hfirst, _, _, rfl, by omega⟩
      · rw [if_neg hsize, if_neg hsize]
        -- what is left takes the second one
        have hkeep : (s₁.set i { e₁ with
            addr := u32 (e₁.addr + sz), size := sub32 e₁.size sz }).room = s₁.room :=
          room_replace hslot₁ hv₁ hv₁
        obtain ⟨t, ht⟩ := addAlloc_isSome (s := s₁.set i { e₁ with
          addr := u32 (e₁.addr + sz), size := sub32 e₁.size sz }) (by omega)
          ⟨true, true, newAddr, sz⟩
        have htake := addAlloc_room ht rfl
        rw [ht]
        refine ⟨?_, _, _, rfl, by omega⟩
        intro t' ht'
        rcases List.mem_append.mp ht' with hin | hin
        · exact hfirst t' hin
        · rw [List.mem_singleton.mp hin]
          omega

/-- Clearing a slot takes none. -/
theorem room_le_clear (s : Alloc) (i : Nat) (hv : e.valid = false) :
    s.room ≤ (s.set i e).room := by
  cases hslot : s.entries[i]? with
  | none =>
      rw [Alloc.room, Alloc.room, Alloc.entries_set,
        List.set_eq_of_length_le (List.getElem?_eq_none_iff.mp hslot)]
  | some old =>
      have hset := room_set hslot e
      simp only [hv, Bool.false_eq_true, if_false] at hset
      split at hset <;> omega

/-- `free` takes no slot: it clears two at most, and the entry it frees keeps
    its own. -/
theorem doFree_room {addr : Nat} (h : doFree s addr = some t) : s.room ≤ t.room := by
  have hfound := freeScan_found s addr
  rw [doFree] at h
  cases hent : (freeScan s addr).ent with
  | none =>
      rw [hent] at h
      cases h
  | some c =>
      obtain ⟨i, ent⟩ := c
      obtain ⟨hslot, hv, hu, -⟩ := hfound.ent i ent hent
      -- a free entry is in another slot
      have hother : ∀ j x, s.entries[j]? = some x → x.used = false → j ≠ i := by
        rintro j x hx hfree rfl
        rw [Option.some.inj (hx.symm.trans hslot), hu] at hfree
        exact Bool.noConfusion hfree
      have hpre : (joinPre s ent (freeScan s addr).pre).1.entries[i]? = some ent ∧
          s.room ≤ (joinPre s ent (freeScan s addr).pre).1.room := by
        cases hp : (freeScan s addr).pre with
        | none => exact ⟨hslot, Nat.le_refl _⟩
        | some d =>
            obtain ⟨hx, -, hfree, -⟩ := hfound.pre d.1 d.2 hp
            refine ⟨?_, room_le_clear s d.1 rfl⟩
            rw [joinPre, Alloc.entries_set, List.getElem?_set_ne (hother _ _ hx hfree), hslot]
      rw [hent] at h
      dsimp only at h
      generalize joinPre s ent (freeScan s addr).pre = r at h hpre
      obtain ⟨s₁, ent₁⟩ := r
      have hpost : (joinPost s₁ ent₁ (freeScan s addr).post).1.entries[i]? = some ent ∧
          s₁.room ≤ (joinPost s₁ ent₁ (freeScan s addr).post).1.room := by
        cases hp : (freeScan s addr).post with
        | none => exact ⟨hpre.1, Nat.le_refl _⟩
        | some d =>
            obtain ⟨hx, -, hfree, -⟩ := hfound.post d.1 d.2 hp
            rw [joinPost]
            split
            · refine ⟨?_, room_le_clear s₁ d.1 rfl⟩
              rw [Alloc.entries_set, List.getElem?_set_ne (hother _ _ hx hfree), hpre.1]
            · exact ⟨hpre.1, Nat.le_refl _⟩
      dsimp only at h
      generalize joinPost s₁ ent₁ (freeScan s addr).post = r at h hpost
      obtain ⟨s₂, ent₂⟩ := r
      rw [← Option.some.inj h]
      exact Nat.le_trans hpre.2 (Nat.le_trans hpost.2 (room_le_set hpost.1 hv _))

/-! ## Calls -/

theorem findFree_flat {fuel sz flags : Nat} {mrange : AllocMemrange}
    (h : flags &&& allocFlagNonewblock = 0 → 90 ≤ s.room) :
    findFree (fuel + 1) s sz flags mrange
      = findFreeCommit s sz (findFreeScan s sz (allocAlign flags) mrange).entry := by
  rw [findFree]
  apply if_neg
  rw [findFreeScan_freeEnts, ← Alloc.room]
  rintro ⟨hlt, hflag⟩
  have henough := h hflag
  have hsz : allocBlockSz = 128 := rfl
  omega

/-- Without a new block `_find_free` is entered once. -/
theorem findFreeTrace_flat {fuel sz flags : Nat} {mrange : AllocMemrange}
    (h : flags &&& allocFlagNonewblock = 0 → 90 ≤ s.room) (hroom : 2 ≤ s.room) :
    (findFreeTrace (fuel + 1) s sz flags mrange).2.entered = 1 ∧
      (∀ t ∈ (findFreeTrace (fuel + 1) s sz flags mrange).2.adds, 0 < t.room) ∧
      ∃ addr t, (findFreeTrace (fuel + 1) s sz flags mrange).1 = .ret addr t ∧
        s.room ≤ t.room + 2 := by
  have htrace : findFreeTrace (fuel + 1) s sz flags mrange
      = (findFreeCommit s sz (findFreeScan s sz (allocAlign flags) mrange).entry,
        ⟨findFreeCommitAdds s sz (findFreeScan s sz (allocAlign flags) mrange).entry, 1⟩) := by
    rw [findFreeTrace]
    apply if_neg
    rw [findFreeScan_freeEnts, ← Alloc.room]
    rintro ⟨hlt, hflag⟩
    have henough := h hflag
    have hsz : allocBlockSz = 128 := rfl
    omega
  have hfits : ∀ d, (findFreeScan s sz (allocAlign flags) mrange).entry = some d →
      FitsAt s sz (allocAlign flags) mrange d := fun d => findFreeScan_entry
  obtain ⟨hadds, hret⟩ := findFreeCommit_room hfits hroom
  rw [htrace]
  exact ⟨rfl, hadds, hret⟩

/-- `ALLOC_FLAG_NONEWBLOCK` keeps the inner call flat. -/
theorem nonewblock_flat (s : Alloc) :
    allocFlagNonewblock &&& allocFlagNonewblock = 0 → 90 ≤ s.room :=
  fun h => absurd h (by decide)

/-- A new block makes room for a flat call. -/
theorem addAllocBlock_flat (s : Alloc) (addr flags : Nat) :
    flags &&& allocFlagNonewblock = 0 → 90 ≤ (addAllocBlock s addr).room := by
  intro _
  rw [room_addAllocBlock]
  have hsz : allocBlockSz = 128 := rfl
  omega

/-- Deeper recursion than the table-growing call is not used. -/
theorem findFree_depth (depth : Nat) (s : Alloc) (sz flags : Nat) (mrange : AllocMemrange) :
    findFree (depth + 2) s sz flags mrange = findFree 2 s sz flags mrange := by
  have hinner : allocWith (findFree (depth + 1)) s sizeofAllocBlock allocFlagNonewblock
      = allocWith (findFree 1) s sizeofAllocBlock allocFlagNonewblock := by
    rw [allocWith, allocWith, findFree_flat (nonewblock_flat s), findFree_flat (nonewblock_flat s)]
  rw [findFree, findFree]
  split
  · rw [hinner]
    cases allocWith (findFree 1) s sizeofAllocBlock allocFlagNonewblock with
    | panic => rfl
    | stuck => rfl
    | ret newblock t =>
        dsimp only
        rw [findFree_flat (addAllocBlock_flat t newblock flags),
          findFree_flat (addAllocBlock_flat t newblock flags)]
  · rfl

/-- From 88 slots `_find_free` finds one whenever it looks for one, is entered
    three times at most, and leaves 88. -/
theorem findFreeTrace_room {sz flags : Nat} {mrange : AllocMemrange} (depth : Nat)
    (hflag : flags &&& allocFlagNonewblock = 0) (hroom : 88 ≤ s.room) :
    (∀ t ∈ (findFreeTrace (depth + 2) s sz flags mrange).2.adds, 0 < t.room) ∧
      (findFreeTrace (depth + 2) s sz flags mrange).2.entered ≤ 3 ∧
      ∀ addr t, (findFreeTrace (depth + 2) s sz flags mrange).1 = .ret addr t → 88 ≤ t.room := by
  by_cases hmany : 90 ≤ s.room
  · obtain ⟨hone, hadds, addr, t, hret, hleft⟩ :=
      @findFreeTrace_flat s (depth + 1) sz flags mrange (fun _ => hmany) (by omega)
    refine ⟨hadds, Nat.le_trans (Nat.le_of_eq hone) (by decide), fun addr' t' hret' => ?_⟩
    obtain ⟨-, rfl⟩ := AllocRet.ret.inj (hret.symm.trans hret')
    omega
  · have hgrow : 10 * (findFreeScan s sz (allocAlign flags) mrange).freeEnts < 7 * allocBlockSz ∧
        flags &&& allocFlagNonewblock = 0 := by
      rw [findFreeScan_freeEnts, ← Alloc.room]
      have hsz : allocBlockSz = 128 := rfl
      exact ⟨by omega, hflag⟩
    -- the inner `alloc`, from at least 88 slots
    obtain ⟨hone, hadds, addr, t, hret, hleft⟩ := @findFreeTrace_flat s depth sizeofAllocBlock
      allocFlagNonewblock
      (if allocFlagNonewblock &&& allocFlag16b ≠ 0 then mrange16b else mrange32b)
      (nonewblock_flat s) (by omega)
    have hinner : allocWithTrace (findFreeTrace (depth + 1)) s sizeofAllocBlock allocFlagNonewblock
        = (if addr = 0 then .panic else .ret addr t, (findFreeTrace (depth + 1) s
          sizeofAllocBlock allocFlagNonewblock
          (if allocFlagNonewblock &&& allocFlag16b ≠ 0 then mrange16b else mrange32b)).2) := by
      rw [allocWithTrace, if_neg (by decide)]
      generalize findFreeTrace (depth + 1) s sizeofAllocBlock allocFlagNonewblock
        (if allocFlagNonewblock &&& allocFlag16b ≠ 0 then mrange16b else mrange32b) = r at hret ⊢
      obtain ⟨r, trace⟩ := r
      dsimp only at hret
      rw [hret]
    rw [findFreeTrace]
    dsimp only
    rw [if_pos hgrow, hinner]
    generalize (findFreeTrace (depth + 1) s sizeofAllocBlock allocFlagNonewblock
      (if allocFlagNonewblock &&& allocFlag16b ≠ 0 then mrange16b else mrange32b)).2 = inner
      at hone hadds ⊢
    by_cases hzero : addr = 0
    · rw [if_pos hzero]
      exact ⟨hadds, by dsimp only; omega, nofun⟩
    · rw [if_neg hzero]
      -- the new block makes up for what it took
      have hnew : 128 ≤ (addAllocBlock t addr).room := by
        rw [room_addAllocBlock]
        exact Nat.le_add_left _ _
      obtain ⟨hone', hadds', addr', t', hret', hleft'⟩ :=
        @findFreeTrace_flat (addAllocBlock t addr) depth sz flags mrange
          (addAllocBlock_flat t addr flags) (by omega)
      dsimp only
      refine ⟨fun u hu => ?_, by omega, fun addr'' t'' hret'' => ?_⟩
      · rcases List.mem_append.mp hu with hin | hin
        · exact hadds u hin
        · exact hadds' u hin
      · obtain ⟨-, rfl⟩ := AllocRet.ret.inj (hret'.symm.trans hret'')
        omega

theorem allocTrace_room {sz flags : Nat} (depth : Nat)
    (hflag : flags &&& allocFlagNonewblock = 0) (hroom : 88 ≤ s.room) :
    (∀ t ∈ (allocTrace (depth + 2) s sz flags).2.adds, 0 < t.room) ∧
      (allocTrace (depth + 2) s sz flags).2.entered ≤ 3 ∧
      ∀ addr t, (allocTrace (depth + 2) s sz flags).1 = .ret addr t → 88 ≤ t.room := by
  rw [allocTrace, allocWithTrace]
  split
  · exact ⟨List.forall_mem_nil _, Nat.zero_le _, nofun⟩
  · have hfind := @findFreeTrace_room s sz flags
      (if flags &&& allocFlag16b ≠ 0 then mrange16b else mrange32b) depth hflag hroom
    generalize findFreeTrace (depth + 2) s sz flags _ = r at hfind ⊢
    obtain ⟨r, trace⟩ := r
    cases r with
    | panic => exact hfind
    | stuck => exact hfind
    | ret addr t =>
        refine ⟨hfind.1, hfind.2.1, fun addr' t' hret => ?_⟩
        dsimp only at hret
        split at hret
        · cases hret
        · obtain ⟨-, rfl⟩ := AllocRet.ret.inj hret
          exact hfind.2.2 addr t rfl

/-- At any depth the traced call does what `alloc` does. -/
theorem allocTrace_fst (depth : Nat) (s : Alloc) (sz flags : Nat) :
    (allocTrace (depth + 2) s sz flags).1 = alloc s sz flags := by
  rw [allocTrace, allocWithTrace_fst (findFreeTrace_fst (depth + 2)), alloc, allocWith, allocWith,
    findFree_depth]

/-! ## Runs -/

/-- The calls that leave the internal flag alone. -/
def AllocCall.Client : AllocCall → Prop
  | .alloc _ flags => flags &&& allocFlagNonewblock = 0
  | .free _ => True

instance (call : AllocCall) : Decidable call.Client :=
  match call with
  | .alloc _ flags => inferInstanceAs (Decidable (flags &&& allocFlagNonewblock = 0))
  | .free _ => inferInstanceAs (Decidable True)

theorem allocMachine_room {u v : AllocRun} {call : AllocCall} (hcall : call.Client)
    (h : 88 ≤ u.heap.room) (hstep : allocMachine.step u call = some v) : 88 ≤ v.heap.room := by
  obtain ⟨sz, flags, addr, heap, rfl, halloc, rfl⟩ | ⟨a, heap, rfl, -, hfree, rfl⟩ :=
    allocMachine_cases hstep
  · rw [← allocTrace_fst 0] at halloc
    exact (allocTrace_room 0 hcall h).2.2 addr heap halloc
  · exact Nat.le_trans h (doFree_room hfree)

theorem allocMachine_run_room {u v : AllocRun} {calls : List AllocCall}
    (hcalls : ∀ call ∈ calls, call.Client) (h : 88 ≤ u.heap.room)
    (hrun : allocMachine.run u calls = some v) : 88 ≤ v.heap.room :=
  Machine.run_invariant_along (I := fun u => 88 ≤ u.heap.room)
    (fun _ _ _ hroom hcall hstep => allocMachine_room hcall hroom hstep) h
    (Machine.along_of_forall hcalls u) hrun

/-- `alloc_init` takes one slot of a block. -/
theorem allocInit_room {base size : Nat} (hinit : allocInit base size = some s) : s.room = 127 := by
  rw [allocInit] at hinit
  by_cases hzero : firstBlock base = 0
  · rw [if_pos hzero] at hinit
    cases hinit
  · rw [if_neg hzero] at hinit
    have htake := addAlloc_room hinit rfl
    have hnew : (⟨[zeroAllocBlock (firstBlock base)]⟩ : Alloc).room = 128 := by
      rw [Alloc.room, Alloc.entries, List.flatMap_singleton, zeroAllocBlock,
        Vector.toList_replicate, List.countP_replicate]
      rfl
    omega

/-- It finds one, unless the block is at the address that means none. -/
theorem allocInit_isSome {base : Nat} (h : firstBlock base ≠ 0) (size : Nat) :
    ∃ s, allocInit base size = some s := by
  rw [allocInit, if_neg h]
  apply addAlloc_isSome
  rw [Alloc.room, Alloc.entries, List.flatMap_singleton, zeroAllocBlock,
    Vector.toList_replicate, List.countP_replicate]
  decide

/-- **The table does not run out.**  In every run of calls that leave the
    internal flag alone, whatever `alloc` comes next: each `_add_alloc` finds a
    slot in a chained block, `_find_free` is entered three times at most,
    however deep it may recurse, and the call comes to an end. -/
theorem alloc_table_never_full (base size : Nat) (calls : List AllocCall)
    (hcalls : ∀ call ∈ calls, call.Client) {u : AllocRun}
    (hrun : (allocInit base size).bind (fun s => allocMachine.run ⟨s, []⟩ calls) = some u)
    (sz : Nat) {flags : Nat} (hflag : flags &&& allocFlagNonewblock = 0) (depth : Nat) :
    (∀ t ∈ (allocTrace (depth + 2) u.heap sz flags).2.adds, HasSlot t) ∧
      (allocTrace (depth + 2) u.heap sz flags).2.entered ≤ 3 ∧
      (allocTrace (depth + 2) u.heap sz flags).1 = alloc u.heap sz flags ∧
      alloc u.heap sz flags ≠ .stuck := by
  obtain ⟨s, hinit, hcalls'⟩ := Option.bind_eq_some_iff.mp hrun
  have hstart : 88 ≤ (⟨s, []⟩ : AllocRun).heap.room := by
    rw [allocInit_room hinit]
    decide
  have hroom := allocMachine_run_room hcalls hstart hcalls'
  obtain ⟨hadds, hentered, -⟩ := @allocTrace_room _ sz _ depth hflag hroom
  exact ⟨fun t ht => hasSlot_iff.mpr (hadds t ht), hentered, allocTrace_fst depth _ _ _,
    alloc_ne_stuck _ _ _⟩

/-- Behind an area that was freed between two others. -/
theorem alloc_table_never_full_between :
    ∃ u, ((allocInit 0x7e01 0x78000).bind fun s => allocMachine.run ⟨s, []⟩
        [.alloc 100 0, .alloc 8 allocFlag16b, .alloc 16 0, .free 0x10000]) = some u ∧
      (∀ t ∈ (allocTrace 2 u.heap 24 0).2.adds, HasSlot t) ∧
      (allocTrace 2 u.heap 24 0).2.entered ≤ 3 ∧
      (allocTrace 2 u.heap 24 0).1 = alloc u.heap 24 0 ∧ alloc u.heap 24 0 ≠ .stuck := by
  have hrun : ((allocInit 0x7e01 0x78000).bind fun s => allocMachine.run ⟨s, []⟩
      [.alloc 100 0, .alloc 8 allocFlag16b, .alloc 16 0, .free 0x10000]).isSome = true := by
    decide +kernel
  obtain ⟨u, hu⟩ := Option.isSome_iff_exists.mp hrun
  exact ⟨u, hu, alloc_table_never_full 0x7e01 0x78000 _ (by decide) hu 24 (by decide) 0⟩

end LBoot.Mm
