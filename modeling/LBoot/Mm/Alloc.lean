/-
  LBoot.Mm.Alloc

  The memory allocator (src/mm/alloc.c).

  The table of areas is a chain of blocks of 128 entries each.  A block lies
  in memory at its address, and all blocks but the first one lie in memory
  the allocator itself hands out.  Nobody else writes there, so the chain is
  the whole state.  A pointer to an entry is its number in scan order: entry
  `i` of the block number `b` is `128 * b + i`.

  `_find_free` and `alloc` call each other: a table that gets full is grown
  in the middle of an `alloc` by another `alloc`.
-/

import LBoot.Lib.Machine
import LBoot.Lib.Word32

namespace LBoot.Mm

open LBoot.Lib

/-- `alloc_ent_t`; `valid` and `used` are the two flags. -/
structure AllocEnt where
  valid : Bool
  used : Bool
  addr : Nat
  size : Nat
  deriving DecidableEq, Repr

/-- `ALLOC_BLOCK_SZ`. -/
abbrev allocBlockSz : Nat := 128

/-- `alloc_block_t`, at its address. -/
structure AllocBlock where
  addr : Nat
  entries : Vector AllocEnt allocBlockSz
  deriving DecidableEq

/-- `sizeof(alloc_block_t)`: the entries of three words each, and `next`. -/
abbrev sizeofAllocBlock : Nat := allocBlockSz * 12 + 4

/-- A block after `memset`. -/
def zeroAllocBlock (addr : Nat) : AllocBlock :=
  ⟨addr, Vector.replicate allocBlockSz ⟨false, false, 0, 0⟩⟩

/-- The blocks reached from `_first_block`. -/
structure Alloc where
  blocks : List AllocBlock
  deriving DecidableEq

/-- The entries of all blocks, in scan order. -/
def Alloc.entries (s : Alloc) : List AllocEnt := s.blocks.flatMap fun b => b.entries.toList

/-- Write the entry number `i`. -/
def Alloc.set (s : Alloc) (i : Nat) (e : AllocEnt) : Alloc :=
  ⟨s.blocks.modify (i / allocBlockSz) fun b =>
    { b with entries := b.entries.setIfInBounds (i % allocBlockSz) e }⟩

/-- `_add_alloc`: `none` is the panic. -/
def addAlloc (s : Alloc) (al : AllocEnt) : Option Alloc :=
  (s.entries.findIdx? fun e => !e.valid).map fun i => s.set i al

/-- Where `alloc_init` puts the first block. -/
def firstBlock (base : Nat) : Nat :=
  if base % 4 ≠ 0 then u32 (base + (4 - base % 4)) else base

/-- `alloc_init`: `none` is the panic.  A first block at address zero is no
    block at all. -/
def allocInit (base size : Nat) : Option Alloc :=
  let newbase := u32 (firstBlock base + sizeofAllocBlock)
  let size := sub32 size (sub32 newbase base)
  addAlloc ⟨if firstBlock base = 0 then [] else [zeroAllocBlock (firstBlock base)]⟩
    ⟨true, false, newbase, size⟩

/-- `_add_alloc_block`, of a block that was cleared. -/
def addAllocBlock (s : Alloc) (addr : Nat) : Alloc := ⟨s.blocks ++ [zeroAllocBlock addr]⟩

/-! ## Allocating -/

/-- `alloc_memrange_t`. -/
structure AllocMemrange where
  start : Nat
  stop : Nat
  deriving DecidableEq, Repr

/-- `_mrange_16b`. -/
def mrange16b : AllocMemrange := ⟨0x00000000, 0x0000FFFF⟩

/-- `_mrange_32b`. -/
def mrange32b : AllocMemrange := ⟨0x00010000, 0xFFFFFFFF⟩

/-- `ALLOC_FLAG_SETALIGN`. -/
abbrev allocFlagSetalign : Nat := 1 <<< 4

/-- `ALLOC_FLAG_16B`. -/
abbrev allocFlag16b : Nat := 1 <<< 5

/-- `ALLOC_FLAG_NONEWBLOCK`. -/
abbrev allocFlagNonewblock : Nat := 1 <<< 31

/-- `MIN_ALIGN`. -/
abbrev minAlign : Nat := 4

/-- The alignment the flags ask for. -/
def allocAlign (flags : Nat) : Nat :=
  if flags &&& allocFlagSetalign ≠ 0 then 1 <<< (flags &&& 0x0f) else minAlign

/-- Where in a free entry the area would start, if it fits. -/
def allocPlace (sz align : Nat) (mrange : AllocMemrange) (ent : AllocEnt) : Option Nat :=
  let start := ent.addr
  let stop := u32 (start + ent.size)
  let start := if start < mrange.start then mrange.start else start
  let stop := if stop > mrange.stop then mrange.stop else stop
  let start := if start % align ≠ 0 then u32 (start + (align - start % align)) else start
  if start > stop ∨ stop - start < sz then none else some start

/-- What the loops of `_find_free` find out. -/
structure FindFree where
  /-- `entry`, what it points to, and `newent.addr` -/
  entry : Option (Nat × AllocEnt × Nat)
  freeEnts : Nat
  deriving DecidableEq, Repr

/-- The body of the loops of `_find_free`. -/
def findFreeStep (sz align : Nat) (mrange : AllocMemrange) (f : FindFree) (ent : AllocEnt × Nat) :
    FindFree :=
  if ent.1.valid ∧ ¬ ent.1.used then
    match allocPlace sz align mrange ent.1 with
    | none => f
    | some start =>
        match f.entry with
        | some (_, best, _) =>
            if ent.1.size < best.size then { f with entry := some (ent.2, ent.1, start) } else f
        | none => { f with entry := some (ent.2, ent.1, start) }
  else if ¬ ent.1.valid then { f with freeEnts := f.freeEnts + 1 }
  else f

/-- The loops of `_find_free`. -/
def findFreeScan (s : Alloc) (sz align : Nat) (mrange : AllocMemrange) : FindFree :=
  s.entries.zipIdx.foldl (findFreeStep sz align mrange) ⟨none, 0⟩

/-- How `_find_free`, `alloc` and `free` end. -/
inductive AllocRet where
  | panic
  /-- not within the recursion depth allowed -/
  | stuck
  /-- the address, zero for `NULL` -/
  | ret (addr : Nat) (s : Alloc)
  deriving DecidableEq

/-- Make a prior entry of what comes before `newAddr` in the entry number `i`:
    the table, and what the entry is then. -/
def splitPrior (s : Alloc) (i : Nat) (entry : AllocEnt) (newAddr : Nat) :
    Option (Alloc × AllocEnt) :=
  if entry.addr ≠ newAddr then
    let pre : AllocEnt := ⟨true, false, entry.addr, sub32 newAddr entry.addr⟩
    (addAlloc s pre).map fun s =>
      let entry := { entry with addr := newAddr, size := sub32 entry.size pre.size }
      (s.set i entry, entry)
  else some (s, entry)

/-- The end of `_find_free`, behind the loops. -/
def findFreeCommit (s : Alloc) (sz : Nat) : Option (Nat × AllocEnt × Nat) → AllocRet
  | none => .ret 0 s
  | some (i, entry, newAddr) =>
      match splitPrior s i entry newAddr with
      | none => .panic
      | some (s, entry) =>
          if entry.size = sz then .ret entry.addr (s.set i { entry with used := true })
          else
            let rest := { entry with addr := u32 (entry.addr + sz), size := sub32 entry.size sz }
            match addAlloc (s.set i rest) ⟨true, true, newAddr, sz⟩ with
            | none => .panic
            | some s => .ret newAddr s

/-- `alloc`, by way of `_find_free`. -/
def allocWith (findFree : Alloc → Nat → Nat → AllocMemrange → AllocRet) (s : Alloc)
    (sz flags : Nat) : AllocRet :=
  if sz = 0 then .panic
  else
    match findFree s sz flags (if flags &&& allocFlag16b ≠ 0 then mrange16b else mrange32b) with
    | .ret addr s => if addr = 0 then .panic else .ret addr s
    | r => r

/-- `_find_free`.  The comparison with `ALLOC_BLOCK_SZ * 0.7` is one of
    tenths here. -/
def findFree : Nat → Alloc → Nat → Nat → AllocMemrange → AllocRet
  | 0, _, _, _, _ => .stuck
  | fuel + 1, s, sz, flags, mrange =>
      let f := findFreeScan s sz (allocAlign flags) mrange
      if 10 * f.freeEnts < 7 * allocBlockSz ∧ flags &&& allocFlagNonewblock = 0 then
        match allocWith (findFree fuel) s sizeofAllocBlock allocFlagNonewblock with
        | .ret newblock s => findFree fuel (addAllocBlock s newblock) sz flags mrange
        | r => r
      else findFreeCommit s sz f.entry

/-- `alloc`; the recursion is at most two calls deep. -/
def alloc (s : Alloc) (sz flags : Nat) : AllocRet := allocWith (findFree 2) s sz flags

/-! ## Freeing -/

/-- What the loops of `_do_free` find: pointers and what they point to. -/
structure FreeScan where
  pre : Option (Nat × AllocEnt)
  ent : Option (Nat × AllocEnt)
  post : Option (Nat × AllocEnt)
  deriving DecidableEq, Repr

/-- The body of the loops of `_do_free`. -/
def freeStep (addr : Nat) (f : FreeScan) (ent : AllocEnt × Nat) : FreeScan :=
  if ent.1.valid then
    if ent.1.used then
      if f.ent = none ∧ ent.1.addr = addr then { f with ent := some (ent.2, ent.1) } else f
    else if f.pre = none ∧ u32 (ent.1.addr + ent.1.size) = addr then
      { f with pre := some (ent.2, ent.1) }
    else if ent.1.addr > addr then
      match f.post with
      | none => { f with post := some (ent.2, ent.1) }
      | some (_, post) =>
          if ent.1.addr < post.addr then { f with post := some (ent.2, ent.1) } else f
    else f
  else f

/-- The loops of `_do_free`. -/
def freeScan (s : Alloc) (addr : Nat) : FreeScan :=
  s.entries.zipIdx.foldl (freeStep addr) ⟨none, none, none⟩

/-- Join an entry with the one before it: the table with that one cleared, and
    the entry. -/
def joinPre (s : Alloc) (ent : AllocEnt) : Option (Nat × AllocEnt) → Alloc × AllocEnt
  | none => (s, ent)
  | some (i, pre) =>
      (s.set i { pre with valid := false, used := false },
        { ent with addr := pre.addr, size := u32 (ent.size + pre.size) })

/-- Join an entry with the one behind it, if they touch. -/
def joinPost (s : Alloc) (ent : AllocEnt) : Option (Nat × AllocEnt) → Alloc × AllocEnt
  | none => (s, ent)
  | some (i, post) =>
      if u32 (ent.addr + ent.size) = post.addr then
        (s.set i { post with valid := false, used := false },
          { ent with size := u32 (ent.size + post.size) })
      else (s, ent)

/-- `_do_free`: `none` is the error. -/
def doFree (s : Alloc) (addr : Nat) : Option Alloc :=
  let f := freeScan s addr
  match f.ent with
  | none => none
  | some (i, ent) =>
      match joinPre s ent f.pre with
      | (s, ent) =>
          match joinPost s ent f.post with
          | (s, ent) => some (s.set i { ent with used := false })

/-! ## Runs -/

/-- The allocator, and the areas it returned that are not freed yet. -/
structure AllocRun where
  heap : Alloc
  live : List (Nat × Nat)
  deriving DecidableEq

inductive AllocCall where
  | alloc (sz flags : Nat)
  | free (ptr : Nat)
  deriving DecidableEq, Repr

/-- A call that does not panic.  Only what is live is freed. -/
def allocMachine : Machine AllocRun AllocCall where
  step
    | u, .alloc sz flags =>
        match alloc u.heap sz flags with
        | .ret addr heap => some ⟨heap, (addr, sz) :: u.live⟩
        | _ => none
    | u, .free ptr =>
        match u.live.find? fun a => a.1 = ptr with
        | none => none
        | some a => (doFree u.heap ptr).map fun heap => ⟨heap, u.live.erase a⟩

end LBoot.Mm
