/-
  LBoot.Exec.MultibootWalk

  The loop over the header tags ends (src/exec/multiboot.c).

  A tag that the loop gets past is followed by the one `NEXT_TAG` names: its
  address plus its size, rounded up to 8, on 32 bits.  A size of 0 names the
  tag itself and a size that leads over the end of the address space one in
  front of it.  The kernel chooses the size; a tag that may be skipped is not
  looked at further, so nothing else keeps such a size out.

  `headerWalk` is the loop as iterations that go on, and `headerNext` its
  pointer alone: whether an iteration goes on does not depend on what has been
  stored.
-/

import LBoot.Exec.MultibootHeader
import LBoot.Lib.Iteration

namespace LBoot.Exec

open LBoot.Lib

/-! ## Results -/

theorem ok_ne_stuck {α : Type*} (a : α) : (Except.ok a : Except Mb2Error α) ≠ .error .stuck := by
  intro h
  cases h

theorem null_ne_stuck {α : Type*} : (.error .null : Except Mb2Error α) ≠ .error .stuck := by
  intro h
  cases h

/-! ## Iterations -/

/-- One iteration of the loop over the header tags, on `htag` and the state:
    `none` if the loop is left, or `multiboot2_parse` with it. -/
def headerStep (env : Mb2Env) (bound calls : Nat) (c : Nat × Mb2State) : Option (Nat × Mb2State) :=
  if c.1 < bound then
    match mb2HeaderTag env calls c.1 c.2 with
    | .ok (some st) => some (nextTag env.mem c.1, st)
    | _ => none
  else none

/-- Where the loop is left by its condition. -/
def headerBound (env : Mb2Env) (head : Nat) : Nat := u32 (head + 16 * memField env.mem (head + 8) 4)

/-- What the loop starts with. -/
def headerStart (head rsdp : Nat) : Nat × Mb2State :=
  (u32 (head + 16), ⟨⟨fun _ => 0, [(0, multiboot2Prealloc)]⟩, 8, rsdp⟩)

/-- So many iterations that go on, with so many calls of the BIOS in each. -/
def headerWalk (env : Mb2Env) (calls head rsdp n : Nat) : Option (Nat × Mb2State) :=
  steps (headerStep env (headerBound env head) calls) n (headerStart head rsdp)

/-- Of an accepted header, the loop makes a limited number of iterations, and
    each raises `htag`. -/
def WalkEnds (env : Mb2Env) (head rsdp : Nat) : Prop :=
  HeaderAccepted env.mem head → ∀ calls,
    (∃ most, ∀ n c, headerWalk env calls head rsdp n = some c → n ≤ most) ∧
      ∀ n c c', headerWalk env calls head rsdp n = some c →
        headerStep env (headerBound env head) calls c = some c' → c.1 < c'.1

/-- The next tag, as far as the header and the BIOS decide it. -/
def headerNext (env : Mb2Env) (bound calls htag : Nat) : Option Nat :=
  if htag < bound ∧ headerTagGoesOn env calls htag then some (nextTag env.mem htag) else none

/-- The size of the tag leads to a higher address. -/
def SizeAdvances (mem : Int → UInt8) (htag : Nat) : Prop :=
  memField mem (htag + 4) 4 ≠ 0 ∧
    htag + (memField mem (htag + 4) 4 + padTo 8 (memField mem (htag + 4) 4)) < 2 ^ 32

/-- So does that of every tag the loop gets past. -/
def TagsAdvance (env : Mb2Env) (head : Nat) : Prop :=
  ∀ calls n htag, steps (headerNext env (headerBound env head) calls) n (u32 (head + 16)) = some htag →
    htag < headerBound env head → headerTagGoesOn env calls htag → SizeAdvances env.mem htag

section

variable {env : Mb2Env} {bound calls : Nat}

theorem nextTag_lt (mem : Int → UInt8) (t : Nat) : nextTag mem t < 2 ^ 32 :=
  Nat.mod_lt _ (Nat.two_pow_pos 32)

/-- `NEXT_TAG` is higher exactly when the size leads there. -/
theorem lt_nextTag_iff {mem : Int → UInt8} {t : Nat} (ht : t < 2 ^ 32) :
    t < nextTag mem t ↔ SizeAdvances mem t := by
  have hsize : memField mem (t + 4) 4 < 256 ^ 4 := memField_lt mem (t + 4) 4
  rw [nextTag_eq rfl, u32, SizeAdvances, padTo]
  generalize memField mem (t + 4) 4 = size at hsize ⊢
  -- the rounded size is at most 2 ^ 32, so a sum that wraps is not above t
  split_ifs <;> omega

theorem headerStep_map (c : Nat × Mb2State) :
    (headerStep env bound calls c).map Prod.fst = headerNext env bound calls c.1 := by
  have hgo := mb2HeaderTag_goesOn env calls c.1 c.2
  rw [headerStep, headerNext]
  by_cases hb : c.1 < bound
  · rw [if_pos hb]
    cases htag : mb2HeaderTag env calls c.1 c.2 with
    | error e =>
        rw [if_neg fun h => ?_]
        · rfl
        · obtain ⟨st', hst'⟩ := hgo.mpr h.2
          rw [htag] at hst'
          cases hst'
    | ok res =>
        cases res with
        | none =>
            rw [if_neg fun h => ?_]
            · rfl
            · obtain ⟨st', hst'⟩ := hgo.mpr h.2
              rw [htag] at hst'
              cases hst'
        | some st' =>
            rw [if_pos ⟨hb, hgo.mp ⟨st', htag⟩⟩]
            rfl
  · rw [if_neg hb, if_neg fun h => hb h.1]
    rfl

/-- The pointer goes its way whatever has been stored. -/
theorem headerWalk_map (env : Mb2Env) (calls head rsdp n : Nat) :
    (headerWalk env calls head rsdp n).map Prod.fst =
      steps (headerNext env (headerBound env head) calls) n (u32 (head + 16)) :=
  map_steps headerStep_map n (headerStart head rsdp)

theorem headerNext_eq_some {htag next : Nat} (h : headerNext env bound calls htag = some next) :
    htag < bound ∧ headerTagGoesOn env calls htag = true ∧ next = nextTag env.mem htag := by
  rw [headerNext] at h
  split_ifs at h with hgo
  exact ⟨hgo.1, hgo.2, (Option.some.inj h).symm⟩

/-- An iteration that goes on. -/
theorem headerStep_next {c c' : Nat × Mb2State} (h : headerStep env bound calls c = some c') :
    headerNext env bound calls c.1 = some c'.1 := by
  rw [← headerStep_map, h]
  rfl

end

theorem headerWalk_next {env : Mb2Env} {calls head rsdp n : Nat} {c : Nat × Mb2State}
    (h : headerWalk env calls head rsdp n = some c) :
    steps (headerNext env (headerBound env head) calls) n (u32 (head + 16)) = some c.1 := by
  rw [← headerWalk_map env calls head rsdp n, h]
  rfl

/-- Every tag address is one of 32 bits. -/
theorem headerTags_lt {env : Mb2Env} {bound calls start n htag : Nat} (hstart : start < 2 ^ 32)
    (h : steps (headerNext env bound calls) n start = some htag) : htag < 2 ^ 32 := by
  refine steps_invariant (I := (· < 2 ^ 32)) (fun s t _ hstep => ?_) hstart h
  obtain ⟨-, -, rfl⟩ := headerNext_eq_some hstep
  exact nextTag_lt env.mem s

/-- While sizes advance, at most as many tags are passed as there are addresses
    below the bound. -/
theorem headerTags_le {env : Mb2Env} {head calls n htag : Nat} (hadv : TagsAdvance env head)
    (h : steps (headerNext env (headerBound env head) calls) n (u32 (head + 16)) = some htag) :
    n ≤ headerBound env head := by
  -- the tags the loop comes to
  have hbound := steps_le_of_measure
    (I := fun t => ∃ k, steps (headerNext env (headerBound env head) calls) k (u32 (head + 16)) = some t)
    (m := id) (b := headerBound env head)
    (fun s t ⟨k, hk⟩ hstep => ⟨k + 1, steps_succ_last hk hstep⟩) ?_ ⟨0, rfl⟩ h
  · exact hbound.trans (Nat.sub_le _ _)
  · rintro s t ⟨k, hk⟩ hstep
    obtain ⟨hs, hgo, rfl⟩ := headerNext_eq_some hstep
    have hlt : s < 2 ^ 32 := headerTags_lt (Nat.mod_lt _ (Nat.two_pow_pos 32)) hk
    exact ⟨(lt_nextTag_iff hlt).mpr (hadv calls k s hk hs hgo), hs⟩

/-- **The walk.**  For every header that is accepted, the loop over its tags
    makes finitely many iterations, each of which raises `htag`, if and only if
    the size of every tag it gets past is not 0 and does not lead over the end
    of the address space. -/
theorem walkEnds_iff (env : Mb2Env) (head rsdp : Nat) :
    WalkEnds env head rsdp ↔ (HeaderAccepted env.mem head → TagsAdvance env head) := by
  constructor
  · intro hends haccepted calls n htag hn hb hgo
    have hlt : htag < 2 ^ 32 := headerTags_lt (Nat.mod_lt _ (Nat.two_pow_pos 32)) hn
    -- the loop comes to this tag in some state, and gets past it
    rw [← headerWalk_map env calls head rsdp n] at hn
    obtain ⟨c, hc, rfl⟩ := Option.map_eq_some_iff.mp hn
    obtain ⟨st', hst'⟩ := (mb2HeaderTag_goesOn env calls c.1 c.2).mpr hgo
    have hstep : headerStep env (headerBound env head) calls c =
        some (nextTag env.mem c.1, st') := by
      rw [headerStep, if_pos hb, hst']
    exact (lt_nextTag_iff hlt).mp ((hends haccepted calls).2 n c _ hc hstep)
  · intro hadv haccepted calls
    have hadv := hadv haccepted
    refine ⟨⟨headerBound env head, fun n c hc => headerTags_le hadv (headerWalk_next hc)⟩, ?_⟩
    intro n c c' hc hstep
    have hn := headerWalk_next hc
    obtain ⟨hb, hgo, hnext⟩ := headerNext_eq_some (headerStep_next hstep)
    have hlt : c.1 < 2 ^ 32 := headerTags_lt (Nat.mod_lt _ (Nat.two_pow_pos 32)) hn
    rw [hnext]
    exact (lt_nextTag_iff hlt).mpr (hadv calls n c.1 hn hb hgo)

/-! ## The parser returns -/

/-- The loop of the parser takes these iterations. -/
theorem mb2HeaderLoop_step {env : Mb2Env} {bound fuel : Nat} {c c' : Nat × Mb2State}
    (h : headerStep env bound fuel c = some c') :
    mb2HeaderLoop env bound (fuel + 1) c.1 c.2 = mb2HeaderLoop env bound fuel c'.1 c'.2 := by
  rw [headerStep] at h
  split_ifs at h with hb
  rw [mb2HeaderLoop, if_pos hb]
  split at h
  next st hst =>
    obtain rfl : (nextTag env.mem c.1, st) = c' := Option.some.inj h
    rw [hst]
  next => cases h

/-- The BIOS is done with its memory map within `k` calls: more of them change
    nothing. -/
theorem e820Map_mono {e820 : UInt32 → Option (BiosMmapEntry × UInt32)} {k n : Nat} {ebx : UInt32}
    (h : (e820Map e820 k ebx).2 = true) (hle : k ≤ n) : (e820Map e820 n ebx).2 = true := by
  induction k generalizing n ebx with
  | zero => cases h
  | succ k ih =>
      obtain ⟨n, rfl⟩ : ∃ m, n = m + 1 := ⟨n - 1, by omega⟩
      rw [e820Map] at h ⊢
      cases hcall : e820 ebx with
      | none => rfl
      | some res =>
          obtain ⟨entry, ebx'⟩ := res
          rw [hcall] at h
          dsimp only at h ⊢
          split_ifs at h ⊢ with hpos
          · exact ih h (by omega)
          · rfl

section

variable {env : Mb2Env} {k : Nat} (hmap : (e820Map env.bios.e820 k 0).2 = true)
include hmap

theorem goesOn_stable {fuel : Nat} (hle : k ≤ fuel) (req : Nat) :
    goesOn env fuel req = goesOn env k req := by
  rw [goesOn, goesOn, e820Map_mono hmap hle, hmap]

theorem headerTagGoesOn_stable {fuel : Nat} (hle : k ≤ fuel) (htag : Nat) :
    headerTagGoesOn env fuel htag = headerTagGoesOn env k htag := by
  have hreq : goesOn env fuel = goesOn env k := funext (goesOn_stable hmap hle)
  rw [headerTagGoesOn, headerTagGoesOn, hreq]

/-- A request that is not served ends the parser. -/
theorem mb2Request_not_stuck {fuel : Nat} (hle : k ≤ fuel) (st : Mb2State) (req : Nat) :
    mb2Request env fuel st req ≠ .error .stuck := by
  rw [mb2Request]
  split_ifs with hcmd hname hmod hmem hmmap hold hnew
  · cases env.cfg.kernelCmdline <;> exact ok_ne_stuck _
  · exact ok_ne_stuck _
  · exact ok_ne_stuck _
  · cases poptagMeminfo env.bios st.buf st.next with
    | none => exact null_ne_stuck
    | some b => exact ok_ne_stuck _
  · rw [poptagMmap_done, if_pos (e820Map_mono hmap hle)]
    exact ok_ne_stuck _
  · exact ok_ne_stuck _
  · exact ok_ne_stuck _
  · exact null_ne_stuck

theorem mb2Requests_not_stuck {fuel : Nat} (hle : k ≤ fuel) (st : Mb2State) (reqs : List Nat) :
    mb2Requests env fuel st reqs ≠ .error .stuck := by
  induction reqs generalizing st with
  | nil => exact ok_ne_stuck _
  | cons req reqs ih =>
      have hreq := mb2Request_not_stuck hmap hle st req
      rw [mb2Requests]
      cases hst : mb2Request env fuel st req with
      | error e =>
          rw [hst] at hreq
          exact fun h => hreq (congrArg Except.error (Except.error.inj h))
      | ok st' => exact ih st'

theorem mb2HeaderTag_not_stuck {fuel : Nat} (hle : k ≤ fuel) (htag : Nat) (st : Mb2State) :
    mb2HeaderTag env fuel htag st ≠ .error .stuck := by
  rw [mb2HeaderTag]
  split_ifs
  · exact ok_ne_stuck _
  · have hreqs := mb2Requests_not_stuck hmap hle st (headerRequests env.mem htag)
    cases hst : mb2Requests env fuel st (headerRequests env.mem htag) with
    | error e =>
        rw [hst] at hreqs
        exact fun h => hreqs (congrArg Except.error (Except.error.inj h))
    | ok st' => exact ok_ne_stuck _
  · exact null_ne_stuck
  · exact ok_ne_stuck _

/-- With as many iterations left as tags are passed, the loop is left. -/
theorem mb2HeaderLoop_not_stuck {bound n fuel htag : Nat} {st : Mb2State}
    (h : steps (headerNext env bound k) n htag = none) (hle : k + n < fuel) :
    mb2HeaderLoop env bound fuel htag st ≠ .error .stuck := by
  induction n generalizing fuel htag st with
  | zero => cases h
  | succ n ih =>
      obtain ⟨fuel, rfl⟩ : ∃ m, fuel = m + 1 := ⟨fuel - 1, by omega⟩
      rw [mb2HeaderLoop]
      split_ifs with hb
      · have hle : k ≤ fuel := by omega
        have htag' := mb2HeaderTag_not_stuck hmap hle htag st
        cases hst : mb2HeaderTag env fuel htag st with
        | error e =>
            rw [hst] at htag'
            exact fun h => htag' (congrArg Except.error (Except.error.inj h))
        | ok res =>
            cases res with
            | none => exact ok_ne_stuck _
            | some st' =>
                have hgo := (mb2HeaderTag_goesOn env fuel htag st).mp ⟨st', hst⟩
                rw [headerTagGoesOn_stable hmap hle] at hgo
                rw [steps_succ, headerNext, if_pos ⟨hb, hgo⟩, Option.bind_some] at h
                exact ih h (by omega)
      · exact ok_ne_stuck _

/-- If the walk ends and the BIOS is done with its map at some point, so does
    `multiboot2_parse`. -/
theorem multiboot2Parse_returns {head rsdp : Nat}
    (hadv : HeaderAccepted env.mem head → TagsAdvance env head) :
    ∃ fuel, multiboot2Parse env fuel head rsdp ≠ .error .stuck := by
  refine ⟨k + (headerBound env head + 1) + 1, ?_⟩
  rw [multiboot2Parse]
  split_ifs with hmagic hsum
  · exact null_ne_stuck
  · exact null_ne_stuck
  · have haccepted : HeaderAccepted env.mem head := by
      refine ⟨?_, not_not.mp hsum⟩
      rwa [not_or, not_not, not_not] at hmagic
    -- it gets past no more tags than there are addresses
    have hnone : steps (headerNext env (headerBound env head) k) (headerBound env head + 1)
        (u32 (head + 16)) = none := by
      refine Option.eq_none_iff_forall_ne_some.mpr fun htag hsome => ?_
      have hle := headerTags_le (hadv haccepted) hsome
      omega
    have hloop : mb2HeaderLoop env (u32 (head + 16 * memField env.mem (head + 8) 4))
        (k + (headerBound env head + 1) + 1) (u32 (head + 16)) (headerStart head rsdp).2 ≠
          .error .stuck :=
      mb2HeaderLoop_not_stuck hmap hnone (Nat.lt_succ_self _)
    dsimp only [headerStart] at hloop ⊢
    split
    next e he =>
      rw [he] at hloop
      exact fun h => hloop (congrArg Except.error (Except.error.inj h))
    next => exact ok_ne_stuck _

end

/-- Sizes of a valid header advance, up to its END tag. -/
theorem tagsAdvance_of_walks {env : Mb2Env} {bound calls htag z n t : Nat} {hts : List Record}
    (hwalk : Walks 8 env.mem htag hts z) (hend : memField env.mem z 2 = headerTagEnd)
    (hz : z + 8 ≤ 2 ^ 32) (h : steps (headerNext env bound calls) n htag = some t)
    (hgo : headerTagGoesOn env calls t) : SizeAdvances env.mem t := by
  induction hwalk generalizing n with
  | done a =>
      have hstop : headerTagGoesOn env calls a = false := by rw [headerTagGoesOn, if_pos hend]
      cases n with
      | zero =>
          obtain rfl : a = t := Option.some.inj h
          rw [hstop] at hgo
          cases hgo
      | succ n =>
          obtain ⟨next, hnext, -⟩ := steps_succ_eq_some h
          rw [(headerNext_eq_some hnext).2.1] at hstop
          cases hstop
  | @record a z r hts htype hsize hbody hrest ih =>
      have hle := hrest.end_eq
      have hrsize : r.size = 8 + r.body.length := rfl
      cases n with
      | zero =>
          obtain rfl : a = t := Option.some.inj h
          rw [SizeAdvances, hsize]
          exact ⟨by omega, by omega⟩
      | succ n =>
          obtain ⟨next, hnext, hrun⟩ := steps_succ_eq_some h
          obtain ⟨-, -, rfl⟩ := headerNext_eq_some hnext
          have hnext : nextTag env.mem a = a + (r.size + padTo 8 r.size) := by
            rw [nextTag_eq hsize, u32_of_lt (by omega)]
          rw [hnext] at hrun
          exact ih hend hz hrun

theorem ValidHeader.tagsAdvance {env : Mb2Env} {head z : Nat} {hts : List Record}
    (h : ValidHeader env.mem head hts z) : TagsAdvance env head := by
  have hend := h.tags.end_eq
  have hin := h.inHeader
  have hmem := h.inMemory
  intro calls n t hn _ hgo
  rw [u32_of_lt (by omega)] at hn
  exact tagsAdvance_of_walks h.tags h.terminated (by omega) hn hgo

/-! ## A tag of size 0 -/

/-- A header of 24 bytes: a tag of a kind that is not known, optional, whose
    size is 0. -/
def zeroHeader : List UInt8 :=
  toLe 4 multiboot2HeadMagic ++ toLe 4 multiboot2HeadX86 ++ toLe 4 24 ++ toLe 4 0x17ADAF12 ++
    toLe 2 2 ++ toLe 2 multiboot2TagOptional ++ toLe 4 0

def zeroEnv : Mb2Env where
  mem := storeAt (fun _ => 0) (0x100000 : Nat) zeroHeader
  cfg := ⟨none, []⟩
  bios := ⟨none, none, fun _ => none⟩

/-- The loop stays at the tag. -/
theorem headerStep_zero (st : Mb2State) :
    headerStep zeroEnv (headerBound zeroEnv 0x100000) 0 (u32 0x100010, st) =
      some (u32 0x100010, st) := by
  have hb : u32 0x100010 < headerBound zeroEnv 0x100000 := by decide +kernel
  have hend : memField zeroEnv.mem (u32 0x100010) 2 = 2 := by decide +kernel
  have hflags : memField zeroEnv.mem (u32 0x100010 + 2) 2 = multiboot2TagOptional := by
    decide +kernel
  have hnext : nextTag zeroEnv.mem (u32 0x100010) = u32 0x100010 := by decide +kernel
  rw [headerStep, if_pos hb]
  dsimp only
  rw [mb2HeaderTag, hend, hflags, hnext]
  rfl

/-- The unconditional statement fails: the loop never ends. -/
theorem walkEnds_zero : HeaderAccepted zeroEnv.mem 0x100000 ∧ ¬ WalkEnds zeroEnv 0x100000 0 := by
  have haccepted : HeaderAccepted zeroEnv.mem 0x100000 := by decide +kernel
  refine ⟨haccepted, fun hends => ?_⟩
  obtain ⟨most, hmost⟩ := (hends haccepted 0).1
  have hall := steps_stays (headerStep_zero (headerStart 0x100000 0).2) (most + 1)
  exact absurd (hmost (most + 1) _ hall) (Nat.not_succ_le_self most)

end LBoot.Exec
