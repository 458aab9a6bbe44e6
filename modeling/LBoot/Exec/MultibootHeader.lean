/-
  LBoot.Exec.MultibootHeader

  What `multiboot2_parse` reads of the kernel's header (src/exec/multiboot.c).

  The loop over the header tags is left at a bound that is 16 times the
  header's length behind its start, so what keeps it in the header is the
  END tag, or a tag or a request that is refused.  An information request is
  read word by word, as many as its size field says; a size below 8 says
  nearly 2^30.

  `StaysInHeader` says of the header alone that the walk stays in it.  A
  valid header does (`ValidHeader.staysInHeader`).
-/

import LBoot.Exec.MultibootBuffer

namespace LBoot.Exec

open LBoot.Lib

/-! ## Reads -/

/-- The words of an information request that are looked at: up to the first
    request refused. -/
def mb2RequestReads (env : Mb2Env) (fuel : Nat) : Mb2State → Nat → List Nat → List (Nat × Nat)
  | _, _, [] => []
  | st, a, req :: reqs =>
      (a, 4) ::
        match mb2Request env fuel st req with
        | .error _ => []
        | .ok st => mb2RequestReads env fuel st (a + 4) reqs

/-- A tag, and its requests. -/
def mb2HeaderTagReads (env : Mb2Env) (fuel htag : Nat) (st : Mb2State) : List (Nat × Nat) :=
  (htag, 8) ::
    if memField env.mem htag 2 = headerTagInformationRequest then
      mb2RequestReads env fuel st (htag + 8) (headerRequests env.mem htag)
    else []

/-- The loop over the header tags. -/
def mb2HeaderReads (env : Mb2Env) (bound : Nat) : Nat → Nat → Mb2State → List (Nat × Nat)
  | 0, _, _ => []
  | fuel + 1, htag, st =>
      if htag < bound then
        mb2HeaderTagReads env fuel htag st ++
          match mb2HeaderTag env fuel htag st with
          | .ok (some st) => mb2HeaderReads env bound fuel (nextTag env.mem htag) st
          | _ => []
      else []

/-- The tags and request words `multiboot2_parse` reads. -/
def multiboot2ParseReads (env : Mb2Env) (fuel head rsdp : Nat) : List (Nat × Nat) :=
  if HeaderAccepted env.mem head then
    mb2HeaderReads env (u32 (head + 16 * memField env.mem (head + 8) 4)) fuel (u32 (head + 16))
      ⟨⟨fun _ => 0, [(0, multiboot2Prealloc)]⟩, 8, rsdp⟩
  else []

/-- A block within the first `header_length` bytes of the header. -/
def InHeader (mem : Int → UInt8) (head : Nat) (r : Nat × Nat) : Prop :=
  head ≤ r.1 ∧ r.1 + r.2 ≤ head + memField mem (head + 8) 4

instance (mem : Int → UInt8) (head : Nat) (r : Nat × Nat) : Decidable (InHeader mem head r) :=
  inferInstanceAs (Decidable (_ ∧ _))

/-! ## Headers -/

/-- How many requests are looked at. -/
def requestsLookedAt (env : Mb2Env) (fuel : Nat) : List Nat → Nat
  | [] => 0
  | req :: reqs => if goesOn env fuel req then requestsLookedAt env fuel reqs + 1 else 1

/-- The tag at `htag` is in the header, and so are the requests looked at. -/
def TagInHeader (env : Mb2Env) (fuel head htag : Nat) : Prop :=
  InHeader env.mem head (htag, 8) ∧
    (memField env.mem htag 2 = headerTagInformationRequest →
      htag + 8 + 4 * requestsLookedAt env fuel (headerRequests env.mem htag)
        ≤ head + memField env.mem (head + 8) 4)

/-- So many tags from `htag` on are in the header, or those up to the one at
    which the loop is left. -/
def StaysInHeader (env : Mb2Env) (head bound : Nat) : Nat → Nat → Prop
  | 0, _ => True
  | n + 1, htag =>
      htag < bound → TagInHeader env n head htag ∧
        (headerTagGoesOn env n htag = true →
          StaysInHeader env head bound n (nextTag env.mem htag))

section

variable {env : Mb2Env} {fuel head : Nat}

theorem requestsLookedAt_le (reqs : List Nat) : requestsLookedAt env fuel reqs ≤ reqs.length := by
  induction reqs with
  | nil => exact le_rfl
  | cons req reqs ih =>
      rw [requestsLookedAt, List.length_cons]
      split_ifs <;> omega

/-- The requests of one tag. -/
theorem mb2RequestReads_inHeader {reqs : List Nat} {a : Nat} (hhead : head ≤ a)
    (ha : a ≤ head + memField env.mem (head + 8) 4) (st : Mb2State) :
    (∀ r ∈ mb2RequestReads env fuel st a reqs, InHeader env.mem head r) ↔
      a + 4 * requestsLookedAt env fuel reqs ≤ head + memField env.mem (head + 8) 4 := by
  induction reqs generalizing a st with
  | nil =>
      rw [mb2RequestReads, requestsLookedAt]
      exact iff_of_true (by simp) ha
  | cons req reqs ih =>
      have hok := mb2Request_isOk env fuel st req
      rw [mb2RequestReads, requestsLookedAt, List.forall_mem_cons]
      by_cases hone : a + 4 ≤ head + memField env.mem (head + 8) 4
      · rw [and_iff_right ⟨hhead, hone⟩, ← hok]
        cases mb2Request env fuel st req with
        | error e => exact iff_of_true (by simp) hone
        | ok st' =>
            show (∀ r ∈ mb2RequestReads env fuel st' (a + 4) reqs, InHeader env.mem head r) ↔
              a + 4 * (requestsLookedAt env fuel reqs + 1) ≤ _
            rw [ih (by omega) hone, Nat.mul_succ]
            omega
      · refine iff_of_false (fun h => hone h.1.2) fun h => hone ?_
        split_ifs at h <;> omega

theorem mb2HeaderTagReads_inHeader (htag : Nat) (st : Mb2State) :
    (∀ r ∈ mb2HeaderTagReads env fuel htag st, InHeader env.mem head r) ↔
      TagInHeader env fuel head htag := by
  rw [mb2HeaderTagReads, List.forall_mem_cons, TagInHeader]
  refine and_congr_right fun htagIn => ?_
  split_ifs with hinfo
  · rw [mb2RequestReads_inHeader (Nat.le_add_right_of_le htagIn.1) htagIn.2]
    exact ⟨fun h _ => h, fun h => h hinfo⟩
  · exact iff_of_true (by simp) fun h => absurd h hinfo

/-- **The loop over the header tags** reads in the header if and only if the
    walk stays in it. -/
theorem mb2HeaderReads_inHeader {bound htag : Nat} {st : Mb2State} :
    (∀ r ∈ mb2HeaderReads env bound fuel htag st, InHeader env.mem head r) ↔
      StaysInHeader env head bound fuel htag := by
  induction fuel generalizing htag st with
  | zero => exact iff_of_true (by simp [mb2HeaderReads]) trivial
  | succ fuel ih =>
      have hgo := mb2HeaderTag_goesOn env fuel htag st
      rw [mb2HeaderReads, StaysInHeader]
      split_ifs with hbound
      · rw [forall_prop_of_true hbound, List.forall_mem_append, mb2HeaderTagReads_inHeader]
        refine and_congr_right fun _ => ?_
        -- the loop goes on exactly where the walk does
        cases hret : mb2HeaderTag env fuel htag st with
        | error e =>
            refine iff_of_true (by simp) fun hmore => ?_
            obtain ⟨st', hst'⟩ := hgo.mpr hmore
            rw [hret] at hst'
            cases hst'
        | ok res =>
            cases res with
            | none =>
                refine iff_of_true (by simp) fun hmore => ?_
                obtain ⟨st', hst'⟩ := hgo.mpr hmore
                rw [hret] at hst'
                cases hst'
            | some st' =>
                rw [forall_prop_of_true (hgo.mp ⟨st', hret⟩)]
                exact ih
      · exact iff_of_true (by simp) fun h => absurd h hbound

/-- A valid header is not left: its END tag is reached before that. -/
theorem staysInHeader_of_walks {bound z htag : Nat} {hts : List Record}
    (hwalk : Walks 8 env.mem htag hts z) (hend : memField env.mem z 2 = headerTagEnd)
    (hhead : head ≤ htag) (hz : z + 8 ≤ head + memField env.mem (head + 8) 4)
    (hmem : head + memField env.mem (head + 8) 4 ≤ 2 ^ 32) (n : Nat) :
    StaysInHeader env head bound n htag := by
  induction hwalk generalizing n with
  | done a =>
      cases n with
      | zero => trivial
      | succ n =>
          intro _
          refine ⟨⟨⟨hhead, hz⟩, fun hinfo => ?_⟩, fun hmore => ?_⟩
          · rw [hend] at hinfo
            cases hinfo
          · rw [headerTagGoesOn, if_pos hend] at hmore
            cases hmore
  | @record a z r hts htype hsize hbody hrest ih =>
      have hle := hrest.end_eq
      have hnext : nextTag env.mem a = a + (r.size + padTo 8 r.size) := by
        rw [nextTag_eq hsize, u32_of_lt (by omega)]
      have hrsize : r.size = 8 + r.body.length := rfl
      cases n with
      | zero => trivial
      | succ n =>
          intro _
          refine ⟨⟨⟨hhead, by dsimp only; omega⟩, fun hinfo => ?_⟩, fun _ => ?_⟩
          · -- no more requests than the record has room for
            have hlow : memField env.mem a 2 = r.type % 2 ^ 16 := by
              rw [← htype]
              exact memField_low env.mem a 2 2
            rw [hlow] at hinfo
            have hcount := @requestsLookedAt_le env n (headerRequests env.mem a)
            rw [headerRequests_eq hinfo hsize hbody, recordRequests, if_pos hinfo, List.length_map,
              List.length_range] at hcount
            rw [headerRequests_eq hinfo hsize hbody, recordRequests, if_pos hinfo]
            omega
          · rw [hnext]
            exact ih hend (by omega) hz n

end

theorem ValidHeader.staysInHeader {env : Mb2Env} {head z : Nat} {hts : List Record}
    (h : ValidHeader env.mem head hts z) (bound n : Nat) :
    StaysInHeader env head bound n (head + 16) :=
  staysInHeader_of_walks h.tags h.terminated (Nat.le_add_right head 16) h.inHeader h.inMemory n

/-- **The header.**  Every run reads tags and request words in the header only,
    if and only if, from its first tag on, the header is not left in front
    of an END tag, or of a tag or a request that is refused. -/
theorem multiboot2ParseReads_inHeader_iff (env : Mb2Env) (head rsdp : Nat) :
    (∀ fuel, ∀ r ∈ multiboot2ParseReads env fuel head rsdp, InHeader env.mem head r) ↔
      (HeaderAccepted env.mem head → ∀ n,
        StaysInHeader env head (u32 (head + 16 * memField env.mem (head + 8) 4)) n
          (u32 (head + 16))) := by
  constructor
  · intro h haccepted n
    have hrun := h n
    rw [multiboot2ParseReads, if_pos haccepted] at hrun
    exact mb2HeaderReads_inHeader.mp hrun
  · intro h n
    rw [multiboot2ParseReads]
    split_ifs with haccepted
    · exact mb2HeaderReads_inHeader.mpr (h haccepted n)
    · simp

/-- A header of 24 bytes: one tag that may be skipped, and no END tag. -/
def openHeader : List UInt8 :=
  toLe 4 multiboot2HeadMagic ++ toLe 4 multiboot2HeadX86 ++ toLe 4 24 ++ toLe 4 0x17ADAF12 ++
    toLe 2 2 ++ toLe 2 multiboot2TagOptional ++ toLe 4 8

def openEnv : Mb2Env where
  mem := storeAt (fun _ => 0) (0x100000 : Nat) openHeader
  cfg := ⟨none, []⟩
  bios := ⟨none, none, fun _ => none⟩

/-- The unconditional statement fails: the loop goes on behind the header. -/
theorem multiboot2ParseReads_open : HeaderAccepted openEnv.mem 0x100000 ∧
    ¬ ∀ r ∈ multiboot2ParseReads openEnv 2 0x100000 0, InHeader openEnv.mem 0x100000 r := by
  decide +kernel

end LBoot.Exec
