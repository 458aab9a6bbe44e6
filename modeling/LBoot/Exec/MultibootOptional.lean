/-
  LBoot.Exec.MultibootOptional

  Header tags with the OPTIONAL flag (src/exec/multiboot.c).

  `multiboot2_parse` gives up at two places: at a tag of a kind it does not
  know, unless the tag is optional, and at a request for a tag it does not
  know.  The second does not look at the flag of the tag the request is in.

  `blockingTag` is the tag of a valid header at which the parser gives up,
  read off the header alone.
-/

import LBoot.Exec.MultibootWalk

namespace LBoot.Exec

open LBoot.Lib

/-- The `flags` of a header tag. -/
def recordFlags (r : Record) : Nat := r.type / 2 ^ 16

/-- The tag carries the OPTIONAL flag. -/
def IsOptional (r : Record) : Prop := recordFlags r &&& multiboot2TagOptional ≠ 0

/-- The information that can be asked for. -/
def supportedRequests : List Nat :=
  [tagCmdline, tagBootloaderName, tagModule, tagBasicMeminfo, tagMmap, tagAcpiOld, tagAcpiNew]

/-- An information request that names supported information only; no other
    kind of tag is supported. -/
def IsSupported (r : Record) : Prop :=
  r.type % 2 ^ 16 = headerTagInformationRequest ∧ ∀ req ∈ recordRequests r, req ∈ supportedRequests

/-- The parser gives up at the tag. -/
def IsRefused (r : Record) : Prop :=
  if r.type % 2 ^ 16 = headerTagInformationRequest then
    ¬ ∀ req ∈ recordRequests r, req ∈ supportedRequests
  else ¬ IsOptional r

instance (r : Record) : Decidable (IsOptional r) := inferInstanceAs (Decidable (_ ≠ _))

instance (r : Record) : Decidable (IsSupported r) := inferInstanceAs (Decidable (_ ∧ _))

instance (r : Record) : Decidable (IsRefused r) :=
  inferInstanceAs (Decidable (if r.type % 2 ^ 16 = headerTagInformationRequest then
    ¬ ∀ req ∈ recordRequests r, req ∈ supportedRequests else ¬ IsOptional r))

/-- The first of the tags from `a` on that is refused, if it is in front of the
    bound. -/
def blockingTag (bound : Nat) : Nat → List Record → Option Record
  | _, [] => none
  | a, r :: rs =>
      if a < bound then
        if IsRefused r then some r
        else blockingTag bound (a + (r.size + padTo 8 r.size)) rs
      else none

/-- NULL is returned only if a tag without the OPTIONAL flag is not supported,
    and no tag with the flag is one at which the parser gives up. -/
structure OptionalNeverBlocks (env : Mb2Env) (head rsdp : Nat) (hts : List Record) : Prop where
  required : (∃ fuel, multiboot2Parse env fuel head rsdp = .error .null) →
    ∃ r ∈ hts, ¬ IsOptional r ∧ ¬ IsSupported r
  optional : ∀ calls n c, headerWalk env calls head rsdp n = some c →
    c.1 < headerBound env head → mb2HeaderTag env calls c.1 c.2 = .error .null →
      memField env.mem (c.1 + 2) 2 &&& multiboot2TagOptional = 0

/-! ## Requests and tags -/

section

variable {env : Mb2Env} (hbios : env.bios.int1588.isSome = true)
include hbios

/-- With a BIOS that answers, the parser gives up at unknown requests only. -/
theorem mb2Request_null {fuel : Nat} {st : Mb2State} {req : Nat}
    (h : mb2Request env fuel st req = .error .null) : req ∉ supportedRequests := by
  rw [mb2Request] at h
  by_cases hcmd : req = tagCmdline
  · rw [if_pos hcmd] at h
    cases hcfg : env.cfg.kernelCmdline <;> rw [hcfg] at h <;> cases h
  · rw [if_neg hcmd] at h
    by_cases hmem : req = tagBasicMeminfo
    · subst hmem
      obtain ⟨ax, hax⟩ := Option.isSome_iff_exists.mp hbios
      rw [if_neg (by decide), if_neg (by decide), if_pos rfl, poptagMeminfo_eq, hax] at h
      cases h
    · by_cases hmmap : req = tagMmap
      · subst hmmap
        rw [if_neg (by decide), if_neg (by decide), if_neg (by decide), if_pos rfl] at h
        cases hpop : poptagMmap env.bios fuel st.buf st.next <;> rw [hpop] at h <;> cases h
      · -- the other kinds are served, or not known
        rw [if_neg hmem, if_neg hmmap] at h
        split_ifs at h with hname hmod hold hnew
        simp [supportedRequests, hcmd, hname, hmod, hmem, hmmap, hold, hnew]

theorem mb2Requests_null {fuel : Nat} {st : Mb2State} {reqs : List Nat}
    (h : mb2Requests env fuel st reqs = .error .null) : ¬ ∀ req ∈ reqs, req ∈ supportedRequests := by
  induction reqs generalizing st with
  | nil => cases h
  | cons req reqs ih =>
      rw [mb2Requests] at h
      rw [List.forall_mem_cons, not_and_or]
      cases hreq : mb2Request env fuel st req with
      | error e =>
          rw [hreq] at h
          obtain rfl : e = .null := Except.error.inj h
          exact .inl (mb2Request_null hbios hreq)
      | ok st' =>
          rw [hreq] at h
          exact .inr (ih h)

/-- Supported requests go on, if the BIOS is done with its map by then. -/
theorem goesOn_iff {k fuel : Nat} (hmap : (e820Map env.bios.e820 k 0).2 = true) (hle : k ≤ fuel)
    (req : Nat) : goesOn env fuel req = true ↔ req ∈ supportedRequests := by
  rw [goesOn]
  split_ifs with hmem hmmap
  · simp [hmem, hbios, supportedRequests]
  · simp [hmmap, e820Map_mono hmap hle, supportedRequests]
  · simp [supportedRequests, hmem, hmmap]

end

/-- Requests that all go on are supported. -/
theorem supported_of_goesOn {env : Mb2Env} {fuel req : Nat} (h : goesOn env fuel req = true) :
    req ∈ supportedRequests := by
  rw [goesOn] at h
  split_ifs at h with hmem hmmap
  · simp [hmem, supportedRequests]
  · simp [hmmap, supportedRequests]
  · have hin := of_decide_eq_true h
    simp only [List.mem_cons, List.not_mem_nil, or_false] at hin
    rcases hin with rfl | rfl | rfl | rfl | rfl <;> simp [supportedRequests]

/-- The tag of a header at an address. -/
structure TagAt (mem : Int → UInt8) (a : Nat) (r : Record) : Prop where
  type : memField mem a 4 = r.type
  size : memField mem (a + 4) 4 = r.size
  body : loadAt mem (a + 8 : Nat) r.body.length = r.body

namespace TagAt

variable {env : Mb2Env} {a : Nat} {r : Record}

theorem kind (h : TagAt env.mem a r) : memField env.mem a 2 = r.type % 2 ^ 16 := by
  rw [← h.type]
  exact memField_low env.mem a 2 2

theorem flags (h : TagAt env.mem a r) : memField env.mem (a + 2) 2 = recordFlags r := by
  have hlt := memField_lt env.mem a 2
  have hsplit : memField env.mem a 4 = memField env.mem a 2 + 256 ^ 2 * memField env.mem (a + 2) 2 := by
    have haddr : ((a + 2 : Nat) : Int) = a + (2 : Nat) := by omega
    rw [memField, memField, memField, haddr, loadAt_append (n := 2) (k := 2), leNat_append,
      length_loadAt]
  rw [h.type] at hsplit
  rw [recordFlags, hsplit]
  omega

theorem goesOn_refused {fuel : Nat} (h : TagAt env.mem a r)
    (hgo : headerTagGoesOn env fuel a = true) : ¬ IsRefused r := by
  rw [headerTagGoesOn, h.kind] at hgo
  rw [IsRefused]
  by_cases hend : r.type % 2 ^ 16 = headerTagEnd
  · rw [if_pos hend] at hgo
    cases hgo
  rw [if_neg hend] at hgo
  split_ifs at hgo ⊢ with hinfo
  · rw [headerRequests_eq hinfo h.size h.body, List.all_eq_true] at hgo
    exact fun hall => hall fun req hreq => supported_of_goesOn (hgo req hreq)
  · rw [h.flags] at hgo
    exact fun hnot => hnot (of_decide_eq_true hgo)

theorem null_refused {fuel : Nat} {st : Mb2State} (hbios : env.bios.int1588.isSome = true)
    (h : TagAt env.mem a r) (hnull : mb2HeaderTag env fuel a st = .error .null) : IsRefused r := by
  rw [mb2HeaderTag, h.kind, h.flags] at hnull
  rw [IsRefused]
  by_cases hend : r.type % 2 ^ 16 = headerTagEnd
  · rw [if_pos hend] at hnull
    cases hnull
  rw [if_neg hend] at hnull
  split_ifs at hnull ⊢ with hinfo hflags
  · rw [headerRequests_eq hinfo h.size h.body] at hnull
    cases hreqs : mb2Requests env fuel st (recordRequests r) with
    | error e =>
        rw [hreqs] at hnull
        obtain rfl : e = .null := Except.error.inj hnull
        exact mb2Requests_null hbios hreqs
    | ok st' =>
        rw [hreqs] at hnull
        cases hnull
  · exact not_not.mpr hflags

/-- A tag that is refused ends the parser. -/
theorem refused_null {k fuel : Nat} {st : Mb2State}
    (hmap : (e820Map env.bios.e820 k 0).2 = true) (hle : k ≤ fuel) (h : TagAt env.mem a r)
    (hend : r.type % 2 ^ 16 ≠ headerTagEnd) (hrefused : IsRefused r) :
    mb2HeaderTag env fuel a st = .error .null := by
  have hstuck := mb2HeaderTag_not_stuck hmap hle a st
  cases hst : mb2HeaderTag env fuel a st with
  | error e =>
      cases e with
      | null => rfl
      | stuck => exact absurd hst hstuck
  | ok res =>
      cases res with
      | none => exact absurd (h.kind.symm.trans (mb2HeaderTag_end hst)) hend
      | some st' =>
          exact absurd hrefused (h.goesOn_refused ((mb2HeaderTag_goesOn env fuel a st).mp ⟨st', hst⟩))

/-- One that is not is passed. -/
theorem passed {k fuel : Nat} (hbios : env.bios.int1588.isSome = true)
    (hmap : (e820Map env.bios.e820 k 0).2 = true) (hle : k ≤ fuel) (h : TagAt env.mem a r)
    (hend : r.type % 2 ^ 16 ≠ headerTagEnd) (hrefused : ¬ IsRefused r) (st : Mb2State) :
    ∃ st', mb2HeaderTag env fuel a st = .ok (some st') := by
  rw [mb2HeaderTag_goesOn, headerTagGoesOn, h.kind, if_neg hend]
  rw [IsRefused] at hrefused
  split_ifs at hrefused ⊢ with hinfo
  · rw [headerRequests_eq hinfo h.size h.body, List.all_eq_true]
    exact fun req hreq => (goesOn_iff hbios hmap hle req).mpr (not_not.mp hrefused req hreq)
  · rw [h.flags]
    exact decide_eq_true (not_not.mp hrefused)

end TagAt

/-! ## The loop -/

theorem blockingTag_refused {bound a : Nat} {hts : List Record} {r : Record}
    (h : blockingTag bound a hts = some r) : r ∈ hts ∧ IsRefused r := by
  induction hts generalizing a with
  | nil => cases h
  | cons s hts ih =>
      rw [blockingTag] at h
      split_ifs at h with hb hs
      · obtain rfl : s = r := Option.some.inj h
        exact ⟨List.mem_cons_self, hs⟩
      · exact ⟨List.mem_cons_of_mem _ (ih h).1, (ih h).2⟩

/-- A required tag that is refused is not supported. -/
theorem not_supported_of_refused {r : Record} (h : IsRefused r) (hreq : ¬ IsOptional r) :
    ¬ IsOptional r ∧ ¬ IsSupported r := by
  refine ⟨hreq, fun hsup => ?_⟩
  rw [IsRefused, if_pos hsup.1] at h
  exact h hsup.2

section

variable {env : Mb2Env} {bound z a : Nat} {hts : List Record}
  (hbios : env.bios.int1588.isSome = true) (hend : memField env.mem z 2 = headerTagEnd)
  (hz : z < 2 ^ 32)

include hbios hend hz

/-- NULL comes from the blocking tag. -/
theorem mb2HeaderLoop_null (hwalk : Walks 8 env.mem a hts z) {fuel : Nat} {st : Mb2State}
    (h : mb2HeaderLoop env bound fuel a st = .error .null) :
    ∃ r, blockingTag bound a hts = some r := by
  induction hwalk generalizing fuel st with
  | done a =>
      cases fuel with
      | zero => cases h
      | succ fuel =>
          rw [mb2HeaderLoop, mb2HeaderTag, if_pos hend] at h
          split_ifs at h
  | @record a z r hts htype hsize hbody hrest ih =>
      have hle := hrest.end_eq
      have hnext : nextTag env.mem a = a + (r.size + padTo 8 r.size) := by
        rw [nextTag_eq hsize, u32_of_lt (by omega)]
      have hat : TagAt env.mem a r := ⟨htype, hsize, hbody⟩
      cases fuel with
      | zero => cases h
      | succ fuel =>
          rw [mb2HeaderLoop, hnext] at h
          split_ifs at h with hb
          rw [blockingTag, if_pos hb]
          split_ifs with hrefused
          · exact ⟨r, rfl⟩
          · cases htag : mb2HeaderTag env fuel a st with
            | error e =>
                rw [htag] at h
                obtain rfl : e = .null := Except.error.inj h
                exact absurd (hat.null_refused hbios htag) hrefused
            | ok res =>
                rw [htag] at h
                cases res with
                | none => cases h
                | some st' => exact ih hend hz h

/-- The iterations end at the blocking tag if they end with NULL. -/
theorem headerWalk_null (hwalk : Walks 8 env.mem a hts z) {calls n : Nat} {st : Mb2State}
    {c : Nat × Mb2State} (hrun : steps (headerStep env bound calls) n (a, st) = some c)
    (hc : c.1 < bound) (hnull : mb2HeaderTag env calls c.1 c.2 = .error .null) :
    ∃ r, blockingTag bound a hts = some r ∧ memField env.mem (c.1 + 2) 2 = recordFlags r := by
  induction hwalk generalizing n st with
  | done a =>
      have hstop : ∀ st, mb2HeaderTag env calls a st = .ok none := fun st => by
        rw [mb2HeaderTag, if_pos hend]
      cases n with
      | zero =>
          obtain rfl : (a, st) = c := Option.some.inj hrun
          rw [hstop] at hnull
          cases hnull
      | succ n =>
          obtain ⟨c', hstep, -⟩ := steps_succ_eq_some hrun
          rw [headerStep, hstop] at hstep
          split_ifs at hstep
  | @record a z r hts htype hsize hbody hrest ih =>
      have hle := hrest.end_eq
      have hnext : nextTag env.mem a = a + (r.size + padTo 8 r.size) := by
        rw [nextTag_eq hsize, u32_of_lt (by omega)]
      have hat : TagAt env.mem a r := ⟨htype, hsize, hbody⟩
      rw [blockingTag]
      cases n with
      | zero =>
          obtain rfl : (a, st) = c := Option.some.inj hrun
          rw [if_pos hc, if_pos (hat.null_refused hbios hnull)]
          exact ⟨r, rfl, hat.flags⟩
      | succ n =>
          obtain ⟨c', hstep, hrun⟩ := steps_succ_eq_some hrun
          obtain ⟨hb, hgo, hc'⟩ := headerNext_eq_some (headerStep_next hstep)
          obtain ⟨htag, st'⟩ := c'
          obtain rfl : htag = a + (r.size + padTo 8 r.size) := hc'.trans hnext
          rw [if_pos hb, if_neg (hat.goesOn_refused hgo)]
          exact ih hend hz hrun

/-- The iterations come to the blocking tag, and end with NULL there. -/
theorem headerWalk_blocking (hwalk : Walks 8 env.mem a hts z)
    (hnoEnd : ∀ r ∈ hts, r.type % 2 ^ 16 ≠ headerTagEnd) {k : Nat}
    (hmap : (e820Map env.bios.e820 k 0).2 = true) {r : Record}
    (hblock : blockingTag bound a hts = some r) (st : Mb2State) :
    ∃ n c, steps (headerStep env bound k) n (a, st) = some c ∧ c.1 < bound ∧
      mb2HeaderTag env k c.1 c.2 = .error .null ∧ memField env.mem (c.1 + 2) 2 = recordFlags r := by
  induction hwalk generalizing st with
  | done a => cases hblock
  | @record a z s hts htype hsize hbody hrest ih =>
      have hle := hrest.end_eq
      have hnext : nextTag env.mem a = a + (s.size + padTo 8 s.size) := by
        rw [nextTag_eq hsize, u32_of_lt (by omega)]
      have hat : TagAt env.mem a s := ⟨htype, hsize, hbody⟩
      have hs := hnoEnd s List.mem_cons_self
      rw [blockingTag] at hblock
      split_ifs at hblock with hb hrefused
      · obtain rfl : s = r := Option.some.inj hblock
        exact ⟨0, (a, st), rfl, hb, hat.refused_null hmap le_rfl hs hrefused, hat.flags⟩
      · obtain ⟨st', hst'⟩ := hat.passed hbios hmap le_rfl hs hrefused st
        obtain ⟨n, c, hrun, hc⟩ := ih hend hz (fun t ht => hnoEnd t (List.mem_cons_of_mem _ ht))
          hblock st'
        refine ⟨n + 1, c, ?_, hc⟩
        rw [steps_succ, headerStep, if_pos hb, hst', hnext]
        exact hrun

end

/-- NULL for an accepted header comes from the loop. -/
theorem multiboot2Parse_null_loop {env : Mb2Env} {fuel head rsdp : Nat}
    (haccepted : HeaderAccepted env.mem head)
    (h : multiboot2Parse env fuel head rsdp = .error .null) :
    mb2HeaderLoop env (headerBound env head) fuel (headerStart head rsdp).1 (headerStart head rsdp).2 =
      .error .null := by
  obtain ⟨⟨hmagic, harch⟩, hsum⟩ := haccepted
  rw [multiboot2Parse, if_neg (by rw [hmagic, harch]; simp), if_neg (not_not.mpr hsum)] at h
  dsimp only at h
  split at h
  next e he =>
    obtain rfl : e = .null := Except.error.inj h
    exact he
  next => cases h

/-- **Optional tags.**  For a valid header that is accepted, and a BIOS that
    answers, tags with the OPTIONAL flag never make the parser fail, if and
    only if the first tag that is refused, in front of the bound, is not an
    optional one.  Such a tag is an information request. -/
theorem optionalNeverBlocks_iff {env : Mb2Env} {head rsdp z : Nat} {hts : List Record}
    (haccepted : HeaderAccepted env.mem head) (hvalid : ValidHeader env.mem head hts z)
    (hbios : env.bios.int1588.isSome = true) (hmap : ∃ k, (e820Map env.bios.e820 k 0).2 = true) :
    OptionalNeverBlocks env head rsdp hts ↔
      ∀ r, blockingTag (headerBound env head) (head + 16) hts = some r → ¬ IsOptional r := by
  have hin := hvalid.inHeader
  have hmem := hvalid.inMemory
  have hstart := hvalid.tags.end_eq
  have hz : z < 2 ^ 32 := by omega
  have hfirst : headerStart head rsdp = (head + 16, (headerStart head rsdp).2) := by
    rw [headerStart, u32_of_lt (by omega)]
  constructor
  · intro hnever r hblock
    obtain ⟨k, hmap⟩ := hmap
    obtain ⟨n, c, hrun, hc, hnull, hflags⟩ := headerWalk_blocking hbios hvalid.terminated hz
      hvalid.tags hvalid.noEnd hmap hblock (headerStart head rsdp).2
    rw [← hfirst] at hrun
    have hclear := hnever.optional k n c hrun hc hnull
    rw [hflags] at hclear
    exact not_not.mpr hclear
  · intro hclear
    refine ⟨fun ⟨fuel, hnull⟩ => ?_, fun calls n c hrun hc hnull => ?_⟩
    · have hloop := multiboot2Parse_null_loop haccepted hnull
      rw [hfirst] at hloop
      obtain ⟨r, hblock⟩ := mb2HeaderLoop_null hbios hvalid.terminated hz hvalid.tags hloop
      obtain ⟨hr, hrefused⟩ := blockingTag_refused hblock
      exact ⟨r, hr, not_supported_of_refused hrefused (hclear r hblock)⟩
    · rw [headerWalk, hfirst] at hrun
      obtain ⟨r, hblock, hflags⟩ := headerWalk_null hbios hvalid.terminated hz hvalid.tags hrun hc hnull
      rw [hflags]
      exact not_not.mp (hclear r hblock)

/-! ### A kernel that would like to know something -/

/-- Its header: one optional information request, for this tag type, and the
    END tag. -/
def optionalHeader (type : Nat) : List UInt8 :=
  toLe 4 multiboot2HeadMagic ++ toLe 4 multiboot2HeadX86 ++ toLe 4 40 ++ toLe 4 0x17ADAF02 ++
    toLe 2 headerTagInformationRequest ++ toLe 2 multiboot2TagOptional ++ toLe 4 12 ++
    toLe 4 type ++ toLe 4 0 ++ toLe 4 headerTagEnd ++ toLe 4 8

/-- The header at 1 MiB, and a BIOS that reports 1 MiB of memory. -/
def optionalEnv (type : Nat) : Mb2Env where
  mem := storeAt (fun _ => 0) (0x100000 : Nat) (optionalHeader type)
  cfg := ⟨none, []⟩
  bios := ⟨some 640, some 1024, fun _ => none⟩

def optionalRequest (type : Nat) : Record := ⟨0x10001, toLe 4 type, by decide⟩

section Optional

variable {type : Nat}

/-- The amount of memory is known, the boot device is not. -/
theorem optionalEnv_header (htype : type = 4 ∨ type = 5) :
    ValidHeader (optionalEnv type).mem 0x100000 [optionalRequest type] 0x100020 := by
  rcases htype with rfl | rfl
  all_goals exact {
    tags := .record (optionalRequest _) (by decide +kernel) (by decide +kernel)
      (by decide +kernel) (.done _)
    noEnd := by decide
    terminated := by decide +kernel
    inHeader := by decide +kernel
    inMemory := by decide +kernel }

theorem optionalEnv_accepted (htype : type = 4 ∨ type = 5) :
    HeaderAccepted (optionalEnv type).mem 0x100000 := by
  rcases htype with rfl | rfl <;> decide +kernel

end Optional

/-- A request for the amount of memory is answered, optional or not. -/
theorem optionalNeverBlocks_meminfo :
    OptionalNeverBlocks (optionalEnv 4) 0x100000 0 [optionalRequest 4] := by
  refine (optionalNeverBlocks_iff (optionalEnv_accepted (Or.inl rfl))
    (optionalEnv_header (Or.inl rfl)) rfl ⟨1, rfl⟩).mpr fun r hr => ?_
  have hnone : blockingTag (headerBound (optionalEnv 4) 0x100000) (0x100000 + 16)
      [optionalRequest 4] = none := by decide +kernel
  rw [hnone] at hr
  cases hr

/-- The unconditional statement fails: the parser gives up on the boot device,
    and no tag without the flag is there. -/
theorem optionalNeverBlocks_fails : HeaderAccepted (optionalEnv 5).mem 0x100000 ∧
    ValidHeader (optionalEnv 5).mem 0x100000 [optionalRequest 5] 0x100020 ∧
      ¬ OptionalNeverBlocks (optionalEnv 5) 0x100000 0 [optionalRequest 5] := by
  refine ⟨optionalEnv_accepted (Or.inr rfl), optionalEnv_header (Or.inr rfl), fun hnever => ?_⟩
  have hnull : (match multiboot2Parse (optionalEnv 5) 2 0x100000 0 with
      | .error .null => true
      | _ => false) = true := by decide +kernel
  obtain ⟨r, hr, hrequired, -⟩ := hnever.required ⟨2, by
    cases hret : multiboot2Parse (optionalEnv 5) 2 0x100000 0 with
    | error e =>
        cases e with
        | null => rfl
        | stuck =>
            rw [hret] at hnull
            cases hnull
    | ok res =>
        rw [hret] at hnull
        cases hnull⟩
  rw [List.mem_singleton] at hr
  subst hr
  exact hrequired (by decide)

end LBoot.Exec
