/-
  LBoot.Exec.MultibootBuffer

  What `multiboot2_parse` stores, however it ends (src/exec/multiboot.c).

  `multiboot2Parse` drops the buffer of a run that is refused or does not
  end; `…Left` is the buffer such a run leaves, with everything it has stored.

  `askedTags` is what the kernel's requests ask for, read off the header, the
  configuration and the BIOS alone.  As long as all of it fits, the parser's
  state encodes it (`Encodes`) and every block stored is in the buffer; the
  first tag that does not fit is stored over its end, and what is stored
  stays in the log.
-/

import LBoot.Exec.MultibootParse

namespace LBoot.Exec

open LBoot.Lib

/-! ## The buffer a run leaves -/

/-- `_mboot2_poptag_meminfo`, up to its error. -/
def meminfoLeft (bios : Bios) (b : Mb2Buf) (t : Nat) : Mb2Buf :=
  ((b.store t (toLe 4 tagBasicMeminfo)).store (t + 4) (toLe 4 16)).store (t + 8)
    (toLe 4 (lowerMem bios))

/-- The loop of `_mboot2_poptag_mmap`. -/
def mmapLeft (bios : Bios) : Nat → Mb2Buf → Nat → Nat → UInt32 → Mb2Buf
  | 0, b, _, _, _ => b
  | fuel + 1, b, t, idx, ebx =>
      match bios.e820 ebx with
      | none => b
      | some (entry, ebx) =>
          let b := putMmapEntry b t idx entry
          if ebx > 0 then mmapLeft bios fuel b t (idx + 1) ebx else b

/-- `_mboot2_poptag_mmap`. -/
def poptagMmapLeft (bios : Bios) (fuel : Nat) (b : Mb2Buf) (t : Nat) : Mb2Buf :=
  let b := b.store t (toLe 4 tagMmap)
  let b := b.store (t + 4) (toLe 4 16)
  let b := b.store (t + 8) (toLe 4 24)
  let b := b.store (t + 12) (toLe 4 0)
  mmapLeft bios fuel b t 0 0

/-- One information request. -/
def mb2RequestLeft (env : Mb2Env) (fuel : Nat) (st : Mb2State) (req : Nat) : Mb2Buf :=
  if req = tagCmdline then
    match env.cfg.kernelCmdline with
    | none => st.buf
    | some s => putTag st.buf st.next tagCmdline s.bytes
  else if req = tagBootloaderName then
    putTag st.buf st.next tagBootloaderName bootloaderName.bytes
  else if req = tagModule then
    (env.cfg.modules.foldl (fun st mod => st.advance (poptagModule st.buf st.next mod)) st).buf
  else if req = tagBasicMeminfo then
    match poptagMeminfo env.bios st.buf st.next with
    | none => meminfoLeft env.bios st.buf st.next
    | some b => b
  else if req = tagMmap then poptagMmapLeft env.bios fuel st.buf st.next
  else if req = tagAcpiOld then (mb2Acpi env (poptagAcpiold env.mem) st).buf
  else if req = tagAcpiNew then (mb2Acpi env (poptagAcpinew env.mem) st).buf
  else st.buf

/-- The requests of a header tag. -/
def mb2RequestsLeft (env : Mb2Env) (fuel : Nat) : Mb2State → List Nat → Mb2Buf
  | st, [] => st.buf
  | st, req :: reqs =>
      match mb2Request env fuel st req with
      | .error _ => mb2RequestLeft env fuel st req
      | .ok st => mb2RequestsLeft env fuel st reqs

/-- The body of the loop over the header tags: only requests store anything. -/
def mb2HeaderTagLeft (env : Mb2Env) (fuel htag : Nat) (st : Mb2State) : Mb2Buf :=
  if memField env.mem htag 2 = headerTagInformationRequest then
    mb2RequestsLeft env fuel st (headerRequests env.mem htag)
  else st.buf

/-- The loop over the header tags. -/
def mb2HeaderLoopLeft (env : Mb2Env) (bound : Nat) : Nat → Nat → Mb2State → Mb2Buf
  | 0, _, st => st.buf
  | fuel + 1, htag, st =>
      if htag < bound then
        match mb2HeaderTag env fuel htag st with
        | .error _ => mb2HeaderTagLeft env fuel htag st
        | .ok none => st.buf
        | .ok (some st) => mb2HeaderLoopLeft env bound fuel (nextTag env.mem htag) st
      else st.buf

/-- The header passes the checks of `multiboot2_parse`. -/
def HeaderAccepted (mem : Int → UInt8) (head : Nat) : Prop :=
  (memField mem head 4 = multiboot2HeadMagic ∧ memField mem (head + 4) 4 = multiboot2HeadX86) ∧
    u32 (memField mem head 4 + memField mem (head + 4) 4 + memField mem (head + 8) 4 +
      memField mem (head + 12) 4) = 0

instance (mem : Int → UInt8) (head : Nat) : Decidable (HeaderAccepted mem head) :=
  inferInstanceAs (Decidable (_ ∧ _))

/-- The blocks `multiboot2_parse` stores. -/
def multiboot2ParseWrites (env : Mb2Env) (fuel head rsdp : Nat) : List (Nat × Nat) :=
  if HeaderAccepted env.mem head then
    let st : Mb2State := ⟨⟨fun _ => 0, [(0, multiboot2Prealloc)]⟩, 8, rsdp⟩
    let bound := u32 (head + 16 * memField env.mem (head + 8) 4)
    let b := mb2HeaderLoopLeft env bound fuel (u32 (head + 16)) st
    match mb2HeaderLoop env bound fuel (u32 (head + 16)) st with
    | .error _ => b.writes
    | .ok st => (b.store 0 (toLe 4 st.next)).writes
  else []

/-! ## What is asked for -/

/-- What the BIOS reports from a continuation value on, within so many calls,
    and if it is done then. -/
def e820Map (e820 : UInt32 → Option (BiosMmapEntry × UInt32)) :
    Nat → UInt32 → List BiosMmapEntry × Bool
  | 0, _ => ([], false)
  | n + 1, ebx =>
      match e820 ebx with
      | none => ([], true)
      | some (entry, ebx) =>
          if ebx > 0 then (entry :: (e820Map e820 n ebx).1, (e820Map e820 n ebx).2)
          else ([entry], true)

/-- The request is not the last one looked at: it is known, and the BIOS
    answers. -/
def goesOn (env : Mb2Env) (fuel req : Nat) : Bool :=
  if req = tagBasicMeminfo then env.bios.int1588.isSome
  else if req = tagMmap then (e820Map env.bios.e820 fuel 0).2
  else req ∈ [tagCmdline, tagBootloaderName, tagModule, tagAcpiOld, tagAcpiNew]

/-- The tags stored for one request; that of the memory sizes even if the
    upper one is not known. -/
def requestTags (env : Mb2Env) (fuel rsdp req : Nat) : List Record :=
  if req = tagBasicMeminfo then
    [meminfoRecord (lowerMem env.bios) (env.bios.int1588.elim 0 UInt16.toNat)]
  else infoTags env (e820Map env.bios.e820 fuel 0).1 rsdp req

/-- The tags for these requests. -/
def askedTags (env : Mb2Env) (fuel rsdp : Nat) : List Nat → List Record
  | [] => []
  | req :: reqs =>
      requestTags env fuel rsdp req ++
        if goesOn env fuel req then askedTags env fuel rsdp reqs else []

/-- The tags for the requests of one header tag. -/
def headerTagAsked (env : Mb2Env) (fuel rsdp htag : Nat) : List Record :=
  if memField env.mem htag 2 = headerTagInformationRequest then
    askedTags env fuel rsdp (headerRequests env.mem htag)
  else []

/-- The header tag is not the last one looked at: it is no END tag, and its
    requests are served, or it may be skipped. -/
def headerTagGoesOn (env : Mb2Env) (fuel htag : Nat) : Bool :=
  if memField env.mem htag 2 = headerTagEnd then false
  else if memField env.mem htag 2 = headerTagInformationRequest then
    (headerRequests env.mem htag).all (goesOn env fuel)
  else memField env.mem (htag + 2) 2 &&& multiboot2TagOptional ≠ 0

/-- The tags for the requests of the header tags from `htag` on. -/
def headerAsked (env : Mb2Env) (rsdp bound : Nat) : Nat → Nat → List Record
  | 0, _ => []
  | fuel + 1, htag =>
      if htag < bound then
        headerTagAsked env fuel rsdp htag ++
          if headerTagGoesOn env fuel htag then
            headerAsked env rsdp bound fuel (nextTag env.mem htag)
          else []
      else []

/-- The tags the kernel asks for within so many header tags and calls of the
    BIOS. -/
def mb2Asked (env : Mb2Env) (fuel head rsdp : Nat) : List Record :=
  if HeaderAccepted env.mem head then
    headerAsked env rsdp (u32 (head + 16 * memField env.mem (head + 8) 4)) fuel (u32 (head + 16))
  else []

/-! ## The log -/

/-- Every block stored is in the buffer. -/
def InBuffer (b : Mb2Buf) : Prop := ∀ w ∈ b.writes, w.1 + w.2 ≤ multiboot2Prealloc

theorem inBuffer_store {b : Mb2Buf} {a : Nat} {bs : List UInt8} :
    InBuffer (b.store a bs) ↔ InBuffer b ∧ a + bs.length ≤ multiboot2Prealloc := by
  rw [InBuffer, Mb2Buf.store, List.forall_mem_append, List.forall_mem_singleton, InBuffer]

theorem inBuffer_putTag {b : Mb2Buf} {t : Nat} (r : Record) :
    InBuffer (putTag b t r.type r.body) ↔ InBuffer b ∧ t + r.size ≤ multiboot2Prealloc := by
  have hsize : r.size = 8 + r.body.length := rfl
  simp only [putTag, inBuffer_store, length_toLe, hsize, and_assoc]
  constructor
  · rintro ⟨hb, -, -, h⟩
    exact ⟨hb, by omega⟩
  · rintro ⟨hb, h⟩
    exact ⟨hb, by omega, by omega, by omega⟩

theorem inBuffer_poptagModule {b : Mb2Buf} {t : Nat} (mod : ConfigModule) :
    InBuffer (poptagModule b t mod) ↔
      InBuffer b ∧ t + (moduleRecord mod).size ≤ multiboot2Prealloc := by
  have hsize : (moduleRecord mod).size = 16 + mod.name.bytes.length := by
    simp only [Record.size, moduleRecord, List.length_append, length_toLe]
    omega
  simp only [poptagModule, inBuffer_store, length_toLe, hsize, and_assoc]
  constructor
  · rintro ⟨hb, -, -, -, -, h⟩
    exact ⟨hb, by omega⟩
  · rintro ⟨hb, h⟩
    exact ⟨hb, by omega, by omega, by omega, by omega, by omega⟩

theorem inBuffer_meminfoLeft {bios : Bios} {b : Mb2Buf} {t : Nat} :
    InBuffer (meminfoLeft bios b t) ↔ InBuffer b ∧ t + 12 ≤ multiboot2Prealloc := by
  simp only [meminfoLeft, inBuffer_store, length_toLe, and_assoc]
  constructor
  · rintro ⟨hb, -, -, h⟩
    exact ⟨hb, by omega⟩
  · rintro ⟨hb, h⟩
    exact ⟨hb, by omega, by omega, by omega⟩

theorem inBuffer_poptagMeminfo {bios : Bios} {b b' : Mb2Buf} {t : Nat}
    (h : poptagMeminfo bios b t = some b') :
    InBuffer b' ↔ InBuffer b ∧ t + 16 ≤ multiboot2Prealloc := by
  rw [poptagMeminfo_eq] at h
  obtain ⟨ax, -, rfl⟩ := Option.map_eq_some_iff.mp h
  simp only [inBuffer_store, length_toLe, and_assoc]
  constructor
  · rintro ⟨hb, -, -, -, h⟩
    exact ⟨hb, by omega⟩
  · rintro ⟨hb, h⟩
    exact ⟨hb, by omega, by omega, by omega, by omega⟩

/-- The reserved word of an entry is not stored. -/
theorem inBuffer_putMmapEntry {b : Mb2Buf} {t idx : Nat} (entry : BiosMmapEntry) :
    InBuffer (putMmapEntry b t idx entry) ↔
      InBuffer b ∧ t + 12 + 24 * (idx + 1) ≤ multiboot2Prealloc := by
  simp only [putMmapEntry, inBuffer_store, length_toLe, and_assoc]
  constructor
  · rintro ⟨hb, -, -, h, -⟩
    exact ⟨hb, by omega⟩
  · rintro ⟨hb, h⟩
    exact ⟨hb, by omega, by omega, by omega, by omega⟩

theorem inBuffer_mmapLeft {bios : Bios} {t : Nat} (fuel : Nat) :
    ∀ (b : Mb2Buf) (idx : Nat) (ebx : UInt32), InBuffer (mmapLeft bios fuel b t idx ebx) ↔
      InBuffer b ∧ ((e820Map bios.e820 fuel ebx).1 = [] ∨
        t + 12 + 24 * (idx + (e820Map bios.e820 fuel ebx).1.length) ≤ multiboot2Prealloc) := by
  induction fuel with
  | zero => simp [mmapLeft, e820Map]
  | succ fuel ih =>
      intro b idx ebx
      rw [mmapLeft, e820Map]
      cases bios.e820 ebx with
      | none => simp
      | some res =>
          obtain ⟨entry, ebx'⟩ := res
          dsimp only
          split_ifs with hpos
          · rw [ih, inBuffer_putMmapEntry, List.length_cons, and_assoc]
            constructor
            · rintro ⟨hb, hfirst, hrest⟩
              refine ⟨hb, Or.inr ?_⟩
              rcases hrest with hnil | hrest
              · rw [hnil, List.length_nil]
                omega
              · omega
            · rintro ⟨hb, hall⟩
              rcases hall with hnil | hall
              · cases hnil
              · exact ⟨hb, by omega, Or.inr (by omega)⟩
          · rw [inBuffer_putMmapEntry, List.length_singleton]
            simp

theorem inBuffer_poptagMmapLeft {bios : Bios} {fuel : Nat} {b : Mb2Buf} {t : Nat} :
    InBuffer (poptagMmapLeft bios fuel b t) ↔
      InBuffer b ∧ t + 16 ≤ multiboot2Prealloc ∧ ((e820Map bios.e820 fuel 0).1 = [] ∨
        t + 12 + 24 * (e820Map bios.e820 fuel 0).1.length ≤ multiboot2Prealloc) := by
  rw [poptagMmapLeft, inBuffer_mmapLeft, Nat.zero_add]
  simp only [inBuffer_store, length_toLe, and_assoc]
  constructor
  · rintro ⟨hb, -, -, -, h, hmap⟩
    exact ⟨hb, by omega, hmap⟩
  · rintro ⟨hb, h, hmap⟩
    exact ⟨hb, by omega, by omega, by omega, by omega, hmap⟩

/-! ## Requests -/

theorem e820Reports_of_done {e820 : UInt32 → Option (BiosMmapEntry × UInt32)} {n : Nat}
    {ebx : UInt32} (h : (e820Map e820 n ebx).2 = true) :
    E820Reports e820 ebx (e820Map e820 n ebx).1 := by
  induction n generalizing ebx with
  | zero => cases h
  | succ n ih =>
      rw [e820Map] at h ⊢
      cases hcall : e820 ebx with
      | none => exact .fails hcall
      | some res =>
          obtain ⟨entry, ebx'⟩ := res
          rw [hcall] at h
          dsimp only at h ⊢
          split_ifs at h ⊢ with hpos
          · exact .more hcall hpos (ih h)
          · obtain rfl : ebx' = 0 := UInt32.le_zero_iff.mp (UInt32.not_lt.mp hpos)
            exact .last hcall

theorem mmapLoop_done {bios : Bios} {t : Nat} (fuel : Nat) (b : Mb2Buf) (idx : Nat) (ebx : UInt32) :
    mmapLoop bios fuel b t idx ebx =
      if (e820Map bios.e820 fuel ebx).2 then some (mmapLeft bios fuel b t idx ebx) else none := by
  induction fuel generalizing b idx ebx with
  | zero => rfl
  | succ fuel ih =>
      rw [mmapLoop, mmapLeft, e820Map]
      cases bios.e820 ebx with
      | none => rfl
      | some res =>
          obtain ⟨entry, ebx'⟩ := res
          dsimp only
          by_cases hpos : ebx' > 0
          · simp only [if_pos hpos, ih]
          · simp only [if_neg hpos, if_true]

theorem poptagMmap_done (bios : Bios) (fuel : Nat) (b : Mb2Buf) (t : Nat) :
    poptagMmap bios fuel b t =
      if (e820Map bios.e820 fuel 0).2 then some (poptagMmapLeft bios fuel b t) else none :=
  mmapLoop_done ..

/-- A request is served if and only if it goes on. -/
theorem mb2Request_isOk (env : Mb2Env) (fuel : Nat) (st : Mb2State) (req : Nat) :
    (mb2Request env fuel st req).isOk = goesOn env fuel req := by
  rw [mb2Request]
  split_ifs with hcmd hname hmod hmem hmmap hold hnew
  · rw [hcmd]
    cases env.cfg.kernelCmdline <;> rfl
  · rw [hname]
    rfl
  · rw [hmod]
    rfl
  · rw [goesOn, if_pos hmem, poptagMeminfo_eq]
    cases env.bios.int1588 <;> rfl
  · rw [goesOn, if_neg hmem, if_pos hmmap, poptagMmap_done]
    cases (e820Map env.bios.e820 fuel 0).2 <;> rfl
  · rw [hold]
    rfl
  · rw [hnew]
    rfl
  · rw [goesOn, if_neg hmem, if_neg hmmap]
    simp [hcmd, hname, hmod, hold, hnew]
    rfl

/-! ### What stays in the log -/

theorem inBuffer_of_modules {mods : List ConfigModule} {st : Mb2State}
    (h : InBuffer (mods.foldl (fun st mod => st.advance (poptagModule st.buf st.next mod)) st).buf) :
    InBuffer st.buf := by
  induction mods generalizing st with
  | nil => exact h
  | cons mod mods ih => exact ((inBuffer_poptagModule mod).mp (ih h)).1

theorem inBuffer_mb2Acpi {env : Mb2Env} {poptag : Mb2Buf → Nat → Nat → Option Mb2Buf}
    {valid : Nat → Bool} {record : Nat → Record} {st : Mb2State}
    (hpop : ∀ b t a, poptag b t a = if valid a then
      some (putTag b t (record a).type (record a).body) else none) :
    InBuffer (mb2Acpi env poptag st).buf ↔ InBuffer st.buf ∧
      ∀ r ∈ acpiRecords env.mem st.rsdp valid record, st.next + r.size ≤ multiboot2Prealloc := by
  rw [mb2Acpi, acpiRecords]
  cases acpiRsdp env.mem st.rsdp with
  | none => simp
  | some a =>
      dsimp only
      rw [hpop, Option.filter_some]
      cases valid a with
      | false => simp
      | true =>
          simp only [if_true, Option.toList_some, List.map_singleton, List.forall_mem_singleton]
          exact inBuffer_putTag (record a)

/-- A request that is served leaves the buffer it returns. -/
theorem mb2RequestLeft_of_ok {env : Mb2Env} {fuel : Nat} {st st' : Mb2State} {req : Nat}
    (h : mb2Request env fuel st req = .ok st') : mb2RequestLeft env fuel st req = st'.buf := by
  rw [mb2Request] at h
  rw [mb2RequestLeft]
  split_ifs at h ⊢
  · cases hcmd : env.cfg.kernelCmdline with
    | none =>
        rw [hcmd] at h
        exact congrArg Mb2State.buf (Except.ok.inj h)
    | some s =>
        rw [hcmd] at h
        exact congrArg Mb2State.buf (Except.ok.inj h)
  · exact congrArg Mb2State.buf (Except.ok.inj h)
  · exact congrArg Mb2State.buf (Except.ok.inj h)
  · cases hmem : poptagMeminfo env.bios st.buf st.next with
    | none =>
        rw [hmem] at h
        cases h
    | some b =>
        rw [hmem] at h
        exact congrArg Mb2State.buf (Except.ok.inj h)
  · rw [poptagMmap_done] at h
    cases hdone : (e820Map env.bios.e820 fuel 0).2 with
    | false =>
        rw [hdone] at h
        cases h
    | true =>
        rw [hdone] at h
        exact congrArg Mb2State.buf (Except.ok.inj h)
  · exact congrArg Mb2State.buf (Except.ok.inj h)
  · exact congrArg Mb2State.buf (Except.ok.inj h)

/-- What is stored stays in the log. -/
theorem inBuffer_of_request {env : Mb2Env} {fuel : Nat} {st : Mb2State} {req : Nat}
    (h : InBuffer (mb2RequestLeft env fuel st req)) : InBuffer st.buf := by
  rw [mb2RequestLeft] at h
  split_ifs at h
  · cases hcmd : env.cfg.kernelCmdline with
    | none => rwa [hcmd] at h
    | some s =>
        rw [hcmd] at h
        exact ((inBuffer_putTag (stringRecord tagCmdline s)).mp h).1
  · exact ((inBuffer_putTag (stringRecord tagBootloaderName bootloaderName)).mp h).1
  · exact inBuffer_of_modules h
  · cases hmem : poptagMeminfo env.bios st.buf st.next with
    | none =>
        rw [hmem] at h
        exact (inBuffer_meminfoLeft.mp h).1
    | some b =>
        rw [hmem] at h
        exact ((inBuffer_poptagMeminfo hmem).mp h).1
  · exact (inBuffer_poptagMmapLeft.mp h).1
  · exact ((inBuffer_mb2Acpi (poptagAcpiold_eq env.mem)).mp h).1
  · exact ((inBuffer_mb2Acpi (poptagAcpinew_eq env.mem)).mp h).1
  · exact h

theorem inBuffer_of_requests {env : Mb2Env} {fuel : Nat} {reqs : List Nat} {st : Mb2State}
    (h : InBuffer (mb2RequestsLeft env fuel st reqs)) : InBuffer st.buf := by
  induction reqs generalizing st with
  | nil => exact h
  | cons req reqs ih =>
      rw [mb2RequestsLeft] at h
      apply @inBuffer_of_request env fuel st req
      cases hreq : mb2Request env fuel st req with
      | error e => rwa [hreq] at h
      | ok st' =>
          rw [hreq] at h
          rw [mb2RequestLeft_of_ok hreq]
          exact ih h

/-! ## The buffer and what is asked for -/

theorem requestTags_goesOn {env : Mb2Env} {fuel rsdp req : Nat} (h : goesOn env fuel req = true) :
    requestTags env fuel rsdp req = infoTags env (e820Map env.bios.e820 fuel 0).1 rsdp req := by
  rw [requestTags]
  split_ifs with hmem
  · rw [goesOn, if_pos hmem] at h
    obtain ⟨ax, hax⟩ := Option.isSome_iff_exists.mp h
    rw [hmem, hax]
    show _ = env.bios.int1588.toList.map fun ax => meminfoRecord (lowerMem env.bios) ax.toNat
    rw [hax]
    rfl
  · rfl

namespace Encodes

variable {env : Mb2Env} {rsdp fuel : Nat} {tags : List Record} {st : Mb2State}

theorem next_mod (h : Encodes env rsdp tags st) : st.next % 8 = 0 := by
  have hmod : (encodeRecords 8 tags).length % 8 = 0 := length_encodeRecords_mod (by decide) tags
  have hnext := h.next
  omega

/-- One record more fits if it is stored within the buffer. -/
theorem fits_iff (h : Encodes env rsdp tags st) (r : Record) :
    Fits (tags ++ [r]) ↔ st.next + r.size ≤ multiboot2Prealloc := by
  have hmod := h.next_mod
  have hprealloc : multiboot2Prealloc = 1024 := rfl
  rw [Fits, encodeRecords_append, encodeRecords_cons, encodeRecords_nil, List.append_nil,
    List.length_append, Record.length_padded, ← Nat.add_assoc, ← h.next, hprealloc, padTo]
  split_ifs <;> omega

theorem fits_nil (hfit : Fits tags) (hin : InBuffer st.buf) :
    InBuffer st.buf ↔ Fits (tags ++ []) := by
  rw [List.append_nil]
  exact iff_of_true hin hfit

theorem modulesLeft {mods : List ConfigModule} (h : Encodes env rsdp tags st) (hfit : Fits tags)
    (hin : InBuffer st.buf) :
    InBuffer (mods.foldl (fun st mod => st.advance (poptagModule st.buf st.next mod)) st).buf ↔
      Fits (tags ++ mods.map moduleRecord) := by
  induction mods generalizing tags st with
  | nil => exact fits_nil hfit hin
  | cons mod mods ih =>
      have hmod : InBuffer (poptagModule st.buf st.next mod) ↔ Fits (tags ++ [moduleRecord mod]) := by
        rw [inBuffer_poptagModule, h.fits_iff, and_iff_right hin]
      rw [List.map_cons, List.append_cons, List.foldl_cons]
      by_cases hone : Fits (tags ++ [moduleRecord mod])
      · exact ih (h.advance hone (poptagModule_mem _ _ mod)) hone (hmod.mpr hone)
      · refine iff_of_false (fun hall => hone ?_) fun hall => hone (hall.mono (List.prefix_append _ _))
        exact hmod.mp (inBuffer_of_modules hall)

theorem acpiLeft {poptag : Mb2Buf → Nat → Nat → Option Mb2Buf} {valid : Nat → Bool}
    {record : Nat → Record} (h : Encodes env rsdp tags st) (hfit : Fits tags)
    (hin : InBuffer st.buf) (hpop : ∀ b t a, poptag b t a = if valid a then
      some (Exec.putTag b t (record a).type (record a).body) else none) :
    InBuffer (mb2Acpi env poptag st).buf ↔
      Fits (tags ++ acpiRecords env.mem rsdp valid record) := by
  rw [inBuffer_mb2Acpi hpop, and_iff_right hin, acpiRecords, acpiRecords, h.table]
  cases (acpiRsdp env.mem rsdp).filter valid with
  | none => simpa using hfit
  | some a =>
      rw [Option.toList_some, List.map_singleton, List.forall_mem_singleton]
      exact (h.fits_iff (record a)).symm

/-- **One request** stores within the buffer if and only if its tags fit. -/
theorem requestLeft (h : Encodes env rsdp tags st) (hfit : Fits tags) (hin : InBuffer st.buf)
    (req : Nat) : InBuffer (mb2RequestLeft env fuel st req) ↔
      Fits (tags ++ requestTags env fuel rsdp req) := by
  have hmod := h.next_mod
  have hprealloc : multiboot2Prealloc = 1024 := rfl
  rw [mb2RequestLeft, requestTags]
  by_cases hmem : req = tagBasicMeminfo
  · have hne : ∀ r ∈ [tagCmdline, tagBootloaderName, tagModule], req ≠ r := by
      rw [hmem]
      decide
    rw [if_neg (hne _ (by simp)), if_neg (hne _ (by simp)), if_neg (hne _ (by simp)), if_pos hmem,
      if_pos hmem, h.fits_iff]
    have hsize : ∀ upper, (meminfoRecord (lowerMem env.bios) upper).size = 16 := fun _ => rfl
    cases hpop : poptagMeminfo env.bios st.buf st.next with
    | none =>
        show InBuffer (meminfoLeft env.bios st.buf st.next) ↔ _
        rw [inBuffer_meminfoLeft, and_iff_right hin, hsize]
        omega
    | some b =>
        show InBuffer b ↔ _
        rw [inBuffer_poptagMeminfo hpop, and_iff_right hin, hsize]
  rw [if_neg hmem, if_neg hmem, infoTags]
  -- the requests in the order of the `switch`
  split_ifs with hcmd hname hmods hmmap hold hnew
  · cases env.cfg.kernelCmdline with
    | none => exact fits_nil hfit hin
    | some s =>
        show InBuffer (Exec.putTag st.buf st.next tagCmdline s.bytes) ↔
          Fits (tags ++ [stringRecord tagCmdline s])
        rw [h.fits_iff]
        exact (inBuffer_putTag (stringRecord tagCmdline s)).trans (and_iff_right hin)
  · rw [h.fits_iff]
    exact (inBuffer_putTag (stringRecord tagBootloaderName bootloaderName)).trans (and_iff_right hin)
  · exact h.modulesLeft hfit hin
  · rw [h.fits_iff, inBuffer_poptagMmapLeft, and_iff_right hin, mmapRecord_size]
    generalize (e820Map env.bios.e820 fuel 0).1 = map
    cases map with
    | nil => simp
    | cons entry map =>
        rw [List.length_cons, or_iff_right (List.cons_ne_nil entry map)]
        omega
  · exact h.acpiLeft hfit hin (poptagAcpiold_eq env.mem)
  · exact h.acpiLeft hfit hin (poptagAcpinew_eq env.mem)
  · exact fits_nil hfit hin

/-- A request that goes on, with its tags. -/
theorem request_goesOn {req : Nat} (h : Encodes env rsdp tags st)
    (hgo : goesOn env fuel req = true)
    (hfit : Fits (tags ++ requestTags env fuel rsdp req)) :
    ∃ st', mb2Request env fuel st req = .ok st' ∧
      Encodes env rsdp (tags ++ requestTags env fuel rsdp req) st' := by
  have hok := mb2Request_isOk env fuel st req
  rw [hgo] at hok
  rw [requestTags_goesOn hgo] at hfit ⊢
  cases hreq : mb2Request env fuel st req with
  | error e =>
      rw [hreq] at hok
      cases hok
  | ok st' =>
      refine ⟨st', rfl, h.request (fun hmmap => ?_) hfit hreq⟩
      rw [goesOn, if_neg (by rw [hmmap]; decide), if_pos hmmap] at hgo
      exact e820Reports_of_done hgo

/-- The requests of one header tag. -/
theorem requestsLeft {reqs : List Nat} (h : Encodes env rsdp tags st) (hfit : Fits tags)
    (hin : InBuffer st.buf) :
    InBuffer (mb2RequestsLeft env fuel st reqs) ↔ Fits (tags ++ askedTags env fuel rsdp reqs) := by
  induction reqs generalizing tags st with
  | nil => exact fits_nil hfit hin
  | cons req reqs ih =>
      have hleft : InBuffer (mb2RequestLeft env fuel st req) ↔
          Fits (tags ++ requestTags env fuel rsdp req) := h.requestLeft hfit hin req
      rw [mb2RequestsLeft, askedTags]
      cases hgo : goesOn env fuel req with
      | false =>
          -- refused: nothing else is asked for
          cases hreq : mb2Request env fuel st req with
          | error e => simpa using hleft
          | ok st' =>
              have hok := mb2Request_isOk env fuel st req
              rw [hreq, hgo] at hok
              cases hok
      | true =>
          rw [if_pos rfl, ← List.append_assoc]
          by_cases hone : Fits (tags ++ requestTags env fuel rsdp req)
          · obtain ⟨st', hreq, hst'⟩ := h.request_goesOn hgo hone
            rw [mb2RequestLeft_of_ok hreq] at hleft
            rw [hreq]
            exact ih hst' hone (hleft.mpr hone)
          · -- a block is behind the end, and stays in the log
            refine iff_of_false (fun hall => hone (hleft.mp ?_)) fun hall =>
              hone (hall.mono (List.prefix_append _ _))
            cases hreq : mb2Request env fuel st req with
            | error e => rwa [hreq] at hall
            | ok st' =>
                rw [hreq] at hall
                rw [mb2RequestLeft_of_ok hreq]
                exact inBuffer_of_requests hall

end Encodes

/-- The requests are all served if and only if all go on. -/
theorem mb2Requests_isOk {env : Mb2Env} {fuel : Nat} {reqs : List Nat} {st : Mb2State} :
    (mb2Requests env fuel st reqs).isOk = reqs.all (goesOn env fuel) := by
  induction reqs generalizing st with
  | nil => rfl
  | cons req reqs ih =>
      have hok := mb2Request_isOk env fuel st req
      rw [mb2Requests, List.all_cons, ← hok]
      cases mb2Request env fuel st req with
      | error e => rfl
      | ok st' => exact ih

theorem mb2RequestsLeft_of_ok {env : Mb2Env} {fuel : Nat} {reqs : List Nat} {st st' : Mb2State}
    (h : mb2Requests env fuel st reqs = .ok st') : mb2RequestsLeft env fuel st reqs = st'.buf := by
  induction reqs generalizing st with
  | nil => exact congrArg Mb2State.buf (Except.ok.inj h)
  | cons req reqs ih =>
      rw [mb2Requests] at h
      rw [mb2RequestsLeft]
      cases hreq : mb2Request env fuel st req with
      | error e =>
          rw [hreq] at h
          cases h
      | ok st₁ =>
          rw [hreq] at h
          exact ih h

namespace Encodes

variable {env : Mb2Env} {rsdp fuel : Nat} {tags : List Record} {st : Mb2State}

theorem requests_goesOn {reqs : List Nat} (h : Encodes env rsdp tags st)
    (hgo : reqs.all (goesOn env fuel) = true)
    (hfit : Fits (tags ++ askedTags env fuel rsdp reqs)) :
    ∃ st', mb2Requests env fuel st reqs = .ok st' ∧
      Encodes env rsdp (tags ++ askedTags env fuel rsdp reqs) st' := by
  induction reqs generalizing tags st with
  | nil => exact ⟨st, rfl, by rwa [askedTags, List.append_nil]⟩
  | cons req reqs ih =>
      rw [List.all_cons, Bool.and_eq_true] at hgo
      rw [askedTags, if_pos hgo.1, ← List.append_assoc] at hfit ⊢
      obtain ⟨st₁, hreq, hst₁⟩ := h.request_goesOn hgo.1 (hfit.mono (List.prefix_append _ _))
      obtain ⟨st', hreqs, hst'⟩ := ih hst₁ hgo.2 hfit
      refine ⟨st', ?_, hst'⟩
      rw [mb2Requests, hreq]
      exact hreqs

end Encodes

/-! ## The header tags -/

/-- What a header tag leaves. -/
theorem mb2HeaderTag_left {env : Mb2Env} {fuel htag : Nat} {st st' : Mb2State}
    (h : mb2HeaderTag env fuel htag st = .ok (some st')) :
    mb2HeaderTagLeft env fuel htag st = st'.buf := by
  rw [mb2HeaderTag] at h
  rw [mb2HeaderTagLeft]
  split_ifs at h ⊢
  · cases h
  · cases hreqs : mb2Requests env fuel st (headerRequests env.mem htag) with
    | error e =>
        rw [hreqs] at h
        cases h
    | ok st₁ =>
        rw [hreqs] at h
        rw [mb2RequestsLeft_of_ok hreqs]
        exact congrArg Mb2State.buf (Option.some.inj (Except.ok.inj h))
  · cases h
  · exact congrArg Mb2State.buf (Option.some.inj (Except.ok.inj h))

/-- It is followed by another one if and only if it goes on. -/
theorem mb2HeaderTag_goesOn (env : Mb2Env) (fuel htag : Nat) (st : Mb2State) :
    (∃ st', mb2HeaderTag env fuel htag st = .ok (some st')) ↔
      headerTagGoesOn env fuel htag = true := by
  rw [mb2HeaderTag, headerTagGoesOn]
  split_ifs with hend hinfo hflags
  · simp
  · have hok := @mb2Requests_isOk env fuel (headerRequests env.mem htag) st
    rw [← hok]
    cases mb2Requests env fuel st (headerRequests env.mem htag) with
    | error e => simp [Except.isOk, Except.toBool]
    | ok st' => simp [Except.isOk, Except.toBool]
  · refine iff_of_false ?_ fun h => of_decide_eq_true h hflags
    rintro ⟨_, h⟩
    cases h
  · exact iff_of_true ⟨st, rfl⟩ (decide_eq_true hflags)

/-- The loop is left at an END tag. -/
theorem mb2HeaderTag_end {env : Mb2Env} {fuel htag : Nat} {st : Mb2State}
    (h : mb2HeaderTag env fuel htag st = .ok none) : memField env.mem htag 2 = headerTagEnd := by
  rw [mb2HeaderTag] at h
  split_ifs at h with hend
  · exact hend
  · cases hreqs : mb2Requests env fuel st (headerRequests env.mem htag) with
    | error e =>
        rw [hreqs] at h
        cases h
    | ok st' =>
        rw [hreqs] at h
        cases h
  · cases h

theorem headerTagAsked_of_end {env : Mb2Env} {fuel rsdp htag : Nat}
    (h : memField env.mem htag 2 = headerTagEnd) : headerTagAsked env fuel rsdp htag = [] := by
  rw [headerTagAsked, h]
  rfl

theorem inBuffer_of_headerTag {env : Mb2Env} {fuel htag : Nat} {st : Mb2State}
    (h : InBuffer (mb2HeaderTagLeft env fuel htag st)) : InBuffer st.buf := by
  rw [mb2HeaderTagLeft] at h
  split_ifs at h
  · exact inBuffer_of_requests h
  · exact h

theorem inBuffer_of_headerLoop {env : Mb2Env} {bound fuel htag : Nat} {st : Mb2State}
    (h : InBuffer (mb2HeaderLoopLeft env bound fuel htag st)) : InBuffer st.buf := by
  induction fuel generalizing htag st with
  | zero => exact h
  | succ fuel ih =>
      rw [mb2HeaderLoopLeft] at h
      split_ifs at h with hbound
      · cases hret : mb2HeaderTag env fuel htag st with
        | error e =>
            rw [hret] at h
            exact inBuffer_of_headerTag h
        | ok res =>
            rw [hret] at h
            cases res with
            | none => exact h
            | some st' =>
                apply @inBuffer_of_headerTag env fuel htag
                rw [mb2HeaderTag_left hret]
                exact ih h
      · exact h

namespace Encodes

variable {env : Mb2Env} {rsdp fuel htag : Nat} {tags : List Record} {st : Mb2State}

theorem headerTagLeft (h : Encodes env rsdp tags st) (hfit : Fits tags) (hin : InBuffer st.buf) :
    InBuffer (mb2HeaderTagLeft env fuel htag st) ↔
      Fits (tags ++ headerTagAsked env fuel rsdp htag) := by
  rw [mb2HeaderTagLeft, headerTagAsked]
  split_ifs
  · exact h.requestsLeft hfit hin
  · exact fits_nil hfit hin

theorem headerTag_goesOn {st' : Mb2State} (h : Encodes env rsdp tags st)
    (hret : mb2HeaderTag env fuel htag st = .ok (some st'))
    (hfit : Fits (tags ++ headerTagAsked env fuel rsdp htag)) :
    Encodes env rsdp (tags ++ headerTagAsked env fuel rsdp htag) st' := by
  have hgo := (mb2HeaderTag_goesOn env fuel htag st).mp ⟨st', hret⟩
  rw [headerTagAsked] at hfit ⊢
  rw [headerTagGoesOn] at hgo
  rw [mb2HeaderTag] at hret
  split_ifs at hgo hret hfit ⊢
  · obtain ⟨st₁, hreqs, hst₁⟩ := h.requests_goesOn hgo hfit
    rw [hreqs] at hret
    rwa [← Option.some.inj (Except.ok.inj hret)]
  · rwa [← Option.some.inj (Except.ok.inj hret), List.append_nil]

/-- **The loop over the header tags** stores within the buffer if and only if
    all that is asked for fits. -/
theorem headerLoopLeft {bound : Nat} (h : Encodes env rsdp tags st) (hfit : Fits tags)
    (hin : InBuffer st.buf) :
    InBuffer (mb2HeaderLoopLeft env bound fuel htag st) ↔
      Fits (tags ++ headerAsked env rsdp bound fuel htag) := by
  induction fuel generalizing htag tags st with
  | zero => exact fits_nil hfit hin
  | succ fuel ih =>
      have hleft : InBuffer (mb2HeaderTagLeft env fuel htag st) ↔
          Fits (tags ++ headerTagAsked env fuel rsdp htag) := h.headerTagLeft hfit hin
      have hgo := mb2HeaderTag_goesOn env fuel htag st
      rw [mb2HeaderLoopLeft, headerAsked]
      split_ifs with hbound hmore
      · obtain ⟨st', hret⟩ := hgo.mpr hmore
        rw [mb2HeaderTag_left hret] at hleft
        rw [hret, ← List.append_assoc]
        show InBuffer (mb2HeaderLoopLeft env bound fuel (nextTag env.mem htag) st') ↔ _
        by_cases hone : Fits (tags ++ headerTagAsked env fuel rsdp htag)
        · exact ih (h.headerTag_goesOn hret hone) hone (hleft.mpr hone)
        · -- a block is behind the end, and stays in the log
          exact iff_of_false (fun hin' => hone (hleft.mp (inBuffer_of_headerLoop hin')))
            fun hfit' => hone (hfit'.mono (List.prefix_append _ _))
      · rw [List.append_nil]
        cases hret : mb2HeaderTag env fuel htag st with
        | error e => exact hleft
        | ok res =>
            cases res with
            | none =>
                rw [headerTagAsked_of_end (mb2HeaderTag_end hret)]
                exact fits_nil hfit hin
            | some st' => exact absurd (hgo.mp ⟨st', hret⟩) hmore
      · exact fits_nil hfit hin

end Encodes

/-! ## The result -/

/-- The log is that of the structure returned. -/
theorem mb2HeaderLoopLeft_of_ok {env : Mb2Env} {bound fuel htag : Nat} {st st' : Mb2State}
    (h : mb2HeaderLoop env bound fuel htag st = .ok st') :
    mb2HeaderLoopLeft env bound fuel htag st = st'.buf := by
  induction fuel generalizing htag st with
  | zero => cases h
  | succ fuel ih =>
      rw [mb2HeaderLoop] at h
      rw [mb2HeaderLoopLeft]
      split_ifs at h ⊢
      · cases hret : mb2HeaderTag env fuel htag st with
        | error e =>
            rw [hret] at h
            cases h
        | ok res =>
            rw [hret] at h
            cases res with
            | none => exact congrArg Mb2State.buf (Except.ok.inj h)
            | some st₁ => exact ih h
      · exact congrArg Mb2State.buf (Except.ok.inj h)

/-- What is stored for a structure that is returned. -/
theorem multiboot2ParseWrites_of_ok {env : Mb2Env} {fuel head rsdp rsdp' : Nat} {b : Mb2Buf}
    (h : multiboot2Parse env fuel head rsdp = .ok (b, rsdp')) :
    b.writes = multiboot2ParseWrites env fuel head rsdp := by
  obtain ⟨st, hloop, rfl⟩ := multiboot2Parse_loop h
  have haccepted : HeaderAccepted env.mem head := by
    simp only [multiboot2Parse] at h
    split_ifs at h with hmagic hsum
    rw [HeaderAccepted]
    exact ⟨⟨not_not.mp fun h => hmagic (Or.inl h), not_not.mp fun h => hmagic (Or.inr h)⟩,
      not_not.mp hsum⟩
  rw [multiboot2ParseWrites, if_pos haccepted]
  dsimp only
  rw [hloop, mb2HeaderLoopLeft_of_ok hloop]

/-- A run stores within the buffer if and only if what it serves fits. -/
theorem multiboot2ParseWrites_fits (env : Mb2Env) (n head rsdp : Nat) :
    (∀ w ∈ multiboot2ParseWrites env n head rsdp, w.1 + w.2 ≤ multiboot2Prealloc) ↔
      Fits (mb2Asked env n head rsdp) := by
  rw [multiboot2ParseWrites, mb2Asked]
  split_ifs with haccepted
  · have hiff : InBuffer (mb2HeaderLoopLeft env (u32 (head + 16 * memField env.mem (head + 8) 4)) n
        (u32 (head + 16)) ⟨⟨fun _ => 0, [(0, multiboot2Prealloc)]⟩, 8, rsdp⟩) ↔ Fits ([] ++ _) :=
      (encodes_init env rsdp _).headerLoopLeft (by decide) (by simp [InBuffer])
    rw [List.nil_append] at hiff
    rw [← hiff]
    dsimp only
    cases hloop : mb2HeaderLoop env (u32 (head + 16 * memField env.mem (head + 8) 4)) n
        (u32 (head + 16)) ⟨⟨fun _ => 0, [(0, multiboot2Prealloc)]⟩, 8, rsdp⟩ with
    | error e => exact Iff.rfl
    | ok st =>
        -- the total size is stored last
        have htotal : InBuffer _ ↔ _ := @inBuffer_store (mb2HeaderLoopLeft env
          (u32 (head + 16 * memField env.mem (head + 8) 4)) n (u32 (head + 16))
          ⟨⟨fun _ => 0, [(0, multiboot2Prealloc)]⟩, 8, rsdp⟩) 0 (toLe 4 st.next)
        rw [and_iff_left (by rw [length_toLe]; decide)] at htotal
        exact htotal
  · exact iff_of_true (by simp) (by decide)

/-- **The buffer.**  Every run stores within the buffer if and only if
    what the kernel asks for, laid out behind the two words in front, fits it
    however far the requests are served. -/
theorem multiboot2ParseWrites_within_iff (env : Mb2Env) (head rsdp : Nat) :
    (∀ fuel, ∀ w ∈ multiboot2ParseWrites env fuel head rsdp, w.1 + w.2 ≤ multiboot2Prealloc) ↔
      ∀ n, Fits (mb2Asked env n head rsdp) :=
  forall_congr' fun n => multiboot2ParseWrites_fits env n head rsdp

/-- A header with one information request, for tag type 1, and the END tag. -/
def cmdlineHeader : List UInt8 :=
  toLe 4 multiboot2HeadMagic ++ toLe 4 multiboot2HeadX86 ++ toLe 4 40 ++ toLe 4 0x17ADAF02 ++
    toLe 4 headerTagInformationRequest ++ toLe 4 12 ++ toLe 4 tagCmdline ++ toLe 4 0 ++
    toLe 4 headerTagEnd ++ toLe 4 8

/-- The header at 1 MiB. -/
def cmdlineMem : Int → UInt8 := storeAt (fun _ => 0) (0x100000 : Nat) cmdlineHeader

theorem cmdlineMem_accepted : HeaderAccepted cmdlineMem 0x100000 := by
  decide +kernel

theorem cmdlineMem_requests : memField cmdlineMem 0x100010 2 = headerTagInformationRequest ∧
    headerRequests cmdlineMem 0x100010 = [tagCmdline] := by
  decide +kernel

/-- A command line of 1010 characters. -/
def longCmdline : CString where
  chars := List.replicate 1010 0x61
  noNul h := absurd (List.eq_of_mem_replicate h) (by decide)

def cmdlineEnv : Mb2Env := ⟨cmdlineMem, ⟨some longCmdline, []⟩, ⟨none, none, fun _ => none⟩⟩

theorem size_stringRecord (type : Nat) (s : CString) (h : type < 2 ^ 32) :
    (stringRecord type s h).size = 8 + s.bytes.length := rfl

theorem length_longCmdline : longCmdline.bytes.length = 1011 := by
  rw [CString.bytes, longCmdline, List.length_append, List.length_replicate, List.length_singleton]

theorem mb2Asked_cmdline : mb2Asked cmdlineEnv 1 0x100000 0 = [stringRecord tagCmdline longCmdline] := by
  have hmem : cmdlineEnv.mem = cmdlineMem := rfl
  have hstart : u32 (0x100000 + 16) = 0x100010 := by decide
  have hbound : 0x100010 < u32 (0x100000 + 16 * memField cmdlineMem (0x100000 + 8) 4) := by
    decide +kernel
  rw [mb2Asked, hmem, if_pos cmdlineMem_accepted, hstart, headerAsked, if_pos hbound,
    headerTagAsked, hmem, if_pos cmdlineMem_requests.1, cmdlineMem_requests.2, headerAsked, ite_self,
    List.append_nil]
  rfl

/-- The unconditional statement fails: the end of a long command line is
    stored behind the buffer. -/
theorem multiboot2ParseWrites_cmdline : HeaderAccepted cmdlineEnv.mem 0x100000 ∧
    ¬ ∀ w ∈ multiboot2ParseWrites cmdlineEnv 1 0x100000 0, w.1 + w.2 ≤ multiboot2Prealloc := by
  refine ⟨cmdlineMem_accepted, fun h => ?_⟩
  have hfits := (multiboot2ParseWrites_fits cmdlineEnv 1 0x100000 0).mp h
  rw [mb2Asked_cmdline, Fits, encodeRecords_cons, List.length_append, Record.length_padded] at hfits
  have hprealloc : multiboot2Prealloc = 1024 := rfl
  rw [size_stringRecord, length_longCmdline] at hfits
  omega

end LBoot.Exec
