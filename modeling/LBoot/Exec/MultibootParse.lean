/-
  LBoot.Exec.MultibootParse

  What `multiboot2_parse` returns (src/exec/multiboot.c).

  `Encodes` ties the state of the parser to the records written so far: the
  buffer holds their encoding and zeros behind it, and `next_tag` is where
  the encoding ends.  A tag whose bytes are at `next_tag` goes on with one
  record more (`Encodes.advance`), so each request appends its records, and
  the loop over the header tags those of every request.

  The total size is then where the records end: a walk visits all of them
  and is at the end of the structure.  No END tag is ever written, and there
  is no room left for one.
-/

import LBoot.Exec.MultibootTags

namespace LBoot.Exec

open LBoot.Lib

/-- The records fit behind the two words in front of them. -/
def Fits (tags : List Record) : Prop :=
  8 + (encodeRecords 8 tags).length ≤ multiboot2Prealloc

instance : DecidablePred Fits := fun _ => Nat.decLe _ _

theorem Fits.mono {tags tags' : List Record} (h : Fits tags') (hpre : tags <+: tags') :
    Fits tags := by
  have hle := length_encodeRecords_le 8 hpre
  rw [Fits] at h ⊢
  omega

theorem Fits.lt {tags : List Record} (h : Fits tags) :
    8 + (encodeRecords 8 tags).length < 2 ^ 32 := by
  have hprealloc : multiboot2Prealloc = 1024 := rfl
  rw [Fits] at h
  omega

/-- The last record is no larger than all of them. -/
theorem Fits.size_lt {tags : List Record} {r : Record} (h : Fits (tags ++ [r])) :
    r.size < 2 ^ 32 := by
  have hlt := h.lt
  rw [encodeRecords_append, encodeRecords_cons, List.length_append, List.length_append,
    Record.length_padded] at hlt
  omega

/-- The state of the parser after the records `tags`, with `rsdp` what was
    known of the ACPI tables at first. -/
structure Encodes (env : Mb2Env) (rsdp : Nat) (tags : List Record) (st : Mb2State) : Prop where
  mem : st.buf.mem = storeAt (fun _ => 0) (8 : Nat) (encodeRecords 8 tags)
  next : st.next = 8 + (encodeRecords 8 tags).length
  table : acpiRsdp env.mem st.rsdp = acpiRsdp env.mem rsdp

namespace Encodes

variable {env : Mb2Env} {rsdp : Nat} {tags : List Record} {st : Mb2State}

/-- Behind `next_tag` the buffer is clear. -/
theorem zero (h : Encodes env rsdp tags st) (y : Int) (hy : st.next ≤ y) : st.buf.mem y = 0 := by
  rw [h.mem, storeAt_of_outside]
  have hnext := h.next
  omega

/-- A record written at `next_tag`. -/
theorem advance {r : Record} {b : Mb2Buf} (h : Encodes env rsdp tags st)
    (hfit : Fits (tags ++ [r])) (hb : b.mem = storeAt st.buf.mem st.next r.bytes) :
    Encodes env rsdp (tags ++ [r]) (st.advance b) := by
  have henc : encodeRecords 8 (tags ++ [r]) = encodeRecords 8 tags ++ r.padded 8 := by
    rw [encodeRecords_append, encodeRecords_cons, encodeRecords_nil, List.append_nil]
  have hlt := hfit.lt
  rw [henc, List.length_append, Record.length_padded] at hlt
  constructor
  · calc b.mem = storeAt st.buf.mem st.next (r.padded 8) := by rw [hb, storeAt_padded h.zero]
      _ = _ := by rw [h.mem, storeAt_behind _ h.next, henc]
  · have hsize : memField b.mem (st.next + 4) 4 = r.size := by
      rw [hb]
      exact memField_size (by omega)
    rw [Mb2State.advance, nextTag_eq hsize, u32_of_lt (by rw [h.next]; omega), h.next, henc,
      List.length_append, Record.length_padded, Nat.add_assoc]
  · exact h.table

/-! ## The requests -/

theorem putTag {r : Record} (h : Encodes env rsdp tags st) (hfit : Fits (tags ++ [r]))
    (htype : r.type < 2 ^ 16) :
    Encodes env rsdp (tags ++ [r]) (st.advance (putTag st.buf st.next r.type r.body)) :=
  h.advance hfit (putTag_mem htype h.zero)

/-- One tag for each module. -/
theorem modules {mods : List ConfigModule} (h : Encodes env rsdp tags st)
    (hfit : Fits (tags ++ mods.map moduleRecord)) :
    Encodes env rsdp (tags ++ mods.map moduleRecord)
      (mods.foldl (fun st mod => st.advance (poptagModule st.buf st.next mod)) st) := by
  induction mods generalizing tags st with
  | nil => rwa [List.map_nil, List.append_nil]
  | cons mod mods ih =>
      rw [List.map_cons, List.append_cons] at hfit ⊢
      have hmod := h.advance (hfit.mono (List.prefix_append _ _)) (poptagModule_mem _ _ mod)
      exact ih hmod hfit

/-- An ACPI request, with the table looked for once. -/
theorem acpi {poptag : Mb2Buf → Nat → Nat → Option Mb2Buf} {valid : Nat → Bool}
    {record : Nat → Record} (h : Encodes env rsdp tags st)
    (hfit : Fits (tags ++ acpiRecords env.mem rsdp valid record))
    (htype : ∀ a, (record a).type < 2 ^ 16)
    (hpop : ∀ b t a, poptag b t a = if valid a then
      some (Exec.putTag b t (record a).type (record a).body) else none) :
    Encodes env rsdp (tags ++ acpiRecords env.mem rsdp valid record) (mb2Acpi env poptag st) := by
  rw [acpiRecords] at hfit ⊢
  rw [mb2Acpi, h.table]
  cases hfind : acpiRsdp env.mem rsdp with
  | none => simpa using h
  | some a =>
      -- a table that was found is found again
      have hagain : acpiRsdp env.mem a = acpiRsdp env.mem rsdp := by
        rw [hfind]
        exact acpiRsdp_found hfind
      have hst : Encodes env rsdp tags { st with rsdp := a } := ⟨h.mem, h.next, hagain⟩
      simp only [hfind, hpop, Option.filter_some] at hfit ⊢
      cases hvalid : valid a with
      | false => simpa [hvalid] using hst
      | true =>
          simp only [hvalid, if_true, Option.toList_some, List.map_singleton] at hfit ⊢
          exact hst.putTag hfit (htype a)

/-- **One request** appends the records it stands for. -/
theorem request {map : List BiosMmapEntry} {fuel req : Nat} {st' : Mb2State}
    (hmap : req = tagMmap → E820Reports env.bios.e820 0 map) (h : Encodes env rsdp tags st)
    (hfit : Fits (tags ++ infoTags env map rsdp req))
    (hreq : mb2Request env fuel st req = .ok st') :
    Encodes env rsdp (tags ++ infoTags env map rsdp req) st' := by
  rw [mb2Request] at hreq
  rw [infoTags] at hfit ⊢
  -- the requests in the order of the `switch`; an unknown one is refused
  split_ifs at hreq hfit ⊢
  · cases hcmd : env.cfg.kernelCmdline with
    | none =>
        rw [hcmd, Except.ok.injEq] at hreq
        rw [← hreq]
        simpa using h
    | some s =>
        rw [hcmd] at hfit
        rw [hcmd, Except.ok.injEq] at hreq
        rw [← hreq]
        exact h.putTag (r := stringRecord tagCmdline s) hfit (by decide : tagCmdline < 2 ^ 16)
  · rw [Except.ok.injEq] at hreq
    rw [← hreq]
    exact h.putTag hfit (by decide)
  · rw [Except.ok.injEq] at hreq
    rw [← hreq]
    exact h.modules hfit
  · cases hmem : poptagMeminfo env.bios st.buf st.next with
    | none =>
        rw [hmem] at hreq
        cases hreq
    | some b =>
        rw [hmem, Except.ok.injEq] at hreq
        obtain ⟨ax, hax, hb⟩ := poptagMeminfo_mem hmem
        rw [hax] at hfit ⊢
        rw [← hreq]
        exact h.advance hfit hb
  · cases hmmap : poptagMmap env.bios fuel st.buf st.next with
    | none =>
        rw [hmmap] at hreq
        cases hreq
    | some b =>
        rw [hmmap, Except.ok.injEq] at hreq
        rw [← hreq]
        exact h.advance hfit (poptagMmap_mem (hmap ‹_›) h.zero hfit.size_lt hmmap)
  · rw [Except.ok.injEq] at hreq
    rw [← hreq]
    exact h.acpi hfit (fun _ => (by decide : tagAcpiOld < 2 ^ 16)) (poptagAcpiold_eq env.mem)
  · rw [Except.ok.injEq] at hreq
    rw [← hreq]
    exact h.acpi hfit (fun _ => (by decide : tagAcpiNew < 2 ^ 16)) (poptagAcpinew_eq env.mem)

/-- The requests of one header tag. -/
theorem requests {map : List BiosMmapEntry} {fuel : Nat} {reqs : List Nat} {st' : Mb2State}
    (hmap : E820Reports env.bios.e820 0 map) (h : Encodes env rsdp tags st)
    (hfit : Fits (tags ++ reqs.flatMap (infoTags env map rsdp)))
    (hreqs : mb2Requests env fuel st reqs = .ok st') :
    Encodes env rsdp (tags ++ reqs.flatMap (infoTags env map rsdp)) st' := by
  induction reqs generalizing tags st with
  | nil =>
      rw [mb2Requests, Except.ok.injEq] at hreqs
      rwa [← hreqs, List.flatMap_nil, List.append_nil]
  | cons req reqs ih =>
      rw [List.flatMap_cons, ← List.append_assoc] at hfit ⊢
      rw [mb2Requests] at hreqs
      cases hreq : mb2Request env fuel st req with
      | error r =>
          rw [hreq] at hreqs
          cases hreqs
      | ok st₁ =>
          rw [hreq] at hreqs
          exact ih (h.request (fun _ => hmap) (hfit.mono (List.prefix_append _ _)) hreq) hfit hreqs

end Encodes

/-! ## The header -/

/-- The requests the parser reads are those of the record at `htag`. -/
theorem headerRequests_eq {mem : Int → UInt8} {htag : Nat} {r : Record}
    (htype : r.type % 2 ^ 16 = headerTagInformationRequest)
    (hsize : memField mem (htag + 4) 4 = r.size)
    (hbody : loadAt mem (htag + 8 : Nat) r.body.length = r.body) :
    headerRequests mem htag = recordRequests r := by
  have hlt := memField_lt mem (htag + 4) 4
  have hbodyLen : r.size = 8 + r.body.length := rfl
  rw [headerRequests, recordRequests, if_pos htype, hsize,
    sub32_of_le (by omega) (by omega), hbodyLen, Nat.add_sub_cancel_left]
  apply List.map_congr_left
  intro i hi
  have hi : i < r.body.length / 4 := List.mem_range.mp hi
  exact memField_inside hbody (by omega)

/-- The records that the tags of a header ask for. -/
def honoured (env : Mb2Env) (map : List BiosMmapEntry) (rsdp : Nat) (hts : List Record) :
    List Record :=
  (hts.flatMap recordRequests).flatMap (infoTags env map rsdp)

theorem honoured_cons (env : Mb2Env) (map : List BiosMmapEntry) (rsdp : Nat) (r : Record)
    (hts : List Record) : honoured env map rsdp (r :: hts)
      = (recordRequests r).flatMap (infoTags env map rsdp) ++ honoured env map rsdp hts := by
  rw [honoured, List.flatMap_cons, List.flatMap_append, honoured]

theorem honoured_mono (env : Mb2Env) (map : List BiosMmapEntry) (rsdp : Nat)
    {hts hts' : List Record} (h : hts <+: hts') :
    honoured env map rsdp hts <+: honoured env map rsdp hts' := by
  obtain ⟨rest, rfl⟩ := h
  rw [honoured, honoured, List.flatMap_append, List.flatMap_append]
  exact List.prefix_append _ _

/-- One tag of the header, which is not an END tag. -/
theorem mb2HeaderTag_encodes {env : Mb2Env} {map : List BiosMmapEntry} {rsdp fuel htag : Nat}
    {r : Record} {tags : List Record} {st : Mb2State} {res : Option Mb2State}
    (hmap : E820Reports env.bios.e820 0 map) (htype : memField env.mem htag 4 = r.type)
    (hsize : memField env.mem (htag + 4) 4 = r.size)
    (hbody : loadAt env.mem (htag + 8 : Nat) r.body.length = r.body)
    (hnoEnd : r.type % 2 ^ 16 ≠ headerTagEnd) (h : Encodes env rsdp tags st)
    (hfit : Fits (tags ++ (recordRequests r).flatMap (infoTags env map rsdp)))
    (hret : mb2HeaderTag env fuel htag st = .ok res) :
    ∃ st', res = some st' ∧
      Encodes env rsdp (tags ++ (recordRequests r).flatMap (infoTags env map rsdp)) st' := by
  have hlow : memField env.mem htag 2 = r.type % 2 ^ 16 := by
    calc memField env.mem htag 2
        = memField env.mem htag 4 % 2 ^ 16 := memField_low env.mem htag 2 2
      _ = r.type % 2 ^ 16 := by rw [htype]
  simp only [mb2HeaderTag, hlow, if_neg hnoEnd] at hret
  split_ifs at hret with hinfo hflags
  · rw [headerRequests_eq hinfo hsize hbody] at hret
    cases hreqs : mb2Requests env fuel st (recordRequests r) with
    | error r' =>
        rw [hreqs] at hret
        cases hret
    | ok st' =>
        rw [hreqs, Except.ok.injEq] at hret
        exact ⟨st', hret.symm, h.requests hmap hfit hreqs⟩
  · -- a tag that is skipped asks for nothing
    rw [Except.ok.injEq] at hret
    refine ⟨st, hret.symm, ?_⟩
    rwa [recordRequests, if_neg hinfo, List.flatMap_nil, List.append_nil]

/-- **The loop over the header tags** appends the records of the tags it gets
    to, which are all of them unless the bound is in front of the END tag. -/
theorem mb2HeaderLoop_encodes {env : Mb2Env} {map : List BiosMmapEntry} {rsdp bound z htag : Nat}
    {hts : List Record} (hmap : E820Reports env.bios.e820 0 map)
    (hwalk : Walks 8 env.mem htag hts z) (hend : memField env.mem z 2 = headerTagEnd)
    (hz : z < 2 ^ 32) (hnoEnd : ∀ r ∈ hts, r.type % 2 ^ 16 ≠ headerTagEnd) :
    ∀ {fuel : Nat} {tags : List Record} {st st' : Mb2State},
      Encodes env rsdp tags st → Fits (tags ++ honoured env map rsdp hts) →
      mb2HeaderLoop env bound fuel htag st = .ok st' →
      ∃ done, done <+: hts ∧ Encodes env rsdp (tags ++ honoured env map rsdp done) st' ∧
        (z < bound → done = hts) := by
  induction hwalk with
  | done a =>
      intro fuel tags st st' h _ hloop
      refine ⟨[], List.nil_prefix, ?_, fun _ => rfl⟩
      -- at the END tag, if not before it, the loop is left
      obtain rfl : st = st' := by
        cases fuel with
        | zero => cases hloop
        | succ fuel =>
            rw [mb2HeaderLoop, mb2HeaderTag] at hloop
            split_ifs at hloop
            · exact Except.ok.inj hloop
            · exact Except.ok.inj hloop
      simpa [honoured] using h
  | @record a z r hts htype hsize hbody hrest ih =>
      intro fuel tags st st' h hfit hloop
      have hle := hrest.end_eq
      have hnext : nextTag env.mem a = a + (r.size + padTo 8 r.size) := by
        rw [nextTag_eq hsize, u32_of_lt (by omega)]
      rw [honoured_cons, ← List.append_assoc] at hfit
      have ih := @ih hend hz fun s hs => hnoEnd s (List.mem_cons_of_mem _ hs)
      cases fuel with
      | zero => cases hloop
      | succ fuel =>
          rw [mb2HeaderLoop, hnext] at hloop
          by_cases hbound : a < bound
          · rw [if_pos hbound] at hloop
            cases htag : mb2HeaderTag env fuel a st with
            | error r' =>
                rw [htag] at hloop
                cases hloop
            | ok res =>
                obtain ⟨st₁, rfl, hst₁⟩ := mb2HeaderTag_encodes hmap htype hsize hbody
                  (hnoEnd r List.mem_cons_self) h (hfit.mono (List.prefix_append _ _)) htag
                rw [htag] at hloop
                obtain ⟨done, hdone, henc, hall⟩ := ih hst₁ hfit hloop
                refine ⟨r :: done, List.cons_prefix_cons.mpr ⟨rfl, hdone⟩, ?_, fun hz => ?_⟩
                · rwa [honoured_cons, ← List.append_assoc]
                · rw [hall hz]
          · rw [if_neg hbound, Except.ok.injEq] at hloop
            refine ⟨[], List.nil_prefix, ?_, fun hz => absurd hz (by omega)⟩
            rw [← hloop]
            simpa [honoured] using h

/-! ## The structure returned -/

/-- What the structure is for: from offset 8 on the records `tags`, and
    behind them an END tag within the total size. -/
def WellFormed (mem : Int → UInt8) (tags : List Record) : Prop :=
  ∃ z, Walks 8 mem 8 tags z ∧ memField mem z 4 = tagEnd ∧ memField mem (z + 4) 4 = 8 ∧
    z + 8 ≤ memField mem 0 4

/-- A structure that ends with its last record. -/
theorem not_wellFormed_of_walks {mem : Int → UInt8} {tags : List Record}
    (h : Walks 8 mem 8 tags (memField mem 0 4)) (hpos : ∀ r ∈ tags, 0 < r.type)
    (tags' : List Record) : ¬ WellFormed mem tags' := by
  rintro ⟨z, hwalk, htype, -, hz⟩
  have hpos := h.type_pos hpos hwalk (by omega)
  rw [htype] at hpos
  exact absurd hpos (Nat.lt_irrefl _)

theorem honoured_type_pos {env : Mb2Env} {map : List BiosMmapEntry} {rsdp : Nat}
    {hts : List Record} : ∀ r ∈ honoured env map rsdp hts, 0 < r.type := by
  intro r hr
  obtain ⟨req, -, hr⟩ := List.mem_flatMap.mp hr
  exact infoTags_type_pos hr

/-- The total size written last, over what the requests left. -/
theorem Encodes.walks {env : Mb2Env} {rsdp : Nat} {tags : List Record} {st : Mb2State}
    (h : Encodes env rsdp tags st) (hfit : Fits tags) :
    Walks 8 (st.buf.store 0 (toLe 4 st.next)).mem 8 tags
      (memField (st.buf.store 0 (toLe 4 st.next)).mem 0 4) := by
  have hlt := hfit.lt
  have htotal : memField (st.buf.store 0 (toLe 4 st.next)).mem 0 4 = st.next :=
    memField_storeAt (by rw [h.next]; omega)
  rw [htotal, h.next]
  have hwalk : Walks 8 st.buf.mem 8 tags (8 + (encodeRecords 8 tags).length) := by
    apply walks_encodeRecords (by omega)
    rw [h.mem]
    exact loadAt_storeAt _ _ _
  apply hwalk.congr
  intro y hy
  rw [Mb2Buf.store_mem, storeAt_of_outside]
  rw [length_toLe]
  omega

theorem encodes_init (env : Mb2Env) (rsdp : Nat) (log : List (Nat × Nat)) :
    Encodes env rsdp [] ⟨⟨fun _ => 0, log⟩, 8, rsdp⟩ :=
  ⟨(storeAt_nil _ _).symm, rfl, rfl⟩

/-- The loop that a returned structure comes from. -/
theorem multiboot2Parse_loop {env : Mb2Env} {fuel head rsdp rsdp' : Nat} {b : Mb2Buf}
    (h : multiboot2Parse env fuel head rsdp = .ok (b, rsdp')) :
    ∃ st, mb2HeaderLoop env (u32 (head + 16 * memField env.mem (head + 8) 4)) fuel
        (u32 (head + 16)) ⟨⟨fun _ => 0, [(0, multiboot2Prealloc)]⟩, 8, rsdp⟩ = .ok st ∧
      b = st.buf.store 0 (toLe 4 st.next) := by
  simp only [multiboot2Parse] at h
  split_ifs at h
  cases hloop : mb2HeaderLoop env (u32 (head + 16 * memField env.mem (head + 8) 4)) fuel
      (u32 (head + 16)) ⟨⟨fun _ => 0, [(0, multiboot2Prealloc)]⟩, 8, rsdp⟩ with
  | error e =>
      rw [hloop] at h
      cases h
  | ok st =>
      rw [hloop] at h
      cases h
      exact ⟨st, rfl, rfl⟩

/-- **The records.**  What is returned for a valid header is the records of
    the header tags the loop got to, up to the total size. -/
theorem multiboot2Parse_walks {env : Mb2Env} {map : List BiosMmapEntry}
    {hts : List Record} {fuel head rsdp rsdp' z : Nat} {b : Mb2Buf}
    (hhead : ValidHeader env.mem head hts z) (hmap : E820Reports env.bios.e820 0 map)
    (hfit : Fits (honoured env map rsdp hts))
    (hret : multiboot2Parse env fuel head rsdp = .ok (b, rsdp')) :
    ∃ done, done <+: hts ∧ Walks 8 b.mem 8 (honoured env map rsdp done) (memField b.mem 0 4) ∧
      (head + 16 * memField env.mem (head + 8) 4 < 2 ^ 32 → done = hts) := by
  obtain ⟨st, hloop, rfl⟩ := multiboot2Parse_loop hret
  have hin := hhead.inHeader
  have hmem := hhead.inMemory
  have hend := hhead.tags.end_eq
  rw [u32_of_lt (x := head + 16) (by omega)] at hloop
  obtain ⟨done, hdone, henc, hall⟩ := mb2HeaderLoop_encodes hmap hhead.tags hhead.terminated
    (by omega) hhead.noEnd (encodes_init env rsdp _) hfit hloop
  refine ⟨done, hdone, henc.walks (hfit.mono (honoured_mono env map rsdp hdone)), fun hbound => ?_⟩
  -- the END tag is in the header, and the bound is behind it
  rw [u32_of_lt hbound] at hall
  exact hall (by omega)

/-- **The structure is never terminated.**  For a valid header, whatever is
    configured and reported, the records of the honoured requests are where
    they should be, in order, and the total size is where they end (given a
    bound that does not wrap around): no walk, over these records or any
    others, comes to an END tag within the structure. -/
theorem multiboot2Parse_unterminated {env : Mb2Env} {map : List BiosMmapEntry}
    {hts : List Record} {fuel head rsdp rsdp' z : Nat} {b : Mb2Buf}
    (hhead : ValidHeader env.mem head hts z) (hmap : E820Reports env.bios.e820 0 map)
    (hfit : Fits (honoured env map rsdp hts))
    (hret : multiboot2Parse env fuel head rsdp = .ok (b, rsdp')) :
    (∀ tags, ¬ WellFormed b.mem tags) ∧
      (head + 16 * memField env.mem (head + 8) 4 < 2 ^ 32 →
        Walks 8 b.mem 8 (honoured env map rsdp hts) (memField b.mem 0 4)) := by
  obtain ⟨done, -, hwalk, hall⟩ := multiboot2Parse_walks hhead hmap hfit hret
  refine ⟨not_wellFormed_of_walks hwalk honoured_type_pos, fun hbound => ?_⟩
  rwa [hall hbound] at hwalk

/-! ### A kernel that asks for the name of its loader -/

/-- Its header: one information request, for tag type 2, and the END tag. -/
def nameHeader : List UInt8 :=
  toLe 4 multiboot2HeadMagic ++ toLe 4 multiboot2HeadX86 ++ toLe 4 40 ++ toLe 4 0x17ADAF02 ++
    toLe 4 headerTagInformationRequest ++ toLe 4 12 ++ toLe 4 tagBootloaderName ++ toLe 4 0 ++
    toLe 4 headerTagEnd ++ toLe 4 8

/-- The header at 1 MiB, nothing configured, a BIOS that reports no memory. -/
def nameEnv : Mb2Env where
  mem := storeAt (fun _ => 0) (0x100000 : Nat) nameHeader
  cfg := ⟨none, []⟩
  bios := ⟨none, none, fun _ => none⟩

def nameRequest : Record := ⟨headerTagInformationRequest, toLe 4 tagBootloaderName, by decide⟩

theorem nameEnv_header : ValidHeader nameEnv.mem 0x100000 [nameRequest] 0x100020 where
  tags := .record nameRequest (by decide +kernel) (by decide +kernel) (by decide +kernel)
    (.done _)
  noEnd := by decide
  terminated := by decide +kernel
  inHeader := by decide +kernel
  inMemory := by decide +kernel

theorem nameEnv_honoured :
    honoured nameEnv [] 0 [nameRequest] = [stringRecord tagBootloaderName bootloaderName] := by
  decide +kernel

theorem nameEnv_fits : Fits (honoured nameEnv [] 0 [nameRequest]) := by
  decide +kernel

theorem nameEnv_returns : ∃ b rsdp, multiboot2Parse nameEnv 2 0x100000 0 = .ok (b, rsdp) := by
  have hok : (multiboot2Parse nameEnv 2 0x100000 0).isOk = true := by decide +kernel
  cases hret : multiboot2Parse nameEnv 2 0x100000 0 with
  | error e =>
      rw [hret] at hok
      cases hok
  | ok res => exact ⟨res.1, res.2, rfl⟩

theorem multiboot2Parse_unterminated_name : ∃ b rsdp,
    multiboot2Parse nameEnv 2 0x100000 0 = .ok (b, rsdp) ∧ (∀ tags, ¬ WellFormed b.mem tags) ∧
      Walks 8 b.mem 8 [stringRecord tagBootloaderName bootloaderName] (memField b.mem 0 4) := by
  obtain ⟨b, rsdp, hret⟩ := nameEnv_returns
  obtain ⟨hnone, hwalk⟩ :=
    multiboot2Parse_unterminated nameEnv_header (.fails rfl) nameEnv_fits hret
  rw [nameEnv_honoured] at hwalk
  exact ⟨b, rsdp, hret, hnone, hwalk (by decide +kernel)⟩

/-- The request is honoured, and the structure is not well formed. -/
theorem multiboot2Parse_no_end : ∃ b rsdp,
    multiboot2Parse nameEnv 2 0x100000 0 = .ok (b, rsdp) ∧
      ¬ WellFormed b.mem (honoured nameEnv [] 0 [nameRequest]) := by
  obtain ⟨b, rsdp, hret⟩ := nameEnv_returns
  obtain ⟨done, -, hwalk, -⟩ :=
    multiboot2Parse_walks nameEnv_header (.fails rfl) nameEnv_fits hret
  exact ⟨b, rsdp, hret, not_wellFormed_of_walks hwalk honoured_type_pos _⟩

end LBoot.Exec
