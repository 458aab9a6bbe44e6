/-
  LBoot.Exec.MultibootTags

  The tags a kernel asks for, and that the tag writers of
  src/exec/multiboot.c write them.

  The information structure is a list of records padded to 8 bytes, and so
  are the tags of the kernel's header.  `infoTags` says which records one
  request stands for, with the configuration and what the BIOS reports as
  their content.

  Each writer of a tag stores fields one behind the other; what they leave at
  `next_tag` is the bytes of one record, `reserved` and `flags` words being
  the zeros the buffer was cleared to.
-/

import LBoot.Exec.Multiboot

namespace LBoot.Exec

open LBoot.Lib

/-! ## What is asked for -/

/-- A multiboot2 header whose tags are `hts`, with the END tag at `z`. -/
structure ValidHeader (mem : Int → UInt8) (head : Nat) (hts : List Record) (z : Nat) : Prop where
  tags : Walks 8 mem (head + 16) hts z
  noEnd : ∀ r ∈ hts, r.type % 2 ^ 16 ≠ headerTagEnd
  terminated : memField mem z 2 = headerTagEnd
  inHeader : z + 8 ≤ head + memField mem (head + 8) 4
  inMemory : head + memField mem (head + 8) 4 ≤ 2 ^ 32

/-- The words of an information request. -/
def recordRequests (r : Record) : List Nat :=
  if r.type % 2 ^ 16 = headerTagInformationRequest then
    (List.range (r.body.length / 4)).map fun i => leField r.body (4 * i) 4
  else []

/-- The memory map the BIOS reports, from a continuation value on. -/
inductive E820Reports (e820 : UInt32 → Option (BiosMmapEntry × UInt32)) :
    UInt32 → List BiosMmapEntry → Prop
  | fails {ebx : UInt32} (call : e820 ebx = none) : E820Reports e820 ebx []
  | last {ebx : UInt32} {entry : BiosMmapEntry} (call : e820 ebx = some (entry, 0)) :
      E820Reports e820 ebx [entry]
  | more {ebx ebx' : UInt32} {entry : BiosMmapEntry} {map : List BiosMmapEntry}
      (call : e820 ebx = some (entry, ebx')) (pos : ebx' > 0)
      (rest : E820Reports e820 ebx' map) : E820Reports e820 ebx (entry :: map)

/-! ## The records -/

def stringRecord (type : Nat) (s : CString) (h : type < 2 ^ 32 := by decide) : Record :=
  ⟨type, s.bytes, h⟩

def moduleRecord (mod : ConfigModule) : Record where
  type := tagModule
  body := toLe 4 mod.addr.toNat ++ (toLe 4 (mod.addr + mod.size).toNat ++ mod.name.bytes)

/-- The lower memory reported, in KiB. -/
def lowerMem (bios : Bios) : Nat :=
  match bios.int12 with
  | none => 640
  | some ax => ax.toNat

def meminfoRecord (lower upper : Nat) : Record where
  type := tagBasicMeminfo
  body := toLe 4 lower ++ toLe 4 upper

def mmapEntryBytes (entry : BiosMmapEntry) : List UInt8 :=
  toLe 8 entry.base.toNat ++ (toLe 8 entry.length.toNat ++
    (toLe 4 (mmapType entry.type) ++ List.replicate 4 0))

def mmapRecord (map : List BiosMmapEntry) : Record where
  type := tagMmap
  body := toLe 4 24 ++ (toLe 4 0 ++ map.flatMap mmapEntryBytes)

/-- An ACPI table for the older tag. -/
def rsdpV1Valid (mem : Int → UInt8) (a : Nat) : Bool := byteSum mem a rsdpV1Size == 0

/-- An ACPI table for the newer tag. -/
def rsdpV2Valid (mem : Int → UInt8) (a : Nat) : Bool :=
  mem (a + 15 : Nat) == 2 && (rsdpV1Valid mem a && byteSum mem a rsdpV2Size == 0)

def acpiOldRecord (mem : Int → UInt8) (a : Nat) : Record where
  type := tagAcpiOld
  body := loadAt mem a rsdpV1Size

def acpiNewRecord (mem : Int → UInt8) (a : Nat) : Record where
  type := tagAcpiNew
  body := loadAt mem a rsdpV2Size

/-- The table found, if it is valid. -/
def acpiRecords (mem : Int → UInt8) (rsdp : Nat) (valid : Nat → Bool)
    (record : Nat → Record) : List Record :=
  ((acpiRsdp mem rsdp).filter valid).toList.map record

/-- The records a request stands for: none if it is not honoured. -/
def infoTags (env : Mb2Env) (map : List BiosMmapEntry) (rsdp req : Nat) : List Record :=
  if req = tagCmdline then env.cfg.kernelCmdline.toList.map fun s => stringRecord tagCmdline s
  else if req = tagBootloaderName then [stringRecord tagBootloaderName bootloaderName]
  else if req = tagModule then env.cfg.modules.map moduleRecord
  else if req = tagBasicMeminfo then
    env.bios.int1588.toList.map fun ax => meminfoRecord (lowerMem env.bios) ax.toNat
  else if req = tagMmap then [mmapRecord map]
  else if req = tagAcpiOld then
    acpiRecords env.mem rsdp (rsdpV1Valid env.mem) (acpiOldRecord env.mem)
  else if req = tagAcpiNew then
    acpiRecords env.mem rsdp (rsdpV2Valid env.mem) (acpiNewRecord env.mem)
  else []

/-- No record is an END tag. -/
theorem infoTags_type_pos {env : Mb2Env} {map : List BiosMmapEntry} {rsdp req : Nat} {r : Record}
    (h : r ∈ infoTags env map rsdp req) : 0 < r.type := by
  have hall : ∀ {β : Type} {xs : List β} {f : β → Record}, (∀ x, 0 < (f x).type) →
      r ∈ xs.map f → 0 < r.type := by
    intro β xs f hf hr
    obtain ⟨x, -, rfl⟩ := List.mem_map.mp hr
    exact hf x
  rw [infoTags] at h
  split_ifs at h
  · exact hall (fun _ => Nat.one_pos) h
  · rw [List.mem_singleton.mp h]
    exact Nat.two_pos
  · exact hall (fun _ => Nat.succ_pos 2) h
  · exact hall (fun _ => Nat.succ_pos 3) h
  · rw [List.mem_singleton.mp h]
    exact Nat.succ_pos 5
  · exact hall (fun _ => Nat.succ_pos 13) h
  · exact hall (fun _ => Nat.succ_pos 14) h
  · cases h

/-! ## The tag writers -/

theorem nextTag_eq {mem : Int → UInt8} {t size : Nat} (h : memField mem (t + 4) 4 = size) :
    nextTag mem t = u32 (t + (size + padTo 8 size)) := by
  rw [nextTag, h, padTo, Nat.add_assoc]

/-- A type written as 16 bits over zeros. -/
theorem putTag_mem {b : Mb2Buf} {t : Nat} {r : Record} (htype : r.type < 2 ^ 16)
    (hzero : ∀ y : Int, t ≤ y → b.mem y = 0) :
    (putTag b t r.type r.body).mem = storeAt b.mem t r.bytes := by
  have hpad : storeAt b.mem t (toLe 2 r.type) = storeAt b.mem t (toLe 4 r.type) := by
    rw [toLe_add (v := 2) 2 htype, storeAt_replicate fun i _ => hzero _ (by omega)]
  have hsize : 8 + r.body.length = r.size := rfl
  rw [putTag, Mb2Buf.store_mem, Mb2Buf.store_mem, Mb2Buf.store_mem, hpad, hsize,
    storeAt_behind b.mem (by rw [length_toLe]),
    storeAt_behind b.mem (by rw [List.length_append, length_toLe, length_toLe]),
    List.append_assoc, Record.bytes]

theorem poptagModule_mem (b : Mb2Buf) (t : Nat) (mod : ConfigModule) :
    (poptagModule b t mod).mem = storeAt b.mem t (moduleRecord mod).bytes := by
  have hsize : 16 + mod.name.chars.length + 1 = (moduleRecord mod).size := by
    simp only [Record.size, moduleRecord, CString.bytes, List.length_append, length_toLe,
      List.length_singleton]
    omega
  rw [poptagModule, hsize]
  simp only [Mb2Buf.store_mem]
  rw [storeAt_behind b.mem (by simp), storeAt_behind b.mem (by simp),
    storeAt_behind b.mem (by simp), storeAt_behind b.mem (by simp)]
  simp only [List.append_assoc, Record.bytes, moduleRecord]

theorem poptagMeminfo_eq (bios : Bios) (b : Mb2Buf) (t : Nat) :
    poptagMeminfo bios b t = bios.int1588.map fun ax =>
      (((b.store t (toLe 4 tagBasicMeminfo)).store (t + 4) (toLe 4 16)).store (t + 8)
        (toLe 4 (lowerMem bios))).store (t + 12) (toLe 4 ax.toNat) := by
  rw [poptagMeminfo, lowerMem]
  cases bios.int12 <;> cases bios.int1588 <;> rfl

theorem poptagMeminfo_mem {bios : Bios} {b b' : Mb2Buf} {t : Nat}
    (h : poptagMeminfo bios b t = some b') :
    ∃ ax, bios.int1588 = some ax ∧
      b'.mem = storeAt b.mem t (meminfoRecord (lowerMem bios) ax.toNat).bytes := by
  rw [poptagMeminfo_eq] at h
  obtain ⟨ax, hax, rfl⟩ := Option.map_eq_some_iff.mp h
  refine ⟨ax, hax, ?_⟩
  simp only [Mb2Buf.store_mem]
  rw [storeAt_behind b.mem (by simp), storeAt_behind b.mem (by simp),
    storeAt_behind b.mem (by simp)]
  simp only [List.append_assoc, Record.bytes, meminfoRecord]
  rfl

/-- A table that was found is not at zero, so it is not looked for again. -/
theorem acpiRsdp_found {mem : Int → UInt8} {rsdp a : Nat} (h : acpiRsdp mem rsdp = some a) :
    acpiRsdp mem a = some a := by
  have hpos : a ≠ 0 := by
    rw [acpiRsdp] at h
    split_ifs at h with hrsdp
    · have hmem := List.mem_of_find?_eq_some h
      simp only [rsdpCandidates, List.mem_append, List.mem_map] at hmem
      obtain ⟨k, -, rfl⟩ | ⟨k, -, rfl⟩ := hmem
      · omega
      · omega
    · cases h
      exact hrsdp
  rw [acpiRsdp, if_neg hpos]

/-- The checks of the older ACPI tag. -/
theorem poptagAcpiold_eq (mem : Int → UInt8) (b : Mb2Buf) (t a : Nat) :
    poptagAcpiold mem b t a = if rsdpV1Valid mem a then
      some (putTag b t (acpiOldRecord mem a).type (acpiOldRecord mem a).body) else none := by
  simp only [poptagAcpiold, rsdpV1Valid, beq_iff_eq, ite_not]
  rfl

/-- The checks of the newer one. -/
theorem poptagAcpinew_eq (mem : Int → UInt8) (b : Mb2Buf) (t a : Nat) :
    poptagAcpinew mem b t a = if rsdpV2Valid mem a then
      some (putTag b t (acpiNewRecord mem a).type (acpiNewRecord mem a).body) else none := by
  simp only [poptagAcpinew, rsdpV2Valid, rsdpV1Valid, Bool.and_eq_true, beq_iff_eq, ne_eq,
    ite_not, ite_and]
  rfl

/-! ### The memory map -/

theorem mmapRecord_size (map : List BiosMmapEntry) : (mmapRecord map).size = 16 + 24 * map.length := by
  have hlen : (map.flatMap mmapEntryBytes).length = 24 * map.length := by
    induction map with
    | nil => rfl
    | cons entry map ih =>
        rw [List.flatMap_cons, List.length_append, ih, List.length_cons]
        simp only [mmapEntryBytes, List.length_append, length_toLe, List.length_replicate]
        omega
  simp only [Record.size, mmapRecord, List.length_append, length_toLe, hlen]
  omega

theorem mmapRecord_append (map : List BiosMmapEntry) (entry : BiosMmapEntry) :
    (mmapRecord (map ++ [entry])).body = (mmapRecord map).body ++ mmapEntryBytes entry := by
  simp only [mmapRecord, List.flatMap_append, List.flatMap_singleton, List.append_assoc]

/-- One entry more: its fields, and the count of it in the size. -/
theorem putMmapEntry_mem {m : Int → UInt8} {b : Mb2Buf} {t : Nat} {map : List BiosMmapEntry}
    (entry : BiosMmapEntry) (hzero : ∀ y : Int, t ≤ y → m y = 0)
    (hsize : (mmapRecord map).size < 2 ^ 32) (h : b.mem = storeAt m t (mmapRecord map).bytes) :
    (putMmapEntry b t map.length entry).mem
      = storeAt m t (mmapRecord (map ++ [entry])).bytes := by
  have hrec := mmapRecord_size map
  -- the entry's fields, with its reserved word still zero
  have hentry : storeAt (storeAt (storeAt b.mem (t + 16 + 24 * map.length : Nat)
      (toLe 8 entry.base.toNat)) (t + 16 + 24 * map.length + 8 : Nat)
      (toLe 8 entry.length.toNat)) (t + 16 + 24 * map.length + 16 : Nat)
      (toLe 4 (mmapType entry.type))
        = storeAt m t ((mmapRecord map).bytes ++ mmapEntryBytes entry) := by
    rw [h, storeAt_behind m (by rw [Record.length_bytes]; omega),
      storeAt_behind m (by simp; omega), storeAt_behind m (by simp; omega), mmapEntryBytes,
      ← storeAt_replicate (n := 4) (x := 0) fun i _ => hzero _ (by omega)]
    simp only [List.append_assoc]
  rw [Record.bytes, List.append_assoc, List.append_assoc, ← mmapRecord_append] at hentry
  have hload := loadAt_storeAt m t (toLe 4 (mmapRecord map).type ++
    (toLe 4 (mmapRecord map).size ++ (mmapRecord (map ++ [entry])).body))
  have hcount : memField (storeAt m t (toLe 4 (mmapRecord map).type ++
      (toLe 4 (mmapRecord map).size ++ (mmapRecord (map ++ [entry])).body))) (t + 4) 4
        = (mmapRecord map).size := by
    rw [memField_inside hload (by simp only [List.length_append, length_toLe]; omega), leField,
      List.drop_left' (length_toLe _ _), List.take_left' (length_toLe _ _),
      leNat_toLe_of_lt hsize]
  simp only [putMmapEntry, Mb2Buf.store_mem]
  rw [hentry, hcount, storeAt_middle m _ (by rw [length_toLe])
    (by rw [length_toLe, length_toLe]), Record.bytes, mmapRecord_size, mmapRecord_size,
    List.length_append, List.length_singleton, Nat.add_assoc, ← Nat.mul_succ]
  rfl

/-- **The loop** writes the entries the BIOS reports. -/
theorem mmapLoop_mem {bios : Bios} {ebx : UInt32} {rest : List BiosMmapEntry}
    (hrest : E820Reports bios.e820 ebx rest) {m : Int → UInt8} {t : Nat}
    (hzero : ∀ y : Int, t ≤ y → m y = 0) :
    ∀ {fuel idx : Nat} {b b' : Mb2Buf} (map : List BiosMmapEntry), idx = map.length →
      (mmapRecord (map ++ rest)).size < 2 ^ 32 →
      b.mem = storeAt m t (mmapRecord map).bytes →
      mmapLoop bios fuel b t idx ebx = some b' →
      b'.mem = storeAt m t (mmapRecord (map ++ rest)).bytes := by
  -- the record of what is read so far still fits the length field
  have hle : ∀ (map rest : List BiosMmapEntry),
      (mmapRecord map).size ≤ (mmapRecord (map ++ rest)).size := by
    intro map rest
    rw [mmapRecord_size, mmapRecord_size, List.length_append]
    omega
  -- over what the BIOS has yet to report, with the entries so far in `map`
  induction hrest with
  | fails hcall =>
      intro fuel idx b b' map hidx _ hb hloop
      cases fuel with
      | zero => cases hloop
      | succ fuel =>
          rw [mmapLoop, hcall, Option.some.injEq] at hloop
          rw [← hloop, hb, List.append_nil]
  | last hcall =>
      intro fuel idx b b' map hidx hsize hb hloop
      cases fuel with
      | zero => cases hloop
      | succ fuel =>
          simp only [mmapLoop, hcall, hidx] at hloop
          rw [if_neg (by decide), Option.some.injEq] at hloop
          rw [← hloop]
          exact putMmapEntry_mem _ hzero (lt_of_le_of_lt (hle _ _) hsize) hb
  | @more ebx ebx' entry rest hcall hpos _ ih =>
      intro fuel idx b b' map hidx hsize hb hloop
      cases fuel with
      | zero => cases hloop
      | succ fuel =>
          simp only [mmapLoop, hcall, hidx] at hloop
          rw [if_pos hpos] at hloop
          have hput := putMmapEntry_mem entry hzero (lt_of_le_of_lt (hle _ _) hsize) hb
          rw [List.append_cons] at hsize ⊢
          exact ih (map ++ [entry]) (by rw [List.length_append, List.length_singleton]) hsize
            hput hloop

theorem poptagMmap_mem {bios : Bios} {map : List BiosMmapEntry}
    (hmap : E820Reports bios.e820 0 map) {b b' : Mb2Buf} {t fuel : Nat}
    (hzero : ∀ y : Int, t ≤ y → b.mem y = 0) (hsize : (mmapRecord map).size < 2 ^ 32)
    (h : poptagMmap bios fuel b t = some b') :
    b'.mem = storeAt b.mem t (mmapRecord map).bytes := by
  rw [poptagMmap] at h
  refine mmapLoop_mem hmap hzero [] rfl hsize ?_ h
  simp only [Mb2Buf.store_mem]
  rw [storeAt_behind b.mem (by simp), storeAt_behind b.mem (by simp),
    storeAt_behind b.mem (by simp)]
  simp only [List.append_assoc, Record.bytes, mmapRecord]
  rfl

end LBoot.Exec
