/-
  LBoot.Storage.FatHeap

  What looking up a path on a FAT volume does to the heap
  (src/storage/fs/fs.c, src/storage/fs/fat.c).

  A read allocates its scratch buffer, a search its buffer for entries and the
  data of the handle it returns, and `fs_findfile` a copy of the path.  The
  functions are those of `Fs` and `FatFind` with each `alloc` and `free` in
  its place.  A handle's data is a block; the root directory has none of the
  heap.

  The copy of the path is freed only where the search has failed, and the
  handle of a directory passed on the way only where it goes on.  So the
  blocks balance exactly if the first component of the path is not found
  (`fatFindfileHeap_balanced_iff`).  No block is freed that is not live.
-/

import LBoot.Lib.HeapLog
import LBoot.Storage.FatFind
import LBoot.Storage.FsResolve
import Mathlib.Data.Finset.Lattice.Fold
import Mathlib.Order.Lattice.Nat

namespace LBoot.Storage

open LBoot.Lib

variable {ι β : Type*} [DecidableEq β] {init : Finset β}

/-- `sizeof(fat_file_data_t)`. -/
abbrev sizeofFatFileData : Nat := 4

/-- `file_hand_t` with the block its `data` points to. -/
structure FileHandle (β : Type*) where
  file : FatFile
  data : β
  deriving DecidableEq

/-- The handle, if there is one. -/
def FindRet.map {φ ψ : Type*} (f : φ → ψ) : FindRet φ → FindRet ψ
  | .panic => .panic
  | .stuck => .stuck
  | .fail => .fail
  | .ok a => .ok (f a)

theorem FindRet.map_eq_fail {φ ψ : Type*} {f : φ → ψ} {r : FindRet φ} :
    r.map f = .fail ↔ r = .fail := by
  cases r <;> simp [FindRet.map]

/-! ## The driver -/

/-- `_fat_file_read`, between the `alloc` of `tmp` and a `free` at each exit. -/
def fatFileReadHeap (A : Allocator init) (S : StorageHand ι) (fd : FatData) (file : FatFile)
    (s : FatState ι) (h : HeapLog β) (buf : Int → UInt8) (sz : Nat) (off : Int) :
    FatRet × (Int → UInt8) × FatState ι × HeapLog β :=
  if ¬ file.directory ∧ toU32 (off + sz) > file.size then (.panic, buf, s, h)
  else
    match A.alloc h fd.clusterSize with
    | none => (.panic, buf, s, h)
    | some (tmp, h) =>
        match fatSkip S fd off.toNat s file.firstCluster off with
        | (.error (.ret r), s) => (.ret r, buf, s, .free tmp :: h)
        | (.error r, s) => (r, buf, s, h)
        | (.ok (cluster, off), s) =>
            match fatCopy S fd sz sz s buf cluster off 0 with
            | (.ret r, buf, s) => (.ret r, buf, s, .free tmp :: h)
            | (r, buf, s) => (r, buf, s, h)

/-- `_fat_pop_file`; `none` if `alloc` does not return. -/
def fatPopFileHeap (A : Allocator init) (file : FatFile) (h : HeapLog β) :
    Option (FileHandle β × HeapLog β) :=
  (A.alloc h sizeofFatFileData).map fun r => (⟨file, r.1⟩, r.2)

/-- The loop of `_fat_fs_find`, with its buffer in the block `dirents`. -/
def fatFsFindLoopHeap (A : Allocator init) (S : StorageHand ι) (fd : FatData) (dir : FatFile)
    (name : List UInt8) (dirents : β) :
    Nat → FatSearch ι → HeapLog β → Int → FindRet (FileHandle β) × FatSearch ι × HeapLog β
  | 0, s, h, _ => (.stuck, s, h)
  | fuel + 1, s, h, pos =>
      match fatFileReadHeap A S fd dir s.lookup h s.dirents fd.clusterSize pos with
      | (.panic, buf, lookup, h) => (.panic, ⟨lookup, buf⟩, h)
      | (.stuck, buf, lookup, h) => (.stuck, ⟨lookup, buf⟩, h)
      | (.ret r, buf, lookup, h) =>
          if r ≠ fd.clusterSize then (.fail, ⟨lookup, buf⟩, .free dirents :: h)
          else
            match fatScanDirents fuel fd buf name
                (List.range (fd.clusterSize / sizeofFatDirent)) with
            | .fail => fatFsFindLoopHeap A S fd dir name dirents fuel ⟨lookup, buf⟩ h
                (s32 (pos + fd.clusterSize))
            | .ok file =>
                match fatPopFileHeap A file h with
                | none => (.panic, ⟨lookup, buf⟩, h)
                | some (file, h) => (.ok file, ⟨lookup, buf⟩, .free dirents :: h)
            | .panic => (.panic, ⟨lookup, buf⟩, h)
            | .stuck => (.stuck, ⟨lookup, buf⟩, h)

/-- `_fat_fs_find`. -/
def fatFsFindHeap (A : Allocator init) (S : StorageHand ι) (fs : FsHand) (fuel : Nat)
    (s : FatSearch ι) (h : HeapLog β) (dir : Option (FileHandle β)) (name : List UInt8) :
    FindRet (FileHandle β) × FatSearch ι × HeapLog β :=
  let dir := (dir.map FileHandle.file).getD fs.rootdir
  if name = [0x2e] then
    -- a copy of the handle, with data of its own
    match fatPopFileHeap A dir h with
    | none => (.panic, s, h)
    | some (file, h) => (.ok file, s, h)
  else
    match A.alloc h fs.fdata.clusterSize with
    | none => (.panic, s, h)
    | some (dirents, h) => fatFsFindLoopHeap A S fs.fdata dir name dirents fuel s h 0

/-- `_fat_file_close`, of a handle that is not the root directory's. -/
def fatFileClose (file : FileHandle β) (h : HeapLog β) : HeapLog β := .free file.data :: h

/-! ## Looking up a path -/

section Findfile

variable {σ φ : Type*}

/-- `tdir1` is closed, where it is in use. -/
def closeTdir (close : φ → HeapLog β → HeapLog β) (tdir1 : Option φ) (h : HeapLog β) : HeapLog β :=
  match tdir1 with
  | some tdir => close tdir h
  | none => h

/-- The loop of `fs_findfile`; `copy` is the block of the path, and `tdir1`
    the handle of the directory reached, behind the first component. -/
def fsFindfileHeapLoop
    (find : σ → HeapLog β → Option φ → List UInt8 → FindRet φ × σ × HeapLog β) (isDir : φ → Bool)
    (close : φ → HeapLog β → HeapLog β) (copy : β) (dir : Option φ) (file : φ) :
    σ → HeapLog β → Option φ → List (List UInt8) → FindRet φ × σ × HeapLog β
  | s, h, tdir1, [] => (.ok file, s, closeTdir close tdir1 h)
  | s, h, tdir1, [cpath] =>
      if cpath = [] then (.ok file, s, closeTdir close tdir1 h)
      else
        match find s h (tdir1 <|> dir) cpath with
        | (.ok file, s, h) => (.ok file, s, closeTdir close tdir1 h)
        | (.fail, s, h) => (.fail, s, .free copy :: h)
        | (r, s, h) => (r, s, h)
  | s, h, tdir1, cpath :: rest =>
      match find s h (tdir1 <|> dir) cpath with
      | (.ok tdir2, s, h) =>
          if isDir tdir2 then
            fsFindfileHeapLoop find isDir close copy dir file s (closeTdir close tdir1 h)
              (some tdir2) rest
          else (.fail, s, .free copy :: h)
      | (.fail, s, h) => (.fail, s, .free copy :: h)
      | (r, s, h) => (r, s, h)

omit [DecidableEq β] in
/-- A component with others behind it. -/
theorem fsFindfileHeapLoop_on
    (find : σ → HeapLog β → Option φ → List UInt8 → FindRet φ × σ × HeapLog β) (isDir : φ → Bool)
    (close : φ → HeapLog β → HeapLog β) (copy : β) (dir : Option φ) (file : φ) (s : σ) (h : HeapLog β)
    (tdir1 : Option φ) (cpath next : List UInt8) (rest : List (List UInt8)) :
    fsFindfileHeapLoop find isDir close copy dir file s h tdir1 (cpath :: next :: rest) =
      match find s h (tdir1 <|> dir) cpath with
      | (.ok tdir2, s, h) =>
          if isDir tdir2 then
            fsFindfileHeapLoop find isDir close copy dir file s (closeTdir close tdir1 h)
              (some tdir2) (next :: rest)
          else (.fail, s, .free copy :: h)
      | (.fail, s, h) => (.fail, s, .free copy :: h)
      | (r, s, h) => (r, s, h) := rfl

/-- `fs_findfile`. -/
def fsFindfileHeap (A : Allocator init)
    (find : σ → HeapLog β → Option φ → List UInt8 → FindRet φ × σ × HeapLog β) (isDir : φ → Bool)
    (close : φ → HeapLog β → HeapLog β) (s : σ) (h : HeapLog β) (dir : Option φ) (file : φ)
    (path : List UInt8) : FindRet φ × σ × HeapLog β :=
  let start := searchStart dir path
  if start.2 = [] then (.fail, s, h)
  else
    match A.alloc h (start.2.length + 1) with
    | none => (.panic, s, h)
    | some (copy, h) =>
        fsFindfileHeapLoop find isDir close copy start.1 file s h none
          (start.2.splitOn fsPathsep)

end Findfile

/-- `fs_findfile` on a FAT volume. -/
def fatFindfileHeap (A : Allocator init) (S : StorageHand ι) (fs : FsHand) (fuel : Nat)
    (s : FatSearch ι) (h : HeapLog β) (dir : Option (FileHandle β)) (file : FileHandle β)
    (path : List UInt8) : FindRet (FileHandle β) × FatSearch ι × HeapLog β :=
  fsFindfileHeap A (fatFsFindHeap A S fs fuel) (fun f => f.file.directory) fatFileClose s h dir file
    path

/-! ## What each function leaves behind -/

/-- A search that fails keeps nothing, and one that succeeds keeps the data of
    its handle. -/
structure FindKeeps {φ : Type*} (init : Finset β) (data : φ → β) (h : HeapLog β) (r : FindRet φ)
    (h' : HeapLog β) : Prop where
  fail : r = .fail → liveBlocks init h' = liveBlocks init h
  ok : ∀ f, r = .ok f →
    data f ∉ liveBlocks init h ∧ liveBlocks init h' = insert (data f) (liveBlocks init h)

section Driver

variable (A : Allocator init) (S : StorageHand ι) (fd : FatData)

/-- A read gives back what it takes, if it returns. -/
theorem fatFileReadHeap_spec (file : FatFile) (s : FatState ι) (h : HeapLog β) (buf : Int → UInt8)
    (sz : Nat) (off : Int) :
    (FreesLive init h → FreesLive init (fatFileReadHeap A S fd file s h buf sz off).2.2.2) ∧
      (∀ r, (fatFileReadHeap A S fd file s h buf sz off).1 = .ret r →
        liveBlocks init (fatFileReadHeap A S fd file s h buf sz off).2.2.2 = liveBlocks init h) ∧
      ((fatFileReadHeap A S fd file s h buf sz off).1 ≠ .panic →
        fatFileRead S fd file s buf sz off
          = ((fatFileReadHeap A S fd file s h buf sz off).1,
            (fatFileReadHeap A S fd file s h buf sz off).2.1,
            (fatFileReadHeap A S fd file s h buf sz off).2.2.1)) := by
  rw [fatFileReadHeap, fatFileRead]
  split
  · exact ⟨id, fun r hr => absurd hr (by simp), fun hr => absurd rfl hr⟩
  cases halloc : A.alloc h fd.clusterSize with
  | none => exact ⟨id, fun r hr => absurd hr (by simp), fun hr => absurd rfl hr⟩
  | some res =>
      obtain ⟨tmp, h'⟩ := res
      obtain ⟨hfresh, rfl⟩ := Allocator.alloc_some halloc
      have hback : liveBlocks init (.free tmp :: .alloc tmp :: h) = liveBlocks init h := by
        simp [Finset.erase_insert hfresh]
      dsimp only
      generalize fatSkip S fd off.toNat s file.firstCluster off = skip
      obtain ⟨skip, s⟩ := skip
      cases skip with
      | error r =>
          cases r with
          | ret r => exact ⟨fun hh => by simpa using hh, fun _ _ => hback, fun _ => rfl⟩
          | panic => exact ⟨id, fun r hr => absurd hr (by simp), fun _ => rfl⟩
          | stuck => exact ⟨id, fun r hr => absurd hr (by simp), fun _ => rfl⟩
      | ok place =>
          dsimp only
          generalize fatCopy S fd sz sz s buf place.1 place.2 0 = copy
          obtain ⟨r, buf, s⟩ := copy
          cases r with
          | ret r => exact ⟨fun hh => by simpa using hh, fun _ _ => hback, fun _ => rfl⟩
          | panic => exact ⟨id, fun r hr => absurd hr (by simp), fun _ => rfl⟩
          | stuck => exact ⟨id, fun r hr => absurd hr (by simp), fun _ => rfl⟩

variable {A} in
theorem fatPopFileHeap_some {file : FatFile} {h h' : HeapLog β} {f : FileHandle β}
    (hpop : fatPopFileHeap A file h = some (f, h')) :
    f.file = file ∧ f.data ∉ liveBlocks init h ∧ h' = .alloc f.data :: h := by
  rw [fatPopFileHeap, Option.map_eq_some_iff] at hpop
  obtain ⟨⟨b, h''⟩, halloc, heq⟩ := hpop
  obtain ⟨rfl, rfl⟩ := Prod.mk.inj heq
  exact ⟨rfl, Allocator.alloc_some halloc⟩

/-- The loop frees the buffer whenever it returns. -/
theorem fatFsFindLoopHeap_spec (dir : FatFile) (name : List UInt8) {dirents : β} {live : Finset β}
    (hdirents : dirents ∉ live) (fuel : Nat) (s : FatSearch ι) {h : HeapLog β}
    (hlive : liveBlocks init h = insert dirents live) (pos : Int) :
    let out := fatFsFindLoopHeap A S fd dir name dirents fuel s h pos
    (FreesLive init h → FreesLive init out.2.2) ∧
      (out.1 = .fail → liveBlocks init out.2.2 = live) ∧
      (∀ f, out.1 = .ok f → f.data ∉ live ∧ liveBlocks init out.2.2 = insert f.data live) ∧
      (out.1 ≠ .panic → fatFsFindLoop S fd dir name fuel s pos
        = (out.1.map FileHandle.file, out.2.1)) := by
  induction fuel generalizing s h pos with
  | zero => exact ⟨id, fun hr => absurd hr (by simp [fatFsFindLoopHeap]),
      fun f hr => absurd hr (by simp [fatFsFindLoopHeap]), fun _ => rfl⟩
  | succ fuel ih =>
      obtain ⟨hfrees, hback, hforget⟩ := fatFileReadHeap_spec A S fd dir
        s.lookup h s.dirents fd.clusterSize pos
      dsimp only
      rw [fatFsFindLoopHeap, fatFsFindLoop]
      generalize fatFileReadHeap A S fd dir s.lookup h s.dirents fd.clusterSize pos = out
        at hfrees hback hforget
      obtain ⟨r, buf, lookup, h'⟩ := out
      cases r with
      | panic => exact ⟨hfrees, fun hr => absurd hr (by simp), fun f hr => absurd hr (by simp),
          fun hr => absurd rfl hr⟩
      | stuck =>
          rw [hforget (by simp)]
          exact ⟨hfrees, fun hr => absurd hr (by simp), fun f hr => absurd hr (by simp),
            fun _ => rfl⟩
      | ret r =>
          have hlive' : liveBlocks init h' = insert dirents live := (hback r rfl).trans hlive
          have hmem : dirents ∈ liveBlocks init h' := by simp [hlive']
          rw [hforget (by simp)]
          dsimp only
          split
          · -- the end of the directory
            refine ⟨fun hh => ⟨hmem, hfrees hh⟩, fun _ => ?_, fun f hr => absurd hr (by simp),
              fun _ => rfl⟩
            simp [hlive', Finset.erase_insert hdirents]
          · cases fatScanDirents fuel fd buf name (List.range (fd.clusterSize / sizeofFatDirent)) with
            | fail =>
                obtain ⟨hf, hrest⟩ := ih ⟨lookup, buf⟩ hlive' (s32 (pos + fd.clusterSize))
                exact ⟨fun hh => hf (hfrees hh), hrest⟩
            | panic => exact ⟨hfrees, fun hr => absurd hr (by simp), fun f hr => absurd hr (by simp),
                fun hr => absurd rfl hr⟩
            | stuck => exact ⟨hfrees, fun hr => absurd hr (by simp), fun f hr => absurd hr (by simp),
                fun _ => rfl⟩
            | ok file =>
                dsimp only
                cases hpop : fatPopFileHeap A file h' with
                | none => exact ⟨hfrees, fun hr => absurd hr (by simp),
                    fun f hr => absurd hr (by simp), fun hr => absurd rfl hr⟩
                | some res =>
                    obtain ⟨f, h''⟩ := res
                    obtain ⟨rfl, hfresh, rfl⟩ := fatPopFileHeap_some hpop
                    rw [hlive', Finset.mem_insert, not_or] at hfresh
                    refine ⟨fun hh => ⟨by simp [hlive'], hfrees hh⟩, fun hr => absurd hr (by simp),
                      fun g hg => ?_, fun _ => rfl⟩
                    obtain rfl := FindRet.ok.inj hg
                    refine ⟨hfresh.2, ?_⟩
                    simp [hlive', Finset.erase_insert_of_ne hfresh.1, Finset.erase_insert hdirents]

/-- A search: what it frees is live, it keeps the data of its handle, and it
    finds what is found without a heap. -/
theorem fatFsFindHeap_spec (fs : FsHand) (fuel : Nat) (s : FatSearch ι) (h : HeapLog β)
    (dir : Option (FileHandle β)) (name : List UInt8) :
    let out := fatFsFindHeap A S fs fuel s h dir name
    (FreesLive init h → FreesLive init out.2.2) ∧ FindKeeps init FileHandle.data h out.1 out.2.2 ∧
      (out.1 ≠ .panic → fatFsFind S fs fuel s (dir.map FileHandle.file) name
        = (out.1.map FileHandle.file, out.2.1)) := by
  rw [fatFsFindHeap, fatFsFind]
  dsimp only
  split
  · cases hpop : fatPopFileHeap A ((dir.map FileHandle.file).getD fs.rootdir) h with
    | none => exact ⟨id, ⟨fun hr => absurd hr (by simp), fun f hr => absurd hr (by simp)⟩,
        fun hr => absurd rfl hr⟩
    | some res =>
        obtain ⟨f, h'⟩ := res
        obtain ⟨hfile, hfresh, rfl⟩ := fatPopFileHeap_some hpop
        refine ⟨id, ⟨fun hr => absurd hr (by simp), fun g hg => ?_⟩, fun _ => ?_⟩
        · obtain rfl := FindRet.ok.inj hg
          exact ⟨hfresh, rfl⟩
        · rw [← hfile]
          rfl
  · cases halloc : A.alloc h fs.fdata.clusterSize with
    | none => exact ⟨id, ⟨fun hr => absurd hr (by simp), fun f hr => absurd hr (by simp)⟩,
        fun hr => absurd rfl hr⟩
    | some res =>
        obtain ⟨dirents, h'⟩ := res
        obtain ⟨hfresh, rfl⟩ := Allocator.alloc_some halloc
        obtain ⟨hfrees, hfail, hok, hforget⟩ := fatFsFindLoopHeap_spec A S fs.fdata
          ((dir.map FileHandle.file).getD fs.rootdir) name hfresh fuel s (liveBlocks_alloc dirents) 0
        exact ⟨hfrees, ⟨hfail, hok⟩, hforget⟩

end Driver

section Findfile

variable {σ φ : Type*} {data : φ → β}
  {find : σ → HeapLog β → Option φ → List UInt8 → FindRet φ × σ × HeapLog β} {isDir : φ → Bool}
  {dir : Option φ} {copy : β} {live : Finset β}

/-- The handle of a directory closed: its data is freed. -/
def closeData (data : φ → β) (f : φ) (h : HeapLog β) : HeapLog β := .free (data f) :: h

/-- What is live inside the loop: the copy of the path, and the data of
    `tdir1`. -/
def LoopLive (init : Finset β) (data : φ → β) (live : Finset β) (copy : β) (tdir1 : Option φ)
    (h : HeapLog β) : Prop :=
  copy ∉ live ∧
    match tdir1 with
    | some tdir => data tdir ∉ insert copy live ∧
        liveBlocks init h = insert (data tdir) (insert copy live)
    | none => liveBlocks init h = insert copy live

/-- Behind the handle's close, the copy of the path is live. -/
theorem closeTdir_live {tdir1 : Option φ} {h : HeapLog β}
    (hlive : LoopLive init data live copy tdir1 h) :
    liveBlocks init (closeTdir (closeData data) tdir1 h) = insert copy live ∧
      (FreesLive init h → FreesLive init (closeTdir (closeData data) tdir1 h)) := by
  obtain ⟨-, hlive⟩ := hlive
  cases tdir1 with
  | none => exact ⟨hlive, id⟩
  | some tdir =>
      obtain ⟨hfresh, hlive⟩ := hlive
      refine ⟨?_, fun hh => ⟨by simp [hlive], hh⟩⟩
      show (liveBlocks init h).erase (data tdir) = _
      rw [hlive, Finset.erase_insert hfresh]

/-- So it is behind a search that has found something. -/
theorem closeTdir_found {tdir1 : Option φ} {h h' : HeapLog β} {b : β}
    (hlive : LoopLive init data live copy tdir1 h) (hb : b ∉ liveBlocks init h)
    (hh' : liveBlocks init h' = insert b (liveBlocks init h)) :
    b ∉ insert copy live ∧
      liveBlocks init (closeTdir (closeData data) tdir1 h') = insert b (insert copy live) ∧
      (FreesLive init h' → FreesLive init (closeTdir (closeData data) tdir1 h')) := by
  obtain ⟨-, hlive⟩ := hlive
  cases tdir1 with
  | none =>
      rw [show liveBlocks init h = insert copy live from hlive] at hb hh'
      exact ⟨hb, hh', id⟩
  | some tdir =>
      obtain ⟨hfresh, hlive⟩ := hlive
      rw [hlive] at hb hh'
      rw [Finset.mem_insert, not_or] at hb
      refine ⟨hb.2, ?_, fun hh => ⟨by simp [hh'], hh⟩⟩
      show (liveBlocks init h').erase (data tdir) = _
      rw [hh', Finset.erase_insert_of_ne hb.1, Finset.erase_insert hfresh]

theorem LoopLive.copy_mem {tdir1 : Option φ} {h : HeapLog β}
    (hlive : LoopLive init data live copy tdir1 h) : copy ∈ liveBlocks init h := by
  obtain ⟨-, hlive⟩ := hlive
  cases tdir1 with
  | none => simp [show liveBlocks init h = insert copy live from hlive]
  | some tdir => simp [hlive.2]

/-- A handle in use has data that is not freed with the copy. -/
theorem LoopLive.leak {tdir1 : Option φ} {h : HeapLog β}
    (hlive : LoopLive init data live copy tdir1 h) (hsome : tdir1.isSome) :
    (liveBlocks init h).erase copy ≠ live := by
  obtain ⟨-, hlive⟩ := hlive
  obtain ⟨tdir, rfl⟩ := Option.isSome_iff_exists.mp hsome
  obtain ⟨hfresh, hlive⟩ := hlive
  rw [Finset.mem_insert, not_or] at hfresh
  intro heq
  apply hfresh.2
  rw [← heq, hlive]
  simp [hfresh.1]

/-- A search that has found nothing: the copy is freed, and nothing else. -/
theorem free_copy {tdir1 : Option φ} {h h' : HeapLog β}
    (hlive : LoopLive init data live copy tdir1 h) (hl : liveBlocks init h' = liveBlocks init h) :
    copy ∈ liveBlocks init h' ∧
      (tdir1.isSome → liveBlocks init (.free copy :: h') ≠ live) := by
  rw [liveBlocks_free, hl]
  exact ⟨hlive.copy_mem, hlive.leak⟩

/-- The loop frees live blocks only.  If it ends in success the copy of the
    path is still live, and if it fails behind a component that was found the
    data of that handle is. -/
theorem fsFindfileHeapLoop_spec (isDir : φ → Bool) (dir : Option φ)
    (hfind : ∀ s h dir name,
      (FreesLive init h → FreesLive init (find s h dir name).2.2) ∧
        FindKeeps init data h (find s h dir name).1 (find s h dir name).2.2)
    (file : φ) (comps : List (List UInt8)) (s : σ) (h : HeapLog β) (tdir1 : Option φ)
    (hlive : LoopLive init data live copy tdir1 h) :
    let out := fsFindfileHeapLoop find isDir (closeData data) copy dir file s h tdir1 comps
    (FreesLive init h → FreesLive init out.2.2) ∧
      (∀ f, out.1 = .ok f → data file ≠ copy → data f ≠ copy ∧ copy ∈ liveBlocks init out.2.2) ∧
      (out.1 = .fail → tdir1.isSome ∨ (find s h (tdir1 <|> dir) (comps.headD [])).1 ≠ .fail →
        liveBlocks init out.2.2 ≠ live) := by
  induction comps generalizing s h tdir1 with
  | nil =>
      obtain ⟨hl, hf⟩ := closeTdir_live hlive
      refine ⟨hf, fun f hr hne => ?_, fun hr => absurd hr (by simp [fsFindfileHeapLoop])⟩
      obtain rfl := FindRet.ok.inj hr
      exact ⟨hne, by simp [fsFindfileHeapLoop, hl]⟩
  | cons cpath rest ih =>
      obtain ⟨hfrees, hfail, hok⟩ := hfind s h (tdir1 <|> dir) cpath
      rw [List.headD_cons]
      cases rest with
      | nil =>
          rw [fsFindfileHeapLoop]
          split
          · -- nothing behind the last separator
            obtain ⟨hl, hf⟩ := closeTdir_live hlive
            refine ⟨hf, fun f hr hne => ?_, fun hr => absurd hr (by simp)⟩
            obtain rfl := FindRet.ok.inj hr
            exact ⟨hne, by simp [hl]⟩
          · generalize find s h (tdir1 <|> dir) cpath = r at hfrees hfail hok
            obtain ⟨r, s', h'⟩ := r
            cases r with
            | panic => exact ⟨hfrees, fun f hr => absurd hr (by simp), fun hr => absurd hr (by simp)⟩
            | stuck => exact ⟨hfrees, fun f hr => absurd hr (by simp), fun hr => absurd hr (by simp)⟩
            | fail =>
                obtain ⟨hmem, hleak⟩ := free_copy hlive (hfail rfl)
                exact ⟨fun hh => ⟨hmem, hfrees hh⟩, fun f hr => absurd hr (by simp),
                  fun _ hor => hleak (hor.resolve_right fun hne => hne rfl)⟩
            | ok f =>
                obtain ⟨hfresh, hl⟩ := hok f rfl
                obtain ⟨hnew, hl', hf⟩ := closeTdir_found hlive hfresh hl
                refine ⟨fun hh => hf (hfrees hh), fun g hg _ => ?_, fun hr => absurd hr (by simp)⟩
                obtain rfl := FindRet.ok.inj hg
                rw [Finset.mem_insert, not_or] at hnew
                exact ⟨hnew.1, by simp [hl']⟩
      | cons next rest =>
          rw [fsFindfileHeapLoop_on]
          generalize find s h (tdir1 <|> dir) cpath = r at hfrees hfail hok
          obtain ⟨r, s', h'⟩ := r
          cases r with
          | panic => exact ⟨hfrees, fun f hr => absurd hr (by simp), fun hr => absurd hr (by simp)⟩
          | stuck => exact ⟨hfrees, fun f hr => absurd hr (by simp), fun hr => absurd hr (by simp)⟩
          | fail =>
              obtain ⟨hmem, hleak⟩ := free_copy hlive (hfail rfl)
              exact ⟨fun hh => ⟨hmem, hfrees hh⟩, fun f hr => absurd hr (by simp),
                fun _ hor => hleak (hor.resolve_right fun hne => hne rfl)⟩
          | ok tdir2 =>
              obtain ⟨hfresh, hl⟩ := hok tdir2 rfl
              obtain ⟨hnew, hl', hf⟩ := closeTdir_found hlive hfresh hl
              dsimp only
              split
              · obtain ⟨hf', hrest, hleak⟩ := ih s' (closeTdir (closeData data) tdir1 h')
                  (some tdir2) ⟨hlive.1, hnew, hl'⟩
                exact ⟨fun hh => hf' (hf (hfrees hh)), hrest, fun hr _ => hleak hr (Or.inl rfl)⟩
              · -- not a directory: the handle just found is not closed
                refine ⟨fun hh => ⟨?_, hfrees hh⟩, fun f hr => absurd hr (by simp), fun _ _ heq => ?_⟩
                · rw [hl]
                  exact Finset.mem_insert_of_mem hlive.copy_mem
                · rw [Finset.mem_insert, not_or] at hnew
                  apply hnew.2
                  rw [← heq]
                  show data tdir2 ∈ (liveBlocks init h').erase copy
                  rw [hl]
                  simp [hnew.1]

end Findfile

/-- A call has returned. -/
def Returns {φ : Type*} (r : FindRet φ) : Prop := r ≠ .panic ∧ r ≠ .stuck

/-- The first component of a path. -/
def firstComponent (dir : Option (FileHandle β)) (path : List UInt8) : List UInt8 :=
  ((searchStart dir path).2.splitOn fsPathsep).headD []

omit [DecidableEq β] in
/-- A first component that is not found ends the loop: the copy of the path is
    freed, unless the search did not return. -/
theorem fsFindfileHeapLoop_first {σ φ : Type*}
    {find : σ → HeapLog β → Option φ → List UInt8 → FindRet φ × σ × HeapLog β} (isDir : φ → Bool)
    (close : φ → HeapLog β → HeapLog β) (copy : β) {dir : Option φ} (file : φ) {s : σ} {h : HeapLog β}
    {comps : List (List UInt8)} (hne : comps ≠ [] ∧ comps ≠ [[]])
    (hfirst : ∀ f, (find s h dir (comps.headD [])).1 ≠ .ok f) :
    let out := fsFindfileHeapLoop find isDir close copy dir file s h none comps
    out.1 = (find s h dir (comps.headD [])).1 ∧
      (out.1 = .fail → out.2.2 = .free copy :: (find s h dir (comps.headD [])).2.2) := by
  cases comps with
  | nil => exact absurd rfl hne.1
  | cons cpath rest =>
      rw [List.headD_cons] at hfirst ⊢
      have hdir : ((none : Option φ) <|> dir) = dir := rfl
      cases rest with
      | nil =>
          have hcpath : cpath ≠ [] := fun h => hne.2 (by rw [h])
          rw [fsFindfileHeapLoop, if_neg hcpath, hdir]
          generalize find s h dir cpath = r at hfirst
          obtain ⟨r, s', h'⟩ := r
          cases r with
          | ok f => exact absurd rfl (hfirst f)
          | fail => exact ⟨rfl, fun _ => rfl⟩
          | panic => exact ⟨rfl, fun hr => absurd hr (by simp)⟩
          | stuck => exact ⟨rfl, fun hr => absurd hr (by simp)⟩
      | cons next rest =>
          rw [fsFindfileHeapLoop_on, hdir]
          generalize find s h dir cpath = r at hfirst
          obtain ⟨r, s', h'⟩ := r
          cases r with
          | ok f => exact absurd rfl (hfirst f)
          | fail => exact ⟨rfl, fun _ => rfl⟩
          | panic => exact ⟨rfl, fun hr => absurd hr (by simp)⟩
          | stuck => exact ⟨rfl, fun hr => absurd hr (by simp)⟩

omit [DecidableEq β] in
/-- If the loop returns, the first search has. -/
theorem returns_first {σ φ : Type*}
    {find : σ → HeapLog β → Option φ → List UInt8 → FindRet φ × σ × HeapLog β} {isDir : φ → Bool}
    {close : φ → HeapLog β → HeapLog β} {copy : β} {dir : Option φ} {file : φ} {s : σ} {h : HeapLog β}
    {comps : List (List UInt8)} (hne : comps ≠ [] ∧ comps ≠ [[]])
    (hret : Returns (fsFindfileHeapLoop find isDir close copy dir file s h none comps).1) :
    Returns (find s h dir (comps.headD [])).1 := by
  have hfirst := @fsFindfileHeapLoop_first _ _ _ find isDir close copy dir file s h comps hne
  constructor
  · intro hr
    rw [hr] at hfirst
    exact hret.1 (hfirst (by simp)).1
  · intro hr
    rw [hr] at hfirst
    exact hret.2 (hfirst (by simp)).1

/-- A loop that returns gives back all but the data of its handle exactly if
    its first component is not found. -/
theorem fsFindfileHeapLoop_balanced_iff {σ φ : Type*} [Nonempty φ] {data : φ → β}
    {find : σ → HeapLog β → Option φ → List UInt8 → FindRet φ × σ × HeapLog β} (isDir : φ → Bool)
    (dir : Option φ) (hfind : ∀ s h dir name,
      (FreesLive init h → FreesLive init (find s h dir name).2.2) ∧
        FindKeeps init data h (find s h dir name).1 (find s h dir name).2.2)
    {copy : β} {s : σ} {h : HeapLog β} (hfresh : copy ∉ liveBlocks init h)
    {comps : List (List UInt8)} (hne : comps ≠ [] ∧ comps ≠ [[]])
    (hret : ∀ file, Returns (fsFindfileHeapLoop find isDir (closeData data) copy dir file s
      (.alloc copy :: h) none comps).1) :
    (∀ file, FindKeeps init data h
        (fsFindfileHeapLoop find isDir (closeData data) copy dir file s (.alloc copy :: h) none comps).1
        (fsFindfileHeapLoop find isDir (closeData data) copy dir file s (.alloc copy :: h) none
          comps).2.2) ↔
      (find s (.alloc copy :: h) dir (comps.headD [])).1 = .fail := by
  obtain ⟨any⟩ := ‹Nonempty φ›
  have hkeeps := (hfind s (.alloc copy :: h) dir (comps.headD [])).2
  have hfound := returns_first hne (hret any)
  cases hr : (find s (.alloc copy :: h) dir (comps.headD [])).1 with
  | panic => exact absurd hr hfound.1
  | stuck => exact absurd hr hfound.2
  | fail =>
      have hfirst := fun file => @fsFindfileHeapLoop_first _ _ _ find isDir (closeData data) copy dir
        file s (.alloc copy :: h) comps hne
      rw [hr] at hfirst
      refine iff_of_true (fun file => ?_) rfl
      obtain ⟨hfail, hl⟩ := hfirst file (by simp)
      refine ⟨fun _ => ?_, fun f hf => absurd (hfail.symm.trans hf) (by simp)⟩
      rw [hl hfail, liveBlocks_free, hkeeps.fail hr, liveBlocks_alloc, Finset.erase_insert hfresh]
  | ok f =>
      refine iff_of_false (fun hall => ?_) (by simp)
      -- the handle just found does not point to the copy
      have hdata : data f ≠ copy := by
        intro heq
        apply (hkeeps.ok f hr).1
        simp [heq]
      obtain ⟨-, hok, hleak⟩ := fsFindfileHeapLoop_spec isDir dir hfind f comps s (.alloc copy :: h)
        none ⟨hfresh, rfl⟩
      have hbal := hall f
      have hreturns := hret f
      generalize fsFindfileHeapLoop find isDir (closeData data) copy dir f s (.alloc copy :: h) none
        comps = out at hok hleak hbal hreturns
      obtain ⟨r, s', h'⟩ := out
      cases r with
      | panic => exact hreturns.1 rfl
      | stuck => exact hreturns.2 rfl
      | fail =>
          refine hleak rfl (Or.inr ?_) (hbal.fail rfl)
          show (find s (.alloc copy :: h) dir (comps.headD [])).1 ≠ .fail
          rw [hr]
          simp
      | ok g =>
          obtain ⟨hg, hcopy⟩ := hok g rfl hdata
          rw [(hbal.ok g rfl).2, Finset.mem_insert] at hcopy
          rcases hcopy with heq | hmem
          · exact hg heq.symm
          · exact hfresh hmem

/-- For every volume, directory, path and storage device: no block is freed
    that is not live.  If `fs_findfile` returns, the blocks live behind it are
    those from before, and the data of the handle if it returns 0, exactly if
    the path is empty or its first component is not found. -/
theorem fatFindfileHeap_balanced_iff [Nonempty β] (A : Allocator init) (S : StorageHand ι) (fs : FsHand)
    (fuel : Nat) (s : FatSearch ι) (h : HeapLog β) (hclean : FreesLive init h)
    (dir : Option (FileHandle β)) (path : List UInt8) :
    (∀ file, FreesLive init (fatFindfileHeap A S fs fuel s h dir file path).2.2) ∧
      ((∀ file, Returns (fatFindfileHeap A S fs fuel s h dir file path).1) →
        ((∀ file, FindKeeps init FileHandle.data h (fatFindfileHeap A S fs fuel s h dir file path).1
            (fatFindfileHeap A S fs fuel s h dir file path).2.2) ↔
          (searchStart dir path).2 = [] ∨
            (fatFsFind S fs fuel s ((searchStart dir path).1.map FileHandle.file)
              (firstComponent dir path)).1 = .fail)) := by
  have hfind := fun s h dir name =>
    let spec := fatFsFindHeap_spec A S fs fuel s h dir name
    (⟨spec.1, spec.2.1⟩ : _ ∧ _)
  have hclose : (fatFileClose : FileHandle β → HeapLog β → HeapLog β) = closeData FileHandle.data :=
    rfl
  simp only [fatFindfileHeap, fsFindfileHeap, firstComponent, hclose]
  generalize searchStart dir path = start
  obtain ⟨dir, path⟩ := start
  dsimp only
  split
  · next hnil =>
      refine ⟨fun _ => hclean, fun _ => iff_of_true (fun _ => ?_) (Or.inl hnil)⟩
      exact ⟨fun _ => rfl, fun f hr => absurd hr (by simp)⟩
  next hpath =>
  cases halloc : A.alloc h (path.length + 1) with
  | none =>
      refine ⟨fun _ => hclean, fun hret => ?_⟩
      obtain ⟨b⟩ := ‹Nonempty β›
      exact absurd rfl (hret ⟨fs.rootdir, b⟩).1
  | some res =>
      obtain ⟨copy, h'⟩ := res
      obtain ⟨hfresh, rfl⟩ := Allocator.alloc_some halloc
      dsimp only
      have hspec := fun file => fsFindfileHeapLoop_spec (fun f => f.file.directory) dir
        hfind file (path.splitOn fsPathsep) s (.alloc copy :: h) none ⟨hfresh, rfl⟩
      refine ⟨fun file => (hspec file).1 hclean, fun hret => ?_⟩
      have hcomps : path.splitOn fsPathsep ≠ [] ∧ path.splitOn fsPathsep ≠ [[]] := by
        refine ⟨List.splitOn_ne_nil _ _, fun hone => hpath ?_⟩
        have hjoin : [fsPathsep].intercalate (path.splitOn fsPathsep) = path :=
          List.intercalate_splitOn fsPathsep
        rw [hone] at hjoin
        exact hjoin.symm
      obtain ⟨b⟩ := ‹Nonempty β›
      have hany : Nonempty (FileHandle β) := ⟨⟨fs.rootdir, b⟩⟩
      rw [fsFindfileHeapLoop_balanced_iff (fun f => f.file.directory) dir hfind hfresh hcomps hret,
        or_iff_right hpath]
      -- the first search has returned, so it finds what is found without a heap
      obtain ⟨-, -, hforget⟩ := fatFsFindHeap_spec A S fs fuel s (.alloc copy :: h) dir
        ((path.splitOn fsPathsep).headD [])
      rw [hforget (returns_first hcomps (hret ⟨fs.rootdir, b⟩)).1, FindRet.map_eq_fail]

namespace TinyVolume

/-- A root directory of one entry, the file `A`, in clusters of 32 bytes. -/
def vol (x : Int) : UInt8 :=
  if x = 64 then 0x41 else if 64 < x ∧ x < 75 then 0x20 else 0

def storage : StorageHand Unit := ⟨fun d off n => ((loadAt vol off n, n), d)⟩

def fs : FsHand where
  fsOffset := 0
  fsSize := 128
  fdata := { sectorSize := 32, clusterSize := 32, fatOffset := 32, dataOffset := 96, rootdirFirst := 64 }
  fatSize := 32
  rootdir := { directory := true, size := 0, firstCluster := 64 }

def search : FatSearch Unit := ⟨⟨(), ⟨fun _ => -1, fun i => i, fun _ => 0⟩, fun _ => 0⟩, fun _ => 0⟩

/-- Blocks with numbers, each above all live ones. -/
def numbered : Allocator (∅ : Finset Nat) where
  pick h n := if n = 0 then none else some ((liveBlocks ∅ h).sup id + 1)
  fresh h n b hpick hb := by
    have hle : b ≤ (liveBlocks ∅ h).sup id := Finset.le_sup (f := id) hb
    split at hpick
    · exact absurd hpick (by simp)
    · rw [← Option.some.inj hpick] at hle
      omega

/-- The file `B` is not found, and nothing is kept. -/
theorem findfile_missing :
    FindKeeps ∅ FileHandle.data []
      (fatFindfileHeap numbered storage fs 3 search [] none ⟨fs.rootdir, 0⟩ [0x42]).1
      (fatFindfileHeap numbered storage fs 3 search [] none ⟨fs.rootdir, 0⟩ [0x42]).2.2 := by
  refine ((fatFindfileHeap_balanced_iff numbered storage fs 3 search [] trivial none [0x42]).2
    fun file => ?_).mpr (Or.inr ?_) ⟨fs.rootdir, 0⟩
  · have hfail : (fatFindfileHeap numbered storage fs 3 search [] none file [0x42]).1 = .fail := rfl
    rw [hfail]
    exact ⟨by simp, by simp⟩
  · decide +kernel

/-- The unconditional statement fails: the file `A` is found, and the copy of
    its path is live behind the call. -/
theorem findfile_leaks :
    (∃ file, (fatFindfileHeap numbered storage fs 3 search [] none ⟨fs.rootdir, 0⟩ [0x41]).1
      = .ok file ∧ file.data = 3) ∧
    liveBlocks ∅ (fatFindfileHeap numbered storage fs 3 search [] none ⟨fs.rootdir, 0⟩ [0x41]).2.2
      = {1, 3} := by
  refine ⟨⟨⟨⟨false, 0, 32⟩, 3⟩, by decide +kernel, rfl⟩, by decide +kernel⟩

end TinyVolume

end LBoot.Storage
