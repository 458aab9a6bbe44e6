/-
  LBoot.Storage.FsResolve

  What a path stands for, and what `fs_findfile` (src/storage/fs/fs.c) makes
  of it.

  A path is resolved component by component: those before the last are to be
  directories, and each is looked up in the one before it.  `fs_findfile`
  leaves its loop at the end of the string.  Behind a separator at the end of
  the path that is before the last component, the empty one, is looked up; so
  it returns 0 with the caller's handle as it was, and that is the only way it
  departs from the resolution (`fsFindfile_resolve_iff`).
-/

import LBoot.Storage.Fs

namespace LBoot.Storage

/-- Found, or not. -/
def FindRet.ofOption {α : Type*} : Option α → FindRet α
  | some a => .ok a
  | none => .fail

section Resolve

variable {σ φ : Type*}

/-- What a driver finds depends on the directory and the name only, in the
    states it is in. -/
structure FindsBy (Inv : σ → Prop) (find : σ → Option φ → List UInt8 → FindRet φ × σ)
    (f : Option φ → List UInt8 → Option φ) : Prop where
  result : ∀ s dir name, Inv s → (find s dir name).1 = .ofOption (f dir name)
  keeps : ∀ s dir name, Inv s → Inv (find s dir name).2

/-- One directory further. -/
def enterDir (f : Option φ → List UInt8 → Option φ) (isDir : φ → Bool) (dir : Option φ)
    (name : List UInt8) : Option (Option φ) := ((f dir name).filter isDir).map some

/-- The directory at the end of a list of components. -/
def resolveDirs (f : Option φ → List UInt8 → Option φ) (isDir : φ → Bool) (dir : Option φ)
    (comps : List (List UInt8)) : Option (Option φ) := comps.foldlM (enterDir f isDir) dir

/-- Where a search starts, and the path from there: the root if it starts with
    a separator. -/
def searchStart (dir : Option φ) : List UInt8 → Option φ × List UInt8
  | [] => (dir, [])
  | c :: path => if c = fsPathsep then (none, path) else (dir, c :: path)

/-- The components of a path, in the directory it starts in. -/
def resolveComps (f : Option φ → List UInt8 → Option φ) (isDir : φ → Bool) (dir : Option φ)
    (comps : List (List UInt8)) : Option φ :=
  (resolveDirs f isDir dir comps.dropLast).bind fun dir => f dir (comps.getLastD [])

/-- The file a path stands for. -/
def resolve (f : Option φ → List UInt8 → Option φ) (isDir : φ → Bool) (dir : Option φ)
    (path : List UInt8) : Option φ :=
  resolveComps f isDir (searchStart dir path).1 ((searchStart dir path).2.splitOn fsPathsep)

/-- A path that goes on behind a directory with a separator only. -/
def EndsBehindDir (f : Option φ → List UInt8 → Option φ) (isDir : φ → Bool) (dir : Option φ)
    (path : List UInt8) : Prop :=
  (searchStart dir path).2 ≠ [] ∧
    ((searchStart dir path).2.splitOn fsPathsep).getLastD [] = [] ∧
    (resolveDirs f isDir (searchStart dir path).1
      ((searchStart dir path).2.splitOn fsPathsep).dropLast).isSome

variable {Inv : σ → Prop} {find : σ → Option φ → List UInt8 → FindRet φ × σ}
  {f : Option φ → List UInt8 → Option φ} {isDir : φ → Bool}

theorem resolveDirs_cons (dir : Option φ) (name : List UInt8) (comps : List (List UInt8)) :
    resolveDirs f isDir dir (name :: comps)
      = (enterDir f isDir dir name).bind fun dir => resolveDirs f isDir dir comps :=
  List.foldlM_cons

theorem enterDir_of_some {dir : Option φ} {name : List UInt8} {a : φ} (h : f dir name = some a) :
    enterDir f isDir dir name = if isDir a then some (some a) else none := by
  rw [enterDir, h, Option.filter_some]
  split <;> rfl

theorem enterDir_of_none {dir : Option φ} {name : List UInt8} (h : f dir name = none) :
    enterDir f isDir dir name = none := by
  rw [enterDir, h]
  rfl

/-- What the loop comes to: with nothing behind the last separator, the handle
    as it was. -/
theorem fsFindfileLoop_resolve (hfind : FindsBy Inv find f) {comps : List (List UInt8)}
    (hne : comps ≠ []) {s : σ} (hs : Inv s) (dir : Option φ) (file : φ) :
    (fsFindfileLoop find isDir s dir file comps).1
      = if comps.getLastD [] = [] then
          .ofOption ((resolveDirs f isDir dir comps.dropLast).map fun _ => file)
        else .ofOption (resolveComps f isDir dir comps) := by
  induction comps generalizing s dir with
  | nil => exact absurd rfl hne
  | cons cpath rest ih =>
      cases rest with
      | nil =>
          rw [fsFindfileLoop]
          show (if cpath = [] then _ else _ : FindRet φ × σ).1 = if cpath = [] then _ else _
          split
          · rfl
          · exact hfind.result s dir cpath hs
      | cons next rest =>
          have hres := hfind.result s dir cpath hs
          have hkeep := hfind.keeps s dir cpath hs
          have hlast : (cpath :: next :: rest).getLastD [] = (next :: rest).getLastD [] := by
            simp [List.getLastD_eq_getLast?]
          rw [fsFindfileLoop_on, hlast, resolveComps, List.dropLast_cons_cons, resolveDirs_cons, hlast]
          generalize find s dir cpath = r at hres hkeep
          obtain ⟨r, t⟩ := r
          obtain rfl : r = _ := hres
          cases hf : f dir cpath with
          | none =>
              rw [enterDir_of_none hf]
              show FindRet.fail = _
              simp [FindRet.ofOption]
          | some a =>
              rw [enterDir_of_some hf]
              show (if isDir a then _ else _ : FindRet φ × σ).1 = _
              split
              · exact ih (List.cons_ne_nil _ _) hkeep (some a)
              · show FindRet.fail = _
                simp [FindRet.ofOption]

/-- `fs_findfile` from where its search starts. -/
theorem fsFindfile_eq (find : σ → Option φ → List UInt8 → FindRet φ × σ) (isDir : φ → Bool) (s : σ)
    (dir : Option φ) (file : φ) (path : List UInt8) :
    fsFindfile find isDir s dir file path
      = if (searchStart dir path).2 = [] then (.fail, s)
        else fsFindfileLoop find isDir s (searchStart dir path).1 file
          ((searchStart dir path).2.splitOn fsPathsep) := by
  cases path with
  | nil => rfl
  | cons c path => rfl

/-- For every driver that finds nothing for an empty name, every directory to
    start in, every handle and every path: `fs_findfile` does as the path is
    resolved exactly if it does not end behind a directory, in a separator. -/
theorem fsFindfile_resolve_iff (hfind : FindsBy Inv find f) (hempty : ∀ dir, f dir [] = none) (s : σ)
    (hs : Inv s) (dir : Option φ) (file : φ) (path : List UInt8) :
    (fsFindfile find isDir s dir file path).1 = .ofOption (resolve f isDir dir path) ↔
      ¬ EndsBehindDir f isDir dir path := by
  rw [fsFindfile_eq, resolve, EndsBehindDir]
  generalize searchStart dir path = start
  obtain ⟨dir, path⟩ := start
  dsimp only
  split
  · next hnil =>
      -- there is one component, an empty one
      refine iff_of_true ?_ fun h => h.1 hnil
      rw [hnil]
      show FindRet.fail = .ofOption (f dir [])
      rw [hempty]
      rfl
  · next hpath =>
      have hne : path.splitOn fsPathsep ≠ [] := List.splitOn_ne_nil _ _
      rw [fsFindfileLoop_resolve hfind hne hs]
      split
      · next hlast =>
          have hnone : resolveComps f isDir dir (path.splitOn fsPathsep) = none := by
            rw [resolveComps, hlast]
            exact Option.bind_eq_none_iff.mpr fun d _ => hempty d
          rw [hnone]
          generalize resolveDirs f isDir dir _ = r
          cases r with
          | none => exact iff_of_true rfl fun h => Bool.false_ne_true h.2.2
          | some d =>
              refine iff_of_false (fun h => ?_) fun h => h ⟨hpath, hlast, rfl⟩
              have h : FindRet.ok file = FindRet.fail := h
              exact absurd h (by simp)
      · next hlast => exact iff_of_true rfl fun h => hlast h.2.1

end Resolve

/-- A root directory with a directory `d`, and a file `f` in that. -/
def treeFind (_ : Unit) (dir : Option Nat) (name : List UInt8) : FindRet Nat × Unit :=
  (if dir = none ∧ name = [0x64] then .ok 1 else if dir = some 1 ∧ name = [0x66] then .ok 2 else .fail,
    ())

/-- What it finds. -/
def treeFiles (dir : Option Nat) (name : List UInt8) : Option Nat :=
  if dir = none ∧ name = [0x64] then some 1 else if dir = some 1 ∧ name = [0x66] then some 2 else none

theorem treeFind_by : FindsBy (fun _ => True) treeFind treeFiles := by
  refine ⟨fun s dir name _ => ?_, fun _ _ _ _ => trivial⟩
  rw [treeFind, treeFiles]
  split
  · rfl
  · split <;> rfl

theorem treeFiles_empty (dir : Option Nat) : treeFiles dir [] = none := by
  simp [treeFiles]

/-- The path `/d/f`, looked up from anywhere. -/
theorem fsFindfile_resolve_iff_tree :
    (fsFindfile treeFind (· = 1) () (some 2) 0 [0x2f, 0x64, 0x2f, 0x66]).1 = .ok 2 :=
  (fsFindfile_resolve_iff treeFind_by treeFiles_empty () trivial (some 2) 0
    [0x2f, 0x64, 0x2f, 0x66]).mpr (fun h => absurd h.2.1 (by decide))

/-- The unconditional statement fails: `d/` is found, and the handle is as it
    was. -/
theorem fsFindfile_resolve_trailing :
    (fsFindfile treeFind (· = 1) () none 7 [0x64, 0x2f]).1 = .ok 7 ∧
      resolve treeFiles (· = 1) none [0x64, 0x2f] = none := by
  decide

end LBoot.Storage
