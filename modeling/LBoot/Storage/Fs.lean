/-
  LBoot.Storage.Fs

  `fs_findfile` (src/storage/fs/fs.c), for any driver's `find`.

  The driver is a parameter: its handles are of a type of their own, and
  `find` changes a state.  The handles of directories passed on the way are
  local to the call; closing them has no effect that can be seen here.
-/

import Mathlib.Data.List.Basic

namespace LBoot.Storage

/-- `FS_PATHSEP`. -/
def fsPathsep : UInt8 := 0x2f

/-- How a function that returns 0 or an error ends, if it does. -/
inductive FindRet (α : Type*) where
  | panic
  /-- not within the iterations allowed -/
  | stuck
  | fail
  | ok (a : α)
  deriving DecidableEq, Repr

section Findfile

variable {σ φ : Type*}

/-- The loop of `fs_findfile`, over the components between the separators;
    the last one has no separator behind it.  `file` is what the caller's
    handle holds. -/
def fsFindfileLoop (find : σ → Option φ → List UInt8 → FindRet φ × σ) (isDir : φ → Bool) :
    σ → Option φ → φ → List (List UInt8) → FindRet φ × σ
  | s, _, file, [] => (.ok file, s)
  | s, dir, file, [cpath] =>
      -- behind a separator at the end there is nothing left to find
      if cpath = [] then (.ok file, s) else find s dir cpath
  | s, dir, file, cpath :: rest =>
      match find s dir cpath with
      | (.ok tdir, s) =>
          if isDir tdir then fsFindfileLoop find isDir s (some tdir) file rest else (.fail, s)
      | (r, s) => (r, s)

/-- `fs_findfile`: what the caller's handle holds behind the call, if it
    returns 0. -/
def fsFindfile (find : σ → Option φ → List UInt8 → FindRet φ × σ) (isDir : φ → Bool) (s : σ)
    (dir : Option φ) (file : φ) (path : List UInt8) : FindRet φ × σ :=
  let (dir, path) := match path with
    | c :: rest => if c = fsPathsep then (none, rest) else (dir, path)
    | [] => (dir, path)
  if path = [] then (.fail, s)
  else fsFindfileLoop find isDir s dir file (path.splitOn fsPathsep)

/-- A component with others behind it is looked up, and is to be a
    directory. -/
theorem fsFindfileLoop_on (find : σ → Option φ → List UInt8 → FindRet φ × σ) (isDir : φ → Bool)
    (s : σ) (dir : Option φ) (file : φ) (cpath next : List UInt8) (rest : List (List UInt8)) :
    fsFindfileLoop find isDir s dir file (cpath :: next :: rest) =
      match find s dir cpath with
      | (.ok tdir, s) =>
          if isDir tdir then fsFindfileLoop find isDir s (some tdir) file (next :: rest)
          else (.fail, s)
      | (r, s) => (r, s) := rfl

end Findfile

/-! ## Two drivers -/

section Simulate

variable {σ τ φ : Type*} {find : σ → Option φ → List UInt8 → FindRet φ × σ}
  {find' : τ → Option φ → List UInt8 → FindRet φ × τ} {g : σ → τ}

theorem fsFindfileLoop_sim (h : ∀ s dir name, find' (g s) dir name =
    ((find s dir name).1, g (find s dir name).2)) (isDir : φ → Bool) (file : φ)
    (comps : List (List UInt8)) (s : σ) (dir : Option φ) :
    fsFindfileLoop find' isDir (g s) dir file comps =
      ((fsFindfileLoop find isDir s dir file comps).1,
        g (fsFindfileLoop find isDir s dir file comps).2) := by
  induction comps generalizing s dir with
  | nil => rfl
  | cons cpath rest ih =>
      -- the last component may be a file, those before it are directories
      cases rest with
      | nil =>
          rw [fsFindfileLoop, fsFindfileLoop]
          split
          · rfl
          · exact h s dir cpath
      | cons next rest =>
          rw [fsFindfileLoop_on, fsFindfileLoop_on, h]
          generalize find s dir cpath = r
          obtain ⟨r, t⟩ := r
          cases r with
          | ok tdir =>
              dsimp only
              split
              · exact ih t (some tdir)
              · rfl
          | panic => rfl
          | stuck => rfl
          | fail => rfl

/-- Two drivers whose `find` does the same in corresponding states find the
    same files. -/
theorem fsFindfile_sim (h : ∀ s dir name, find' (g s) dir name =
    ((find s dir name).1, g (find s dir name).2)) (isDir : φ → Bool) (s : σ) (dir : Option φ)
    (file : φ) (path : List UInt8) :
    fsFindfile find' isDir (g s) dir file path =
      ((fsFindfile find isDir s dir file path).1, g (fsFindfile find isDir s dir file path).2) := by
  unfold fsFindfile
  generalize (match path with
    | c :: rest => if c = fsPathsep then (none, rest) else (dir, path)
    | [] => (dir, path)) = r
  obtain ⟨dir, path⟩ := r
  dsimp only
  split
  · rfl
  · exact fsFindfileLoop_sim h isDir file _ s dir

end Simulate

end LBoot.Storage
