/-
  LBoot.Storage.FatName

  Comparing the names of directory entries with the name asked for.

  The eleven bytes of an entry are a base and an extension, each padded with
  blanks.  `_fat_strcmp` takes a dot for all the blanks at its place, of which
  there may be none, and does not look where in the entry it is.  So a request
  may have dots elsewhere, or none between a base of eight characters and the
  extension, and one that goes on behind the last byte is compared with the
  attributes (`Spells`).  These requests are the only ones it gets wrong
  (`fat_strcmp_exact_iff`).

  The comparison is run with a log of the indices it reads (`fatStrcmpLog`).
-/

import LBoot.Tools.FatFind

namespace LBoot.Storage

open LBoot.Lib

/-! ## Names -/

/-- A character of a name. -/
def NameChar (b : UInt8) : Prop := b ≠ 0x20 ∧ b ≠ 0x2e

/-- The name of a directory entry. -/
structure DirName where
  base : List UInt8
  ext : List UInt8
  base_length : 1 ≤ base.length ∧ base.length ≤ 8
  ext_length : ext.length ≤ 3
  base_char : ∀ b ∈ base, NameChar b
  ext_char : ∀ b ∈ ext, NameChar b

/-- A field padded with blanks. -/
def padded (w : Nat) (bs : List UInt8) : List UInt8 := bs ++ List.replicate (w - bs.length) 0x20

/-- Its bytes in the entry. -/
def DirName.bytes (n : DirName) : List UInt8 := padded 8 n.base ++ padded 3 n.ext

/-- The 8.3 form. -/
def DirName.form (n : DirName) : List UInt8 :=
  if n.ext = [] then n.base else n.base ++ 0x2e :: n.ext

theorem length_padded {w : Nat} {bs : List UInt8} (h : bs.length ≤ w) :
    (padded w bs).length = w := by
  rw [padded, List.length_append, List.length_replicate]
  omega

theorem DirName.length_bytes (n : DirName) : n.bytes.length = 11 := by
  rw [DirName.bytes, List.length_append, length_padded n.base_length.2, length_padded n.ext_length]

/-- What is left of a name, read with every dot of the request taken for all
    the blanks at its place, runs out or is blank at the end of the request. -/
def Spells : List UInt8 → List UInt8 → Prop
  | rest, [] => ∀ b ∈ rest, b = 0x20
  | rest, c :: request =>
      rest = [] ∨
        if c = 0x2e then Spells (rest.dropWhile (· == 0x20)) request
        else rest.head? = some c ∧ Spells rest.tail request

instance decidableSpells : ∀ rest request, Decidable (Spells rest request)
  | rest, [] => inferInstanceAs (Decidable (∀ b ∈ rest, b = 0x20))
  | rest, c :: request =>
      have := decidableSpells (rest.dropWhile (· == 0x20)) request
      have := decidableSpells rest.tail request
      inferInstanceAs (Decidable (_ ∨ if c = 0x2e then _ else _))

/-! ## The comparison with its reads -/

/-- `fatSkipBlanks` with the indices it reads. -/
def fatSkipBlanksLog (fatName : Nat → UInt8) : Nat → Nat → Option Nat × List Nat
  | 0, _ => (none, [])
  | fuel + 1, fidx =>
      if fatName fidx = 0x20 then
        let (r, log) := fatSkipBlanksLog fatName fuel (fidx + 1)
        (r, fidx :: log)
      else (some fidx, [fidx])

/-- `fatStrcmpFrom` with the indices it reads. -/
def fatStrcmpFromLog (fuel : Nat) (fatName : Nat → UInt8) :
    List UInt8 → Nat → Option Int × List Nat
  | [], fidx =>
      let behind := List.range' fidx (11 - fidx)
      (if behind.any fun k => fatName k ≠ 0x20 then some (-1) else some 0,
        -- the loop over the trailing characters leaves at the first that is not blank
        behind.take ((behind.takeWhile fun k => fatName k = 0x20).length + 1))
  | c :: filename, fidx =>
      if c = 0x2e then
        match fatSkipBlanksLog fatName fuel fidx with
        | (none, log) => (none, log)
        | (some fidx, log) =>
            let (r, log') := fatStrcmpFromLog fuel fatName filename fidx
            (r, log ++ log')
      else if fatName fidx ≠ c then (some (-1), [fidx])
      else
        let (r, log) := fatStrcmpFromLog fuel fatName filename (fidx + 1)
        (r, fidx :: log)

/-- `fatStrcmp` with the indices it reads. -/
def fatStrcmpLog (fuel : Nat) (fatName : Nat → UInt8) (filename : List UInt8) :
    Option Int × List Nat :=
  fatStrcmpFromLog fuel fatName filename 0

theorem fatSkipBlanksLog_fst (fatName : Nat → UInt8) (fuel fidx : Nat) :
    (fatSkipBlanksLog fatName fuel fidx).1 = fatSkipBlanks fatName fuel fidx := by
  induction fuel generalizing fidx with
  | zero => rfl
  | succ fuel ih =>
      rw [fatSkipBlanksLog, fatSkipBlanks]
      split
      · exact ih (fidx + 1)
      · rfl

/-- The log changes nothing. -/
theorem fatStrcmpFromLog_fst (fuel : Nat) (fatName : Nat → UInt8) (filename : List UInt8)
    (fidx : Nat) : (fatStrcmpFromLog fuel fatName filename fidx).1
      = fatStrcmpFrom fuel fatName filename fidx := by
  induction filename generalizing fidx with
  | nil => rfl
  | cons c filename ih =>
      rw [fatStrcmpFromLog, fatStrcmpFrom]
      split
      · rw [← fatSkipBlanksLog_fst]
        cases fatSkipBlanksLog fatName fuel fidx with
        | mk r log =>
            cases r with
            | none => rfl
            | some fidx => exact ih fidx
      · split
        · rfl
        · exact ih (fidx + 1)

/-! ## Where it goes -/

section Compare

variable {fuel : Nat} {fatName : Nat → UInt8}

/-- What is left of the eleven bytes from `fidx` on. -/
def nameRest (fatName : Nat → UInt8) (fidx : Nat) : List UInt8 :=
  (List.range' fidx (11 - fidx)).map fatName

theorem nameRest_cons {fidx : Nat} (h : fidx < 11) :
    nameRest fatName fidx = fatName fidx :: nameRest fatName (fidx + 1) := by
  obtain ⟨n, hn⟩ : ∃ n, 11 - fidx = n + 1 := ⟨10 - fidx, by omega⟩
  have hn' : 11 - (fidx + 1) = n := by omega
  rw [nameRest, nameRest, hn, hn', List.range'_succ, List.map_cons]

/-- Up to the next byte that is not blank. -/
theorem nameRest_dropWhile {fidx : Nat} (h : fidx ≤ 11) :
    ∃ j ≤ 11 - fidx, (nameRest fatName fidx).dropWhile (· == 0x20) = nameRest fatName (fidx + j) ∧
      (∀ i < j, fatName (fidx + i) = 0x20) ∧ (fidx + j < 11 → fatName (fidx + j) ≠ 0x20) := by
  induction hn : 11 - fidx generalizing fidx with
  | zero =>
      obtain rfl : fidx = 11 := by omega
      exact ⟨0, Nat.le_refl 0, rfl, fun i hi => absurd hi (Nat.not_lt_zero i),
        fun hlt => absurd hlt (Nat.lt_irrefl 11)⟩
  | succ n ih =>
      rw [nameRest_cons (by omega), List.dropWhile_cons]
      by_cases hb : fatName fidx = 0x20
      · obtain ⟨j, hj, hdrop, hblank, hend⟩ := @ih (fidx + 1) (by omega) (by omega)
        have hsucc : fidx + (j + 1) = fidx + 1 + j := by omega
        refine ⟨j + 1, by omega, ?_, fun i hi => ?_, ?_⟩
        · rw [if_pos (beq_iff_eq.mpr hb), hdrop, hsucc]
        · cases i with
          | zero => exact hb
          | succ i =>
              have hi' := hblank i (by omega)
              rwa [Nat.add_assoc, Nat.add_comm 1 i] at hi'
        · rw [hsucc]
          exact hend
      · refine ⟨0, Nat.zero_le _, ?_, fun i hi => absurd hi (Nat.not_lt_zero i), fun _ => hb⟩
        rw [if_neg (by rwa [beq_iff_eq]), ← nameRest_cons (by omega)]
        rfl

/-- A run of blanks is skipped, and it is read with the byte behind it. -/
theorem fatSkipBlanksLog_blanks {fidx j : Nat} (hblank : ∀ i < j, fatName (fidx + i) = 0x20)
    (hfuel : j < fuel) : fidx + j ∈ (fatSkipBlanksLog fatName fuel fidx).2 ∧
      (fatName (fidx + j) ≠ 0x20 →
        fatSkipBlanksLog fatName fuel fidx = (some (fidx + j), List.range' fidx (j + 1))) := by
  induction j generalizing fidx fuel with
  | zero =>
      obtain ⟨fuel, rfl⟩ := Nat.exists_eq_succ_of_ne_zero (Nat.ne_of_gt hfuel)
      rw [fatSkipBlanksLog]
      constructor
      · split
        · exact List.mem_cons_self
        · exact List.mem_cons_self
      · intro hend
        rw [Nat.add_zero] at hend
        rw [if_neg hend]
        rfl
  | succ j ih =>
      obtain ⟨fuel, rfl⟩ := Nat.exists_eq_succ_of_ne_zero (Nat.ne_of_gt (Nat.zero_lt_of_lt hfuel))
      have hsucc : ∀ i, fidx + 1 + i = fidx + (i + 1) := fun i => by omega
      have hfirst := hblank 0 (Nat.succ_pos j)
      rw [Nat.add_zero] at hfirst
      obtain ⟨hread, hend⟩ := @ih fuel (fidx + 1) (fun i hi => by
        rw [hsucc]
        exact hblank (i + 1) (by omega)) (by omega)
      rw [hsucc] at hread hend
      rw [fatSkipBlanksLog, if_pos hfirst]
      constructor
      · exact List.mem_cons_of_mem _ hread
      · intro hlast
        rw [hend hlast]
        rfl

theorem Spells.of_nil (request : List UInt8) : Spells [] request := by
  cases request with
  | nil => exact fun b hb => absurd hb List.not_mem_nil
  | cons c request => exact Or.inl rfl

/-- What the comparison does with the rest of a name. -/
structure ComparesRest (fuel : Nat) (fatName : Nat → UInt8) (request : List UInt8)
    (fidx : Nat) : Prop where
  spells : Spells (nameRest fatName fidx) request →
    (∀ k ∈ (fatStrcmpFromLog fuel fatName request fidx).2, k < 11) →
      (fatStrcmpFromLog fuel fatName request fidx).1 = some 0
  other : ¬ Spells (nameRest fatName fidx) request →
    (fatStrcmpFromLog fuel fatName request fidx).1 = some (-1) ∧
      ∀ k ∈ (fatStrcmpFromLog fuel fatName request fidx).2, k < 11

theorem fatStrcmpFromLog_end_lt {fidx : Nat} :
    ∀ k ∈ (fatStrcmpFromLog fuel fatName [] fidx).2, k < 11 := by
  intro k hk
  have hmem := List.mem_range'_1.mp (List.mem_of_mem_take hk)
  omega

theorem fatStrcmpFromLog_end (fidx : Nat) : ComparesRest fuel fatName [] fidx := by
  have hany : ((List.range' fidx (11 - fidx)).any fun k => fatName k ≠ 0x20) = true ↔
      ¬ Spells (nameRest fatName fidx) [] := by
    simp [Spells, nameRest, and_assoc]
  refine ⟨fun hsp _ => ?_, fun hsp => ⟨?_, fatStrcmpFromLog_end_lt⟩⟩
  · exact if_neg fun h => hany.mp h hsp
  · exact if_pos (hany.mpr hsp)

/-- A dot: the blanks are read with the byte behind them, and the comparison
    goes on there. -/
theorem fatStrcmpFromLog_dot {fidx j : Nat} (hblank : ∀ i < j, fatName (fidx + i) = 0x20)
    (hfuel : j < fuel) (request : List UInt8) :
    fidx + j ∈ (fatStrcmpFromLog fuel fatName (0x2e :: request) fidx).2 ∧
      (fatName (fidx + j) ≠ 0x20 → fatStrcmpFromLog fuel fatName (0x2e :: request) fidx
        = ((fatStrcmpFromLog fuel fatName request (fidx + j)).1,
          List.range' fidx (j + 1) ++ (fatStrcmpFromLog fuel fatName request (fidx + j)).2)) := by
  obtain ⟨hread, hend⟩ := fatSkipBlanksLog_blanks hblank hfuel
  rw [fatStrcmpFromLog, if_pos rfl]
  constructor
  · generalize fatSkipBlanksLog fatName fuel fidx = r at hread
    obtain ⟨r, log⟩ := r
    cases r with
    | none => exact hread
    | some fidx' => exact List.mem_append_left _ hread
  · intro hne
    rw [hend hne]

/-- A character that is not a dot. -/
theorem fatStrcmpFromLog_char {c : UInt8} (hc : c ≠ 0x2e) (request : List UInt8) (fidx : Nat) :
    fatStrcmpFromLog fuel fatName (c :: request) fidx =
      if fatName fidx = c then ((fatStrcmpFromLog fuel fatName request (fidx + 1)).1,
        fidx :: (fatStrcmpFromLog fuel fatName request (fidx + 1)).2)
      else (some (-1), [fidx]) := by
  rw [fatStrcmpFromLog, if_neg hc]
  by_cases hbc : fatName fidx = c
  · rw [if_neg (not_not.mpr hbc), if_pos hbc]
  · rw [if_pos hbc, if_neg hbc]

/-- A dot passes over blanks: if the comparison ends well behind them, it ends
    well. -/
theorem comparesRest_dot (hfuel : 12 ≤ fuel) {request : List UInt8}
    (ih : ∀ fidx ≤ 11, ComparesRest fuel fatName request fidx) {fidx : Nat} (h : fidx ≤ 11) :
    ComparesRest fuel fatName (0x2e :: request) fidx := by
  obtain ⟨j, hj, hdrop, hblank, hstop⟩ := @nameRest_dropWhile fatName fidx h
  obtain ⟨hread, hstep⟩ := fatStrcmpFromLog_dot hblank (show j < fuel by omega) request
  have hsp : Spells (nameRest fatName fidx) (0x2e :: request) ↔
      Spells (nameRest fatName (fidx + j)) request := by
    rw [Spells, if_pos rfl, hdrop, or_iff_right_iff_imp]
    intro hnil
    rw [hnil, List.dropWhile_nil] at hdrop
    rw [← hdrop]
    exact Spells.of_nil request
  rcases Nat.lt_or_ge (fidx + j) 11 with hlt | hge
  · obtain ⟨hspells, hother⟩ := ih _ (Nat.le_of_lt hlt)
    have hskip : ∀ k ∈ List.range' fidx (j + 1), k < 11 := by
      intro k hk
      rw [List.mem_range'_1] at hk
      omega
    rw [← hsp] at hspells hother
    refine ⟨fun hs hlog => ?_, fun hs => ?_⟩
    · rw [hstep (hstop hlt)] at hlog ⊢
      exact hspells hs fun k hk => hlog k (List.mem_append_right _ hk)
    · rw [hstep (hstop hlt)]
      refine ⟨(hother hs).1, fun k hk => ?_⟩
      rcases List.mem_append.mp hk with hk | hk
      · exact hskip k hk
      · exact (hother hs).2 k hk
  · -- blank to the end: the byte behind the name is read
    obtain heq : fidx + j = 11 := by omega
    rw [heq] at hread hsp
    exact ⟨fun _ hlog => absurd (hlog 11 hread) (Nat.lt_irrefl 11),
      fun hs => absurd (hsp.mpr (Spells.of_nil request)) hs⟩

/-- Another character is compared with the next one of the name. -/
theorem comparesRest_char {c : UInt8} (hdot : ¬ c = 0x2e) {request : List UInt8}
    (ih : ∀ fidx ≤ 11, ComparesRest fuel fatName request fidx) {fidx : Nat} (h : fidx ≤ 11) :
    ComparesRest fuel fatName (c :: request) fidx := by
  have hstep := @fatStrcmpFromLog_char fuel fatName c hdot request fidx
  rcases Nat.lt_or_ge fidx 11 with hlt | hge
  · have hsp : Spells (nameRest fatName fidx) (c :: request) ↔
        fatName fidx = c ∧ Spells (nameRest fatName (fidx + 1)) request := by
      rw [Spells, if_neg hdot, nameRest_cons hlt]
      simp
    by_cases hbc : fatName fidx = c
    · obtain ⟨hspells, hother⟩ := ih _ hlt
      rw [if_pos hbc] at hstep
      refine ⟨fun hs hlog => ?_, fun hs => ?_⟩
      · rw [hstep] at hlog ⊢
        exact hspells (hsp.mp hs).2 fun k hk => hlog k (List.mem_cons_of_mem _ hk)
      · obtain ⟨hret, hlog⟩ := hother fun hs' => hs (hsp.mpr ⟨hbc, hs'⟩)
        rw [hstep]
        refine ⟨hret, fun k hk => ?_⟩
        rcases List.mem_cons.mp hk with rfl | hk
        · exact hlt
        · exact hlog k hk
    · rw [if_neg hbc] at hstep
      refine ⟨fun hs => absurd (hsp.mp hs).1 hbc, fun _ => ?_⟩
      rw [hstep]
      exact ⟨rfl, fun k hk => (List.mem_singleton.mp hk) ▸ hlt⟩
  · -- nothing left of the name: this read is behind it
    obtain rfl : fidx = 11 := by omega
    have hread : 11 ∈ (fatStrcmpFromLog fuel fatName (c :: request) 11).2 := by
      rw [hstep]
      split
      · exact List.mem_cons_self
      · exact List.mem_cons_self
    exact ⟨fun _ hlog => absurd (hlog 11 hread) (Nat.lt_irrefl 11),
      fun hs => absurd (Spells.of_nil _) hs⟩

/-- **The comparison** of the rest of a name: what the request spells is taken
    for a match, unless a byte behind the name is read for it. -/
theorem fatStrcmpFromLog_spec (hfuel : 12 ≤ fuel) (request : List UInt8) {fidx : Nat}
    (h : fidx ≤ 11) : ComparesRest fuel fatName request fidx := by
  induction request generalizing fidx with
  | nil => exact fatStrcmpFromLog_end fidx
  | cons c request ih =>
      by_cases hdot : c = 0x2e
      · subst hdot
        exact comparesRest_dot hfuel (fun _ hle => ih hle) h
      · exact comparesRest_char hdot (fun _ hle => ih hle) h

/-! ## The 8.3 form -/

theorem nameRest_lt {fidx : Nat} {b : UInt8} {rest : List UInt8}
    (h : nameRest fatName fidx = b :: rest) : fidx < 11 := by
  have hlen := congrArg List.length h
  rw [nameRest, List.length_map, List.length_range', List.length_cons] at hlen
  omega

/-- Characters that are the next bytes of the name are read one by one. -/
theorem fatStrcmpFromLog_literal {xs rest : List UInt8} {fidx : Nat} (request : List UInt8)
    (hxs : ∀ x ∈ xs, NameChar x) (hname : nameRest fatName fidx = xs ++ rest) :
    fatStrcmpFromLog fuel fatName (xs ++ request) fidx
        = ((fatStrcmpFromLog fuel fatName request (fidx + xs.length)).1, List.range' fidx xs.length
          ++ (fatStrcmpFromLog fuel fatName request (fidx + xs.length)).2) ∧
      nameRest fatName (fidx + xs.length) = rest := by
  induction xs generalizing fidx with
  | nil => exact ⟨rfl, hname⟩
  | cons x xs ih =>
      have hlt := nameRest_lt hname
      rw [nameRest_cons hlt, List.cons_append] at hname
      obtain ⟨hx, hname⟩ := List.cons.inj hname
      obtain ⟨hrun, hrest⟩ := ih (fun y hy => hxs y (List.mem_cons_of_mem x hy)) hname
      have hsucc : fidx + (x :: xs).length = fidx + 1 + xs.length := by
        rw [List.length_cons]
        omega
      rw [hsucc]
      refine ⟨?_, hrest⟩
      rw [List.cons_append, fatStrcmpFromLog_char (hxs x List.mem_cons_self).2, if_pos hx, hrun]
      rfl

/-- A dot in front of the padding of a field. -/
theorem nameRest_blanks {j : Nat} {rest : List UInt8} {fidx : Nat}
    (hname : nameRest fatName fidx = List.replicate j 0x20 ++ rest) :
    (∀ i < j, fatName (fidx + i) = 0x20) ∧ nameRest fatName (fidx + j) = rest := by
  induction j generalizing fidx with
  | zero => exact ⟨fun i hi => absurd hi (Nat.not_lt_zero i), hname⟩
  | succ j ih =>
      have hlt := nameRest_lt hname
      rw [nameRest_cons hlt, List.replicate_succ, List.cons_append] at hname
      obtain ⟨hb, hname⟩ := List.cons.inj hname
      obtain ⟨hblank, hrest⟩ := ih hname
      have hsucc : ∀ i, fidx + 1 + i = fidx + (i + 1) := fun i => by omega
      refine ⟨fun i hi => ?_, by rwa [← hsucc]⟩
      cases i with
      | zero => exact hb
      | succ i =>
          rw [← hsucc]
          exact hblank i (by omega)

/-- The comparison of an entry with its own 8.3 form. -/
theorem fatStrcmpLog_form (hfuel : 12 ≤ fuel) {n : DirName}
    (hname : nameRest fatName 0 = n.bytes) :
    (fatStrcmpLog fuel fatName n.form).1 = some 0 ∧
      ∀ k ∈ (fatStrcmpLog fuel fatName n.form).2, k < 11 := by
  have hb := n.base_length
  have he := n.ext_length
  have hblank : ∀ (w : Nat), ∀ b ∈ List.replicate w (0x20 : UInt8), b = 0x20 := fun w b h =>
    List.eq_of_mem_replicate h
  rw [DirName.bytes, padded, List.append_assoc] at hname
  have hrun := fun request =>
    @fatStrcmpFromLog_literal fuel fatName n.base _ 0 request n.base_char hname
  have hrest := (hrun []).2
  rw [Nat.zero_add] at hrun hrest
  have hlow : ∀ k ∈ List.range' 0 n.base.length, k < 11 := by
    intro k hk
    rw [List.mem_range'_1] at hk
    omega
  rw [fatStrcmpLog, DirName.form]
  split
  · next hext =>
      rw [hext, padded, List.nil_append] at hrest
      have hend := (@fatStrcmpFromLog_end fuel fatName n.base.length).spells (by
        rw [Spells, hrest]
        intro b hmem
        rcases List.mem_append.mp hmem with hmem | hmem
        · exact hblank _ b hmem
        · exact hblank _ b hmem) fatStrcmpFromLog_end_lt
      have hbase := (hrun []).1
      rw [List.append_nil] at hbase
      rw [hbase]
      refine ⟨hend, fun k hk => ?_⟩
      rcases List.mem_append.mp hk with hk | hk
      · exact hlow k hk
      · exact fatStrcmpFromLog_end_lt k hk
  · next hext =>
      -- the dot takes the padding of the base, and the extension follows
      obtain ⟨hpad, hfield⟩ := nameRest_blanks hrest
      have hcol : n.base.length + (8 - n.base.length) = 8 := by omega
      rw [hcol] at hfield
      have hfirst : fatName (n.base.length + (8 - n.base.length)) ≠ 0x20 := by
        obtain ⟨e, es, he⟩ := List.exists_cons_of_ne_nil hext
        rw [he, padded, List.cons_append, nameRest_cons (by decide)] at hfield
        rw [hcol, (List.cons.inj hfield).1]
        exact (n.ext_char e (he ▸ List.mem_cons_self)).1
      have hdot := (fatStrcmpFromLog_dot hpad (show 8 - n.base.length < fuel by omega) n.ext).2 hfirst
      obtain ⟨hlit, htail⟩ := @fatStrcmpFromLog_literal fuel fatName n.ext _ 8 [] n.ext_char hfield
      have hend := (@fatStrcmpFromLog_end fuel fatName (8 + n.ext.length)).spells (by
        rw [Spells, htail]
        exact hblank _) fatStrcmpFromLog_end_lt
      rw [List.append_nil] at hlit
      rw [(hrun (0x2e :: n.ext)).1, hdot, hcol, hlit]
      refine ⟨hend, fun k hk => ?_⟩
      rcases List.mem_append.mp hk with hk | hk
      · exact hlow k hk
      · rcases List.mem_append.mp hk with hk | hk
        · rw [List.mem_range'_1] at hk
          omega
        · rcases List.mem_append.mp hk with hk | hk
          · rw [List.mem_range'_1] at hk
            omega
          · exact fatStrcmpFromLog_end_lt k hk

/-! ## Exact matches -/

/-- The comparison of the entry `n` with the request is exact. -/
structure MatchExact (n : DirName) (request : List UInt8) (ret : Option Int) (reads : List Nat) :
    Prop where
  iff_form : ret = some 0 ↔ request = n.form
  inside : ∀ k ∈ reads, k < 11

theorem fatStrcmp_exact_iff (hfuel : 12 ≤ fuel) {n : DirName}
    (hname : nameRest fatName 0 = n.bytes) (request : List UInt8) :
    MatchExact n request (fatStrcmp fuel fatName request) (fatStrcmpLog fuel fatName request).2 ↔
      request = n.form ∨ ¬ Spells n.bytes request := by
  rw [fatStrcmp, ← fatStrcmpFromLog_fst]
  obtain ⟨hspells, hother⟩ := @fatStrcmpFromLog_spec fuel fatName hfuel request 0 (by decide)
  obtain ⟨hform, hin⟩ := fatStrcmpLog_form hfuel hname
  rw [hname] at hspells hother
  constructor
  · intro hexact
    by_cases hsp : Spells n.bytes request
    · exact Or.inl (hexact.iff_form.mp (hspells hsp hexact.inside))
    · exact Or.inr hsp
  · rintro (rfl | hsp)
    · exact ⟨⟨fun _ => rfl, fun _ => hform⟩, hin⟩
    · obtain ⟨hret, hlt⟩ := hother hsp
      refine ⟨⟨fun h => ?_, ?_⟩, hlt⟩
      · rw [hret] at h
        cases h
      · rintro rfl
        rw [fatStrcmpLog, hret] at hform
        cases hform

/-- **Name matching**, in the loader and in sector_mapper: for every entry
    and whatever follows it in memory, a request is matched exactly if it is
    the entry's 8.3 form or does not spell the entry. -/
theorem fat_strcmp_exact_iff (n : DirName) (request : List UInt8) (fatName : Nat → UInt8)
    (hname : nameRest fatName 0 = n.bytes) (fuel : Nat) (hfuel : 12 ≤ fuel) :
    (MatchExact n request (fatStrcmp fuel fatName request)
        (fatStrcmpLog fuel fatName request).2 ↔ request = n.form ∨ ¬ Spells n.bytes request) ∧
      (MatchExact n request (Tools.fatStrcmp fuel fatName request)
        (fatStrcmpLog fuel fatName request).2 ↔ request = n.form ∨ ¬ Spells n.bytes request) :=
  ⟨fatStrcmp_exact_iff hfuel hname request, fatStrcmp_exact_iff hfuel hname request⟩

end Compare

theorem noExt_length : ([] : List UInt8).length ≤ 3 := Nat.zero_le 3

theorem noExt_char : ∀ b ∈ ([] : List UInt8), NameChar b := List.forall_mem_nil _

/-- The entry of the file `AB`, without an extension. -/
def nameAB : DirName where
  base := [0x41, 0x42]
  ext := []
  base_length := by decide
  ext_length := noExt_length
  base_char := by simp [NameChar]
  ext_char := noExt_char

/-- It is found under its name. -/
theorem fat_strcmp_exact_iff_AB :
    MatchExact nameAB [0x41, 0x42] (fatStrcmp 12 (fun k => nameAB.bytes.getD k 0) [0x41, 0x42])
        (fatStrcmpLog 12 (fun k => nameAB.bytes.getD k 0) [0x41, 0x42]).2 ∧
      MatchExact nameAB [0x41, 0x42]
        (Tools.fatStrcmp 12 (fun k => nameAB.bytes.getD k 0) [0x41, 0x42])
        (fatStrcmpLog 12 (fun k => nameAB.bytes.getD k 0) [0x41, 0x42]).2 := by
  have h := fat_strcmp_exact_iff nameAB [0x41, 0x42] (fun k => nameAB.bytes.getD k 0) (by decide) 12
    (by decide)
  exact ⟨h.1.mpr (Or.inl rfl), h.2.mpr (Or.inl rfl)⟩

/-- And under `A.B`. -/
theorem fat_strcmp_dot_inside :
    ¬ ∀ (n : DirName) (request : List UInt8) (fatName : Nat → UInt8) (fuel : Nat),
      nameRest fatName 0 = n.bytes → 12 ≤ fuel →
      MatchExact n request (fatStrcmp fuel fatName request) (fatStrcmpLog fuel fatName request).2 := by
  intro hall
  have h := hall nameAB [0x41, 0x2e, 0x42] (fun k => nameAB.bytes.getD k 0) 12 (by decide) (by decide)
  exact absurd (h.iff_form.mp (by decide)) (by decide)

end LBoot.Storage
