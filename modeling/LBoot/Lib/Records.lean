/-
  LBoot.Lib.Records

  Records in memory, one behind the other: each has a 32-bit type and a
  32-bit size, which counts these two fields, in front of its body, and is
  padded with zeros to a multiple of `al`.

  `encodeRecords` is the writer's side, the bytes of a list of records;
  `Walks` is the reader's, which goes from record to record by the size
  fields alone.  A walk over what was encoded visits the records encoded
  (`walks_encodeRecords`), where a walk ends is decided by what it visits
  (`Walks.end_eq`), and two walks from one address agree as far as they both go
  (`Walks.agree`).
-/

import LBoot.Lib.LittleEndian
import LBoot.Lib.Memory
import Mathlib.Data.List.Infix

namespace LBoot.Lib

/-! ## Fields of memory -/

/-- The little-endian field of `w` bytes at `a`. -/
def memField (mem : Int → UInt8) (a w : Nat) : Nat := leNat (loadAt mem a w)

theorem memField_lt (mem : Int → UInt8) (a w : Nat) : memField mem a w < 256 ^ w := by
  have h := leNat_lt (loadAt mem a w)
  rwa [length_loadAt] at h

/-- A field inside a block whose bytes are known. -/
theorem memField_inside {mem : Int → UInt8} {a n off w : Nat} {bs : List UInt8}
    (h : loadAt mem a n = bs) (hfit : off + w ≤ n) :
    memField mem (a + off) w = leField bs off w := by
  have haddr : ((a + off : Nat) : Int) = a + off := by omega
  rw [memField, haddr, loadAt_inside h hfit, leField]

/-- The low part of a field. -/
theorem memField_low (mem : Int → UInt8) (a v w : Nat) :
    memField mem a v = memField mem a (v + w) % 256 ^ v := by
  have hlt := leNat_lt (loadAt mem a v)
  rw [length_loadAt] at hlt
  rw [memField, memField, loadAt_append, leNat_append, length_loadAt, Nat.add_mul_mod_self_left,
    Nat.mod_eq_of_lt hlt]

/-- A field that is stored is read back. -/
theorem memField_storeAt {mem : Int → UInt8} {a w x : Nat} (h : x < 256 ^ w) :
    memField (storeAt mem a (toLe w x)) a w = x := by
  have hload := loadAt_storeAt mem a (toLe w x)
  rw [length_toLe] at hload
  rw [memField, hload, leNat_toLe_of_lt h]

/-! ## Records -/

/-- A record: its type, and what follows the two fields. -/
structure Record where
  type : Nat
  body : List UInt8
  type_lt : type < 2 ^ 32 := by decide
  deriving DecidableEq, Repr

namespace Record

def size (r : Record) : Nat := 8 + r.body.length

def bytes (r : Record) : List UInt8 := toLe 4 r.type ++ (toLe 4 r.size ++ r.body)

@[simp] theorem length_bytes (r : Record) : r.bytes.length = r.size := by
  rw [bytes, List.length_append, List.length_append, length_toLe, length_toLe, size]
  omega

theorem drop_bytes (r : Record) : r.bytes.drop 8 = r.body := by
  rw [bytes, ← List.append_assoc]
  exact List.drop_left' (by rw [List.length_append, length_toLe, length_toLe])

end Record

/-- What is missing to a multiple of `al`. -/
def padTo (al n : Nat) : Nat := if n % al ≠ 0 then al - n % al else 0

/-- The cells a record takes. -/
def Record.padded (al : Nat) (r : Record) : List UInt8 :=
  r.bytes ++ List.replicate (padTo al r.size) 0

@[simp] theorem Record.length_padded (al : Nat) (r : Record) :
    (r.padded al).length = r.size + padTo al r.size := by
  rw [padded, List.length_append, length_bytes, List.length_replicate]

/-- The records, one behind the other. -/
def encodeRecords (al : Nat) (rs : List Record) : List UInt8 := rs.flatMap (Record.padded al)

theorem encodeRecords_append (al : Nat) (rs ss : List Record) :
    encodeRecords al (rs ++ ss) = encodeRecords al rs ++ encodeRecords al ss :=
  List.flatMap_append

theorem encodeRecords_cons (al : Nat) (r : Record) (rs : List Record) :
    encodeRecords al (r :: rs) = r.padded al ++ encodeRecords al rs := List.flatMap_cons

@[simp] theorem encodeRecords_nil (al : Nat) : encodeRecords al [] = [] := rfl

/-- A part of the records takes no more cells than all of them. -/
theorem length_encodeRecords_le (al : Nat) {rs ss : List Record} (h : rs <+: ss) :
    (encodeRecords al rs).length ≤ (encodeRecords al ss).length := by
  obtain ⟨ts, rfl⟩ := h
  rw [encodeRecords_append, List.length_append]
  exact Nat.le_add_right _ _

/-- The cells of records are a multiple of the alignment. -/
theorem length_encodeRecords_mod {al : Nat} (hal : 0 < al) (rs : List Record) :
    (encodeRecords al rs).length % al = 0 := by
  induction rs with
  | nil => rfl
  | cons r rs ih =>
      have hpad : (r.size + padTo al r.size) % al = 0 := by
        rw [padTo]
        split_ifs with hmod
        · have hlt := Nat.mod_lt r.size hal
          have hsplit := Nat.div_add_mod r.size al
          have hsum : r.size + (al - r.size % al) = al * (r.size / al + 1) := by
            rw [Nat.mul_succ]
            omega
          rw [hsum, Nat.mul_mod_right]
        · rw [Nat.add_zero]
          exact not_not.mp hmod
      rw [encodeRecords_cons, List.length_append, Record.length_padded, Nat.add_mod, hpad, ih]
      exact Nat.zero_mod al

/-- A record that is stored in front of zeros is padded by them. -/
theorem storeAt_padded {mem : Int → UInt8} {a al : Nat} {r : Record}
    (hzero : ∀ y : Int, a ≤ y → mem y = 0) :
    storeAt mem a (r.padded al) = storeAt mem a r.bytes := by
  rw [Record.padded, storeAt_replicate fun i _ => hzero _ (by omega)]

/-- The size field of a record that was stored. -/
theorem memField_size {mem : Int → UInt8} {a : Nat} {r : Record} (h : r.size < 2 ^ 32) :
    memField (storeAt mem a r.bytes) (a + 4) 4 = r.size := by
  have hload := loadAt_storeAt mem a r.bytes
  rw [Record.length_bytes] at hload
  rw [memField_inside hload (by rw [Record.size]; omega), leField, Record.bytes,
    List.drop_left' (length_toLe _ _), List.take_left' (length_toLe _ _), leNat_toLe_of_lt h]

/-! ## Walks -/

/-- From `a` to `z` by the size fields, past the records `rs`. -/
inductive Walks (al : Nat) (mem : Int → UInt8) : Nat → List Record → Nat → Prop
  | done (a : Nat) : Walks al mem a [] a
  | record {a z : Nat} (r : Record) {rs : List Record}
      (type : memField mem a 4 = r.type)
      (size : memField mem (a + 4) 4 = r.size)
      (body : loadAt mem (a + 8 : Nat) r.body.length = r.body)
      (rest : Walks al mem (a + (r.size + padTo al r.size)) rs z) :
      Walks al mem a (r :: rs) z

namespace Walks

variable {al a z : Nat} {mem : Int → UInt8} {rs : List Record}

/-- Where a walk ends. -/
theorem end_eq (h : Walks al mem a rs z) : z = a + (encodeRecords al rs).length := by
  induction h with
  | done a => rfl
  | record r _ _ _ _ ih =>
      rw [ih, encodeRecords_cons, List.length_append, Record.length_padded]
      omega

/-- A walk goes through every part of its records. -/
theorem split {ss : List Record} (h : Walks al mem a (rs ++ ss) z) :
    ∃ m, Walks al mem a rs m ∧ Walks al mem m ss z := by
  induction rs generalizing a with
  | nil => exact ⟨a, .done a, h⟩
  | cons r rs ih =>
      obtain - | ⟨_, htype, hsize, hbody, hrest⟩ := h
      obtain ⟨m, hrs, hss⟩ := ih hrest
      exact ⟨m, .record r htype hsize hbody hrs, hss⟩

/-- Of two walks from one address, one goes on where the other ends. -/
theorem agree {z' : Nat} {ss : List Record} (h : Walks al mem a rs z)
    (h' : Walks al mem a ss z') : rs <+: ss ∨ ss <+: rs := by
  induction h generalizing ss with
  | done a => exact .inl List.nil_prefix
  | record r htype hsize hbody hrest ih =>
      cases h' with
      | done => exact .inr List.nil_prefix
      | record s htype' hsize' hbody' hrest' =>
          -- the fields are those of one place, so the records are the same
          have hlen : r.body.length = s.body.length := by
            rw [hsize, Record.size, Record.size] at hsize'
            omega
          rw [hlen, hbody'] at hbody
          obtain rfl : r = s := by
            obtain ⟨rtype, rbody, hr⟩ := r
            obtain ⟨stype, sbody, hs⟩ := s
            obtain rfl : rtype = stype := htype.symm.trans htype'
            obtain rfl : sbody = rbody := hbody
            rfl
          exact (ih hrest').imp (List.cons_prefix_cons.mpr ⟨rfl, ·⟩)
            (List.cons_prefix_cons.mpr ⟨rfl, ·⟩)

/-- In front of where a walk ends, another one finds the type of a record. -/
theorem type_pos {e : Nat} {ss : List Record} (h : Walks al mem a rs e)
    (hpos : ∀ r ∈ rs, 0 < r.type) (h' : Walks al mem a ss z) (hz : z < e) :
    0 < memField mem z 4 := by
  have he := h.end_eq
  have hz' := h'.end_eq
  rcases h.agree h' with hpre | ⟨ts, rfl⟩
  · have hle := length_encodeRecords_le al hpre
    omega
  · obtain ⟨m, hss, hts⟩ := h.split
    obtain rfl : m = z := hss.end_eq.trans hz'.symm
    cases hts with
    | done => exact absurd hz (Nat.lt_irrefl _)
    | record r htype =>
        rw [htype]
        exact hpos r (List.mem_append_right _ List.mem_cons_self)

/-- Memory outside the walk does not matter. -/
theorem congr {mem' : Int → UInt8} (h : Walks al mem a rs z)
    (heq : ∀ y : Int, a ≤ y → mem y = mem' y) : Walks al mem' a rs z := by
  have hfield : ∀ a' w : Nat, a ≤ a' → loadAt mem a' w = loadAt mem' a' w := fun a' w ha =>
    loadAt_congr fun y hlo _ => heq y (by omega)
  induction h with
  | done a => exact .done a
  | @record a z r rs htype hsize hbody _ ih =>
      refine .record r ?_ ?_ ?_ (ih (fun y hy => heq y (by omega)) fun a' w ha =>
        hfield a' w (by omega))
      · rw [memField, ← hfield a 4 (by omega)]
        exact htype
      · rw [memField, ← hfield (a + 4) 4 (by omega)]
        exact hsize
      · rw [← hfield (a + 8) _ (by omega)]
        exact hbody

end Walks

/-- **Round trip.** A walk over records that were encoded visits them. -/
theorem walks_encodeRecords {al : Nat} {mem : Int → UInt8} {a : Nat} {rs : List Record}
    (hfit : (encodeRecords al rs).length < 2 ^ 32)
    (h : loadAt mem a (encodeRecords al rs).length = encodeRecords al rs) :
    Walks al mem a rs (a + (encodeRecords al rs).length) := by
  induction rs generalizing a with
  | nil => exact .done a
  | cons r rs ih =>
      rw [encodeRecords_cons, List.length_append, Record.length_padded] at hfit h ⊢
      have hbytes : (r.padded al ++ encodeRecords al rs).take r.size = r.bytes := by
        rw [Record.padded, List.append_assoc]
        exact List.take_left' r.length_bytes
      have hrec : loadAt mem a r.size = r.bytes := by
        rw [← hbytes, ← h, take_loadAt _ _ (by omega)]
      have hsize : 8 + r.body.length = r.size := rfl
      rw [← Nat.add_assoc a]
      -- type, size and body of this record, then the rest behind its padding
      refine .record r ?_ ?_ ?_ (ih (by omega) ?_)
      · rw [← Nat.add_zero a, memField_inside hrec (by omega), leField, Record.bytes,
          List.drop_zero, List.take_left' (length_toLe _ _), leNat_toLe_of_lt r.type_lt]
      · rw [memField_inside hrec (by omega), leField, Record.bytes,
          List.drop_left' (length_toLe _ _), List.take_left' (length_toLe _ _),
          leNat_toLe_of_lt (by omega)]
      · have haddr : ((a + 8 : Nat) : Int) = a + (8 : Nat) := by omega
        rw [haddr, loadAt_inside hrec (by omega), r.drop_bytes, List.take_length]
      · have haddr : ((a + (r.size + padTo al r.size) : Nat) : Int)
            = a + (r.size + padTo al r.size : Nat) := by omega
        have hrest := drop_loadAt mem a (Nat.le_add_right (r.size + padTo al r.size)
          (encodeRecords al rs).length)
        rw [h, List.drop_left' (r.length_padded al), Nat.add_sub_cancel_left, ← haddr] at hrest
        exact hrest.symm

end LBoot.Lib
