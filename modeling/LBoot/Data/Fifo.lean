/-
  LBoot.Data.Fifo

  Model of the byte FIFO (src/data/fifo.c, inc/data/fifo.h).

  `head` and `tail` are the volatile indices of the source, `size` the number
  of bytes of the allocated buffer; index arithmetic is unsigned and 32 bits
  wide.  Every function is translated as it stands.  `fifoRead` takes the
  destination buffer as an option, `none` being the NULL that throws the data
  away.

  `Rep f q` connects the record to the queue it stands for; the spec lemmas
  below are all that later modules use of the functions.
-/

import LBoot.Lib.Ring
import LBoot.Lib.Splice
import LBoot.Lib.Word32

namespace LBoot.Data

open LBoot.Lib

/-- `fifo_t`. -/
structure Fifo where
  buf : List UInt8
  size : Nat
  head : Nat
  tail : Nat
  deriving DecidableEq, Repr

/-- `fifo_init`: `mem` is the uncleared memory that `alloc(sz, 0)` returns. -/
def fifoInit (mem : List UInt8) (sz : Nat) : Fifo :=
  { buf := mem, size := sz, head := 0, tail := 0 }

/-- `fifo_isinitialized`: the size is set together with the buffer. -/
def fifoIsinitialized (f : Fifo) : Bool := f.size ≠ 0

/-- `_fifo_write_byte`. -/
def fifoWriteByte (f : Fifo) (byte : UInt8) : Fifo :=
  let f := { f with buf := f.buf.set f.tail byte, tail := u32 (f.tail + 1) }
  if f.tail ≥ f.size then { f with tail := 0 } else f

/-- `_fifo_read_byte`. -/
def fifoReadByte (f : Fifo) : UInt8 × Fifo :=
  let byte := f.buf.getD f.head 0
  let f := { f with head := u32 (f.head + 1) }
  if f.head ≥ f.size then (byte, { f with head := 0 }) else (byte, f)

/-- `fifo_getfree`. -/
def fifoGetfree (f : Fifo) : Nat :=
  if f.head ≤ f.tail then
    sub32 (sub32 f.size (sub32 f.tail f.head)) 1
  else
    sub32 (sub32 f.head f.tail) 1

/-- `fifo_getused`. -/
def fifoGetused (f : Fifo) : Nat :=
  if f.head ≤ f.tail then
    sub32 f.tail f.head
  else
    sub32 f.size (sub32 f.head f.tail)

/-- The loop of `fifo_write`. -/
def fifoWriteLoop (f : Fifo) : List UInt8 → Fifo
  | [] => f
  | b :: bs => fifoWriteLoop (fifoWriteByte f b) bs

/-- `fifo_write`: `data` is the `sz` bytes at `buf`. -/
def fifoWrite (f : Fifo) (data : List UInt8) : Int × Fifo :=
  if fifoGetfree f < data.length then (-1, f)
  else (0, fifoWriteLoop f data)

/-- The loop of `fifo_read`: the bytes it takes out, oldest first. -/
def fifoReadLoop (f : Fifo) : Nat → List UInt8 × Fifo
  | 0 => ([], f)
  | n + 1 =>
      let (b, f1) := fifoReadByte f
      let (bs, f2) := fifoReadLoop f1 n
      (b :: bs, f2)

/-- `fifo_read`: the result code, the destination buffer and the FIFO after
    the call. -/
def fifoRead (f : Fifo) (buf : Option (List UInt8)) (sz : Nat) :
    Int × Option (List UInt8) × Fifo :=
  if fifoGetused f < sz then (-1, buf, f)
  else
    let (bs, f') := fifoReadLoop f sz
    (0, buf.map fun dst => splice dst 0 bs, f')

/-! ## Representation -/

/-- The FIFO stands for the queue `q`. -/
structure Rep (f : Fifo) (q : List UInt8) : Prop where
  holds : Ring.Holds f.buf f.head f.tail q
  buf_length : f.buf.length = f.size
  size_lt : f.size < 2 ^ 32

namespace Rep

variable {f : Fifo} {q : List UInt8}

theorem head_lt (h : Rep f q) : f.head < f.size := h.buf_length ▸ h.holds.head_lt

theorem tail_lt (h : Rep f q) : f.tail < f.size := h.buf_length ▸ h.holds.tail_lt

theorem length_lt (h : Rep f q) : q.length < f.size := h.buf_length ▸ h.holds.fits

end Rep

/-- A fresh FIFO is empty. -/
theorem fifoInit_rep {mem : List UInt8} {sz : Nat} (hsz : 1 ≤ sz) (h32 : sz < 2 ^ 32)
    (hmem : mem.length = sz) : Rep (fifoInit mem sz) [] where
  holds := Ring.Holds.empty (by simp [fifoInit]; omega)
  buf_length := hmem
  size_lt := h32

/-! ## Specification of the operations -/

/-- `fifo_getused` is the length of the queue, on both sides of the wrap. -/
theorem fifoGetused_eq {f : Fifo} {q : List UInt8} (h : Rep f q) :
    fifoGetused f = q.length := by
  have hh := h.head_lt
  have ht := h.tail_lt
  have h32 := h.size_lt
  unfold fifoGetused
  by_cases hle : f.head ≤ f.tail
  · rw [if_pos hle, sub32_of_le hle (by omega), h.holds.length_of_le hle]
  · have hlen := h.holds.length_of_lt (by omega)
    rw [h.buf_length] at hlen
    rw [if_neg hle, sub32_of_le (a := f.head) (by omega) (by omega),
      sub32_of_le (by omega) h32, hlen]

/-- `fifo_getfree` is what is left of the `size - 1` usable bytes. -/
theorem fifoGetfree_eq {f : Fifo} {q : List UInt8} (h : Rep f q) :
    fifoGetfree f = f.size - 1 - q.length := by
  have hh := h.head_lt
  have ht := h.tail_lt
  have h32 := h.size_lt
  unfold fifoGetfree
  by_cases hle : f.head ≤ f.tail
  · have hlen := h.holds.length_of_le hle
    rw [if_pos hle, sub32_of_le hle (by omega), sub32_of_le (by omega) h32,
      sub32_of_le (by omega) (by omega)]
    omega
  · have hlen := h.holds.length_of_lt (by omega)
    rw [h.buf_length] at hlen
    rw [if_neg hle, sub32_of_le (a := f.head) (by omega) (by omega),
      sub32_of_le (by omega) (by omega)]
    omega

@[simp] theorem fifoWriteByte_size (f : Fifo) (b : UInt8) : (fifoWriteByte f b).size = f.size := by
  unfold fifoWriteByte
  dsimp only
  split <;> rfl

@[simp] theorem fifoWriteByte_head (f : Fifo) (b : UInt8) : (fifoWriteByte f b).head = f.head := by
  unfold fifoWriteByte
  dsimp only
  split <;> rfl

@[simp] theorem fifoWriteByte_buf (f : Fifo) (b : UInt8) :
    (fifoWriteByte f b).buf = f.buf.set f.tail b := by
  unfold fifoWriteByte
  dsimp only
  split <;> rfl

theorem fifoWriteByte_tail {f : Fifo} (b : UInt8) (ht : f.tail < f.size)
    (h32 : f.size < 2 ^ 32) : (fifoWriteByte f b).tail = Ring.advance f.size f.tail := by
  unfold fifoWriteByte Ring.advance
  rw [u32_of_lt (by omega)]
  dsimp only
  split <;> split <;> first | rfl | omega

@[simp] theorem fifoReadByte_size (f : Fifo) : (fifoReadByte f).2.size = f.size := by
  unfold fifoReadByte
  dsimp only
  split <;> rfl

@[simp] theorem fifoReadByte_tail (f : Fifo) : (fifoReadByte f).2.tail = f.tail := by
  unfold fifoReadByte
  dsimp only
  split <;> rfl

@[simp] theorem fifoReadByte_buf (f : Fifo) : (fifoReadByte f).2.buf = f.buf := by
  unfold fifoReadByte
  dsimp only
  split <;> rfl

@[simp] theorem fifoReadByte_byte (f : Fifo) : (fifoReadByte f).1 = f.buf.getD f.head 0 := by
  unfold fifoReadByte
  dsimp only
  split <;> rfl

theorem fifoReadByte_head {f : Fifo} (hh : f.head < f.size) (h32 : f.size < 2 ^ 32) :
    (fifoReadByte f).2.head = Ring.advance f.size f.head := by
  unfold fifoReadByte Ring.advance
  rw [u32_of_lt (by omega)]
  dsimp only
  split <;> split <;> first | rfl | omega

/-- Writing a byte where one fits appends it. -/
theorem fifoWriteByte_rep {f : Fifo} {q : List UInt8} (b : UInt8) (h : Rep f q)
    (hroom : q.length + 1 < f.size) : Rep (fifoWriteByte f b) (q ++ [b]) where
  holds := by
    have hpush := h.holds.push (by rw [h.buf_length]; exact hroom) b
    rw [h.buf_length] at hpush
    rw [fifoWriteByte_buf, fifoWriteByte_head, fifoWriteByte_tail b h.tail_lt h.size_lt]
    exact hpush
  buf_length := by simpa using h.buf_length
  size_lt := by simpa using h.size_lt

/-- Reading a byte from a nonempty FIFO removes and returns the oldest. -/
theorem fifoReadByte_rep {f : Fifo} {x : UInt8} {q : List UInt8} (h : Rep f (x :: q)) :
    (fifoReadByte f).1 = x ∧ Rep (fifoReadByte f).2 q := by
  obtain ⟨hcell, hpop⟩ := h.holds.pop
  rw [h.buf_length] at hpop
  refine ⟨by simp [List.getD_eq_getElem?_getD, hcell], ?_, ?_, ?_⟩
  · rw [fifoReadByte_buf, fifoReadByte_tail, fifoReadByte_head h.head_lt h.size_lt]
    exact hpop
  · simpa using h.buf_length
  · simpa using h.size_lt

theorem fifoWriteLoop_rep {data : List UInt8} : ∀ {f : Fifo} {q : List UInt8}, Rep f q →
    q.length + data.length < f.size → Rep (fifoWriteLoop f data) (q ++ data) := by
  induction data with
  | nil =>
      intro f q h _
      simpa [fifoWriteLoop] using h
  | cons b bs ih =>
      intro f q h hroom
      rw [List.length_cons] at hroom
      have hb := fifoWriteByte_rep b h (by omega)
      have hrest := ih hb (by rw [fifoWriteByte_size, List.length_append, List.length_singleton]; omega)
      simpa [fifoWriteLoop] using hrest

theorem fifoReadLoop_rep {n : Nat} : ∀ {f : Fifo} {q : List UInt8}, Rep f q → n ≤ q.length →
    (fifoReadLoop f n).1 = q.take n ∧ Rep (fifoReadLoop f n).2 (q.drop n) := by
  induction n with
  | zero =>
      intro f q h _
      simpa [fifoReadLoop] using h
  | succ n ih =>
      intro f q h hn
      cases q with
      | nil => simp at hn
      | cons x q =>
          obtain ⟨hx, hq⟩ := fifoReadByte_rep h
          obtain ⟨hbs, hrep⟩ := ih hq (by simpa using hn)
          rw [List.take_succ_cons, List.drop_succ_cons]
          exact ⟨by simp only [fifoReadLoop, hx, hbs], hrep⟩

/-- A write of bytes that fit succeeds and appends them. -/
theorem fifoWrite_fits {f : Fifo} {q data : List UInt8} (h : Rep f q)
    (hfit : data.length ≤ f.size - 1 - q.length) :
    (fifoWrite f data).1 = 0 ∧ Rep (fifoWrite f data).2 (q ++ data) := by
  have hlt := h.length_lt
  unfold fifoWrite
  rw [if_neg (by rw [fifoGetfree_eq h]; omega)]
  exact ⟨rfl, fifoWriteLoop_rep h (by omega)⟩

/-- A write of bytes that do not all fit changes nothing. -/
theorem fifoWrite_full {f : Fifo} {q data : List UInt8} (h : Rep f q)
    (hfull : f.size - 1 - q.length < data.length) : fifoWrite f data = (-1, f) := by
  unfold fifoWrite
  rw [if_pos (by rw [fifoGetfree_eq h]; omega)]

/-- A read of bytes that are all there succeeds and removes the oldest. -/
theorem fifoRead_avail {f : Fifo} {q : List UInt8} {sz : Nat} (h : Rep f q)
    (hsz : sz ≤ q.length) (buf : Option (List UInt8)) :
    (fifoRead f buf sz).1 = 0 ∧
      (fifoRead f buf sz).2.1 = buf.map (fun dst => splice dst 0 (q.take sz)) ∧
      Rep (fifoRead f buf sz).2.2 (q.drop sz) := by
  obtain ⟨hbs, hrep⟩ := fifoReadLoop_rep h hsz
  unfold fifoRead
  rw [if_neg (by rw [fifoGetused_eq h]; omega)]
  exact ⟨rfl, by rw [← hbs], hrep⟩

/-- A read of more bytes than there are changes nothing. -/
theorem fifoRead_short {f : Fifo} {q : List UInt8} {sz : Nat} (h : Rep f q)
    (hsz : q.length < sz) (buf : Option (List UInt8)) : fifoRead f buf sz = (-1, buf, f) := by
  unfold fifoRead
  rw [if_pos (by rw [fifoGetused_eq h]; omega)]

@[simp] theorem fifoWriteLoop_size (f : Fifo) (data : List UInt8) :
    (fifoWriteLoop f data).size = f.size := by
  induction data generalizing f with
  | nil => rfl
  | cons b data ih => rw [fifoWriteLoop, ih, fifoWriteByte_size]

@[simp] theorem fifoReadLoop_size (f : Fifo) (n : Nat) :
    (fifoReadLoop f n).2.size = f.size := by
  induction n generalizing f with
  | zero => rfl
  | succ n ih => exact (ih (fifoReadByte f).2).trans (fifoReadByte_size f)

@[simp] theorem fifoWriteLoop_head (f : Fifo) (data : List UInt8) :
    (fifoWriteLoop f data).head = f.head := by
  induction data generalizing f with
  | nil => rfl
  | cons b data ih => rw [fifoWriteLoop, ih, fifoWriteByte_head]

@[simp] theorem fifoWrite_head (f : Fifo) (data : List UInt8) :
    (fifoWrite f data).2.head = f.head := by
  unfold fifoWrite
  split <;> simp

@[simp] theorem fifoWrite_size (f : Fifo) (data : List UInt8) :
    (fifoWrite f data).2.size = f.size := by
  unfold fifoWrite
  split <;> simp

@[simp] theorem fifoRead_size (f : Fifo) (buf : Option (List UInt8)) (sz : Nat) :
    (fifoRead f buf sz).2.2.size = f.size := by
  unfold fifoRead
  split <;> simp

/-! ## A reader stopped inside `_fifo_read_byte`

`_fifo_read_byte` first moves `head` one past the byte and only then wraps
it, so a writer that interrupts it may see `head = size`.  `Fifo.norm` is the
FIFO once the reader has finished; the writer's side computes the same on
both. -/

/-- The last two lines of `_fifo_read_byte`. -/
def Fifo.norm (f : Fifo) : Fifo :=
  if f.head ≥ f.size then { f with head := 0 } else f

@[simp] theorem Fifo.norm_size (f : Fifo) : f.norm.size = f.size := by
  unfold Fifo.norm
  split <;> rfl

@[simp] theorem Fifo.norm_tail (f : Fifo) : f.norm.tail = f.tail := by
  unfold Fifo.norm
  split <;> rfl

theorem Fifo.norm_of_lt {f : Fifo} (h : f.head < f.size) : f.norm = f := by
  unfold Fifo.norm
  rw [if_neg (by omega)]

theorem fifoGetfree_norm {f : Fifo} (hh : f.head ≤ f.size) (ht : f.tail < f.size)
    (h32 : f.size < 2 ^ 32) : fifoGetfree f.norm = fifoGetfree f := by
  by_cases hlt : f.head < f.size
  · rw [Fifo.norm_of_lt hlt]
  · have heq : f.head = f.size := by omega
    unfold fifoGetfree Fifo.norm
    rw [if_pos (by omega : f.head ≥ f.size), if_neg (by omega : ¬ f.head ≤ f.tail), heq]
    simp only [Nat.zero_le, if_true]
    rw [sub32_of_le (Nat.zero_le _) (by omega), Nat.sub_zero]

theorem fifoWriteByte_norm (f : Fifo) (b : UInt8) :
    (fifoWriteByte f b).norm = fifoWriteByte f.norm b := by
  unfold Fifo.norm fifoWriteByte
  by_cases ht : u32 (f.tail + 1) ≥ f.size <;> by_cases hh : f.head ≥ f.size <;>
    simp [ht, hh]

theorem fifoWriteLoop_norm (f : Fifo) (data : List UInt8) :
    (fifoWriteLoop f data).norm = fifoWriteLoop f.norm data := by
  induction data generalizing f with
  | nil => rfl
  | cons b bs ih =>
      rw [fifoWriteLoop, fifoWriteLoop, ih, fifoWriteByte_norm]

theorem fifoWrite_norm {f : Fifo} (hh : f.head ≤ f.size) (ht : f.tail < f.size)
    (h32 : f.size < 2 ^ 32) (data : List UInt8) :
    (fifoWrite f.norm data).1 = (fifoWrite f data).1 ∧
      (fifoWrite f.norm data).2 = (fifoWrite f data).2.norm := by
  unfold fifoWrite
  rw [fifoGetfree_norm hh ht h32]
  split
  · exact ⟨rfl, rfl⟩
  · exact ⟨rfl, (fifoWriteLoop_norm f data).symm⟩

end LBoot.Data
