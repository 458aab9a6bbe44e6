/-
  LBoot.Io.SerialReadSound

  What `_serial_read` reports against what the interrupt handler enqueued.

  `fifo_getused` reads `tail` twice.  If it has found `head <= tail` and the
  handler wraps `tail` below `head` before the second read, the difference
  wraps around 32 bits; `_serial_read` then takes its whole request for
  available, `fifo_read` refuses it, and the refusal goes unnoticed: the call
  reports bytes it never received (`serialRead_phantom`).

  `NoTornCount` excludes exactly those steps, except where the FIFO holds
  everything the call still wants and the wrong count does no harm.  Along
  every run that keeps to it, whatever the interleaving, the returns account
  for what was taken out of the FIFO, in order and byte by byte.

  The invariant is local to the program point (`PcInv`); an interrupt only
  lengthens the queue, so it is enough that each clause is monotone in it.
-/

import LBoot.Io.SerialRead

namespace LBoot.Io

open LBoot.Data LBoot.Lib

/-- The returns of successive calls account for the bytes `bs`, in order: each
    covers the next `count` of them and, if it has a buffer, shows exactly
    those. -/
def Accounts : List ReadReturn → List UInt8 → Prop
  | [], bs => bs = []
  | r :: rs, bs =>
      r.count ≤ bs.length ∧ (∀ d ∈ r.data, d = bs.take r.count) ∧ Accounts rs (bs.drop r.count)

theorem Accounts.snoc {rs : List ReadReturn} {r : ReadReturn} {cur : List UInt8}
    (hcount : r.count = cur.length) (hdata : ∀ d ∈ r.data, d = cur) :
    ∀ {bs : List UInt8}, Accounts rs bs → Accounts (rs ++ [r]) (bs ++ cur) := by
  induction rs with
  | nil =>
      intro bs h
      have hbs : bs = [] := h
      subst hbs
      refine ⟨by simp [hcount], fun d hd => ?_, ?_⟩
      · rw [hdata d hd, hcount, List.nil_append, List.take_length]
      · rw [hcount, List.nil_append, List.drop_length]
        exact rfl
  | cons r' rs ih =>
      intro bs h
      obtain ⟨hle, hd, hrest⟩ := h
      refine ⟨by rw [List.length_append]; omega, fun d hd' => ?_, ?_⟩
      · rw [List.take_append_of_le_length hle]
        exact hd d hd'
      · rw [List.drop_append_of_le_length hle]
        exact ih hrest

/-- The reads of all calls so far are right: the bytes taken out of the FIFO
    are `past ++ cur`, where the finished calls report exactly `past` and
    `cur` belongs to the active call; the bytes enqueued are these and, behind
    them, the contents of the FIFO. -/
def Delivered (s : ReadState) : Prop :=
  ∃ past cur q : List UInt8,
    s.deq = past ++ cur ∧ s.enq = past ++ cur ++ q ∧ Rep s.sd.rxfifo.norm q ∧
      Accounts s.rets past ∧ (s.pc = .idle → cur = [])

/-- Condition on a step: where `_serial_read` is about to read `tail` for the
    difference `tail - head`, either `tail` has not been wrapped below `head`
    since the comparison, or the FIFO holds all that the call still wants. -/
def NoTornCount (s : ReadState) : ReadEvent → Prop
  | .main _ => s.pc = .used .leTail →
      s.sd.rxfifo.head ≤ s.sd.rxfifo.tail ∨ s.call.sz - s.call.i ≤ fifoGetused s.sd.rxfifo
  | _ => True

instance (s : ReadState) : ∀ e, Decidable (NoTornCount s e)
  | .main _ => inferInstanceAs (Decidable (s.pc = .used .leTail →
      s.sd.rxfifo.head ≤ s.sd.rxfifo.tail ∨ s.call.sz - s.call.i ≤ fifoGetused s.sd.rxfifo))
  | .call .. | .isr _ => isTrue trivial

/-! ## The invariant -/

/-- The active call has received `cur`, which is `n` bytes long and stands in
    front of its buffer. -/
structure Got (c : ReadCall) (cur : List UInt8) (n : Nat) : Prop where
  length_eq : cur.length = n
  le_sz : n ≤ c.sz
  data : ∀ d ∈ c.data, c.sz ≤ d.length ∧ d.take n = cur

/-- Inside `fifo_getused`, where the value to be returned shall satisfy `P`. -/
def UsedInv (f : Fifo) (P : Nat → Prop) : UsedPc → Prop
  | .cmpHead => True
  | .cmpTail h => h = f.head
  | .leTail => True
  | .leHead t => P (sub32 t f.head)
  | .gtHead => f.tail < f.head
  | .gtTail h => h = f.head ∧ f.tail < f.head

/-- Inside the byte loop of `fifo_read`: `n` of the `rd` bytes are out, and
    the FIFO, holding `q`, has the others. -/
structure Moving (c : ReadCall) (cur q : List UInt8) (rd n : Nat) : Prop where
  got : Got c cur (c.i + n)
  fits : c.i + rd ≤ c.sz
  avail : rd - n ≤ q.length

def PcInv (s : ReadState) (cur q : List UInt8) : Prop :=
  let f := s.sd.rxfifo
  match s.pc with
  | .idle => f.head < f.size ∧ cur = []
  | .used u => f.head < f.size ∧ Got s.call cur s.call.i ∧ s.call.i < s.call.sz ∧
      UsedInv f (fun n => n ≤ q.length ∨ s.call.sz - s.call.i ≤ q.length) u
  | .readUsed rd u => f.head < f.size ∧ Moving s.call cur q rd 0 ∧ 0 < rd ∧
      UsedInv f (fun n => rd ≤ n) u
  | .byteHead rd k => f.head < f.size ∧ Moving s.call cur q rd k ∧ k < rd
  | .byteStore rd k h => f.head < f.size ∧ Moving s.call cur q rd k ∧ k < rd ∧ h = f.head
  | .byteTest rd k => f.head ≤ f.size ∧ Moving s.call cur q rd (k + 1) ∧ k < rd
  | .byteWrap rd k => f.head = f.size ∧ Moving s.call cur q rd (k + 1) ∧ k < rd
  | .flow rd _ _ => f.head < f.size ∧ Got s.call cur (s.call.i + rd)
  | .check => f.head < f.size ∧ Got s.call cur s.call.i
  | .leave => f.head < f.size ∧ Got s.call cur s.call.i

structure Ledger (s : ReadState) (past cur q : List UInt8) : Prop where
  deq_eq : s.deq = past ++ cur
  enq_eq : s.enq = past ++ cur ++ q
  rep : Rep s.sd.rxfifo.norm q
  accounts : Accounts s.rets past

def ReadInv (s : ReadState) : Prop := ∃ past cur q, Ledger s past cur q ∧ PcInv s cur q

theorem PcInv.head_le {s : ReadState} {cur q : List UInt8} (h : PcInv s cur q) :
    s.sd.rxfifo.head ≤ s.sd.rxfifo.size := by
  unfold PcInv at h
  dsimp only at h
  cases hpc : s.pc <;> rw [hpc] at h <;> dsimp only at h <;> omega

theorem ReadInv.delivered {s : ReadState} (h : ReadInv s) : Delivered s := by
  obtain ⟨past, cur, q, hl, hpc⟩ := h
  refine ⟨past, cur, q, hl.deq_eq, hl.enq_eq, hl.rep, hl.accounts, fun hidle => ?_⟩
  simp only [PcInv, hidle] at hpc
  exact hpc.2

/-! ## The handler -/

/-- The handler's `fifo_write` of one byte, seen by an interrupted reader: it
    appends the byte, or changes nothing.  A `tail` below `head` stays there. -/
theorem fifoWrite_one_cases {f : Fifo} {q : List UInt8} (b : UInt8) (hrep : Rep f.norm q)
    (hh : f.head ≤ f.size) :
    ((fifoWrite f [b]).1 = 0 ∧ Rep (fifoWrite f [b]).2.norm (q ++ [b]) ∧
        (f.head < f.size → f.tail < f.head → (fifoWrite f [b]).2.tail < f.head)) ∨
      ((fifoWrite f [b]).1 ≠ 0 ∧ (fifoWrite f [b]).2 = f) := by
  have ht : f.tail < f.size := by simpa using hrep.tail_lt
  have h32 : f.size < 2 ^ 32 := by simpa using hrep.size_lt
  obtain ⟨hret, hfifo⟩ := fifoWrite_norm hh ht h32 [b]
  by_cases hroom : q.length + 1 < f.size
  · left
    obtain ⟨h0, hrep'⟩ := @fifoWrite_fits _ _ [b] hrep
      (by rw [Fifo.norm_size, List.length_singleton]; omega)
    refine ⟨hret ▸ h0, hfifo ▸ hrep', fun hlt htail => ?_⟩
    -- a used count below `size - 1` leaves a gap of two cells
    rw [Fifo.norm_of_lt hlt] at hrep
    have hlen := hrep.holds.length_of_lt htail
    rw [hrep.buf_length] at hlen
    have hfree : ¬ fifoGetfree f < [b].length := by
      rw [fifoGetfree_eq hrep, List.length_singleton]
      omega
    simp only [fifoWrite, if_neg hfree, fifoWriteLoop]
    rw [fifoWriteByte_tail b ht h32, Ring.advance]
    split <;> omega
  · right
    have hfull := @fifoWrite_full _ _ [b] hrep
      (by rw [Fifo.norm_size, List.length_singleton]; omega)
    have hfree : fifoGetfree f < [b].length := by
      rw [← fifoGetfree_norm hh ht h32, fifoGetfree_eq hrep, Fifo.norm_size,
        List.length_singleton]
      omega
    simp only [fifoWrite, if_pos hfree]
    exact ⟨by decide, trivial⟩

theorem UsedInv.mono {f f' : Fifo} {P P' : Nat → Prop} {u : UsedPc} (h : UsedInv f P u)
    (hhead : f'.head = f.head) (htail : f.tail < f.head → f'.tail < f.head)
    (hP : ∀ n, P n → P' n) : UsedInv f' P' u := by
  cases u with
  | cmpHead => trivial
  | cmpTail h' =>
      have hh : h' = f.head := h
      exact hh.trans hhead.symm
  | leTail => trivial
  | leHead t =>
      have hp : P (sub32 t f.head) := h
      simp only [UsedInv, hhead]
      exact hP _ hp
  | gtHead =>
      have hlt : f.tail < f.head := h
      simp only [UsedInv, hhead]
      exact htail hlt
  | gtTail h' =>
      obtain ⟨hh, hlt⟩ : h' = f.head ∧ f.tail < f.head := h
      simp only [UsedInv, hhead]
      exact ⟨hh, htail hlt⟩

theorem Moving.mono {c : ReadCall} {cur q q' : List UInt8} {rd n : Nat}
    (h : Moving c cur q rd n) (hq : q.length ≤ q'.length) : Moving c cur q' rd n :=
  ⟨h.got, h.fits, Nat.le_trans h.avail hq⟩

/-- The invariant survives a change of the FIFO that keeps `head` and `size`,
    lengthens the queue and does not carry `tail` over `head`. -/
theorem PcInv.mono {s s' : ReadState} {cur q q' : List UInt8} (h : PcInv s cur q)
    (hpc : s'.pc = s.pc) (hcall : s'.call = s.call)
    (hhead : s'.sd.rxfifo.head = s.sd.rxfifo.head) (hsize : s'.sd.rxfifo.size = s.sd.rxfifo.size)
    (htail : s.sd.rxfifo.head < s.sd.rxfifo.size → s.sd.rxfifo.tail < s.sd.rxfifo.head →
      s'.sd.rxfifo.tail < s.sd.rxfifo.head)
    (hq : q.length ≤ q'.length) : PcInv s' cur q' := by
  simp only [PcInv, hpc, hcall, hhead, hsize] at h ⊢
  -- only the states inside `fifo_getused` and those that move bytes say
  -- anything about the queue
  cases hs : s.pc with
  | used u =>
      simp only [hs] at h
      obtain ⟨hlt, hgot, hi, hu⟩ := h
      exact ⟨hlt, hgot, hi, hu.mono hhead (htail hlt) fun n hn => hn.imp
        (fun hle => Nat.le_trans hle hq) (fun hle => Nat.le_trans hle hq)⟩
  | readUsed rd u =>
      simp only [hs] at h
      obtain ⟨hlt, hmov, hrd, hu⟩ := h
      exact ⟨hlt, hmov.mono hq, hrd, hu.mono hhead (htail hlt) fun n hn => hn⟩
  | byteHead rd k =>
      simp only [hs] at h
      exact ⟨h.1, h.2.1.mono hq, h.2.2⟩
  | byteStore rd k hd =>
      simp only [hs] at h
      exact ⟨h.1, h.2.1.mono hq, h.2.2⟩
  | byteTest rd k =>
      simp only [hs] at h
      exact ⟨h.1, h.2.1.mono hq, h.2.2⟩
  | byteWrap rd k =>
      simp only [hs] at h
      exact ⟨h.1, h.2.1.mono hq, h.2.2⟩
  | _ =>
      simp only [hs] at h
      exact h

theorem isr_inv {s t : ReadState} {b : UInt8} (h : ReadInv s)
    (hstep : s.step (.isr b) = some t) : ReadInv t := by
  obtain ⟨past, cur, q, hl, hpc⟩ := h
  have hle := hpc.head_le
  simp only [ReadState.step, Option.some.injEq] at hstep
  subst hstep
  rcases fifoWrite_one_cases b hl.rep hle with ⟨hret, hrep, htail⟩ | ⟨hret, hsame⟩
  · refine ⟨past, cur, q ++ [b], ⟨hl.deq_eq, ?_, by simpa using hrep, hl.accounts⟩, ?_⟩
    · simp only [hret, if_true, hl.enq_eq, List.append_assoc]
    · exact hpc.mono rfl rfl (by simp) (by simp) (by simpa using htail) (by simp)
  · refine ⟨past, cur, q, ⟨hl.deq_eq, ?_, ?_, hl.accounts⟩, ?_⟩
    · simp only [if_neg hret, hl.enq_eq]
    · simp only [serialIntRxavail_rxfifo, hsame]
      exact hl.rep
    · exact hpc.mono rfl rfl (by simp) (by simp) (by simp [hsame]) (Nat.le_refl _)

/-! ## The reader -/

/-- One read of `fifo_getused`: if the torn difference would satisfy `P`, and
    so does the true count, the value returned does. -/
theorem usedStep_inv {f : Fifo} {q : List UInt8} {P : Nat → Prop} {u : UsedPc} (hrep : Rep f q)
    (h : UsedInv f P u) (htorn : u = .leTail → P (sub32 f.tail f.head)) (hlen : P q.length) :
    (∀ u', usedStep f u = .inl u' → UsedInv f P u') ∧ (∀ n, usedStep f u = .inr n → P n) := by
  have ht := hrep.tail_lt
  have h32 := hrep.size_lt
  cases u with
  | cmpHead =>
      simp only [usedStep, Sum.inl.injEq, reduceCtorEq, false_implies, implies_true, and_true]
      rintro u' rfl
      exact rfl
  | cmpTail h' =>
      have hh : h' = f.head := h
      simp only [usedStep, Sum.inl.injEq, reduceCtorEq, false_implies, implies_true, and_true]
      rintro u' rfl
      split
      · trivial
      · show f.tail < f.head
        omega
  | leTail =>
      simp only [usedStep, Sum.inl.injEq, reduceCtorEq, false_implies, implies_true, and_true]
      rintro u' rfl
      exact htorn rfl
  | leHead t =>
      simp only [usedStep, Sum.inr.injEq, reduceCtorEq, false_implies, implies_true, true_and]
      rintro n rfl
      exact h
  | gtHead =>
      have hlt : f.tail < f.head := h
      simp only [usedStep, Sum.inl.injEq, reduceCtorEq, false_implies, implies_true, and_true]
      rintro u' rfl
      exact ⟨rfl, hlt⟩
  | gtTail h' =>
      obtain ⟨rfl, hlt⟩ : h' = f.head ∧ f.tail < f.head := h
      -- `tail` is read last here, so the difference is the count of now
      have hh := hrep.head_lt
      have hq := hrep.holds.length_of_lt hlt
      rw [hrep.buf_length] at hq
      simp only [usedStep, Sum.inr.injEq, reduceCtorEq, false_implies, implies_true, true_and]
      rintro n rfl
      rw [sub32_of_le (a := f.head) (by omega) (by omega), sub32_of_le (by omega) h32, ← hq]
      exact hlen

/-- Before the wrap the difference of the indices is the count; after it the
    difference is larger than any count. -/
theorem torn_ge {f : Fifo} {q : List UInt8} (hrep : Rep f q) : q.length ≤ sub32 f.tail f.head := by
  have ht := hrep.tail_lt
  have hh := hrep.head_lt
  have h32 := hrep.size_lt
  by_cases hle : f.head ≤ f.tail
  · rw [sub32_of_le hle (by omega)]
    exact Nat.le_of_eq (hrep.holds.length_of_le hle)
  · have hq := hrep.holds.length_of_lt (by omega : f.tail < f.head)
    rw [hrep.buf_length] at hq
    rw [sub32_of_lt (by omega) (by omega), hq]
    omega

theorem Got.move {c : ReadCall} {cur : List UInt8} {n : Nat} (h : Got c cur n) (i : Nat) :
    Got { c with i := i } cur n := ⟨h.length_eq, h.le_sz, h.data⟩

/-- Storing the next byte into the caller's buffer. -/
theorem Got.store {c : ReadCall} {cur : List UInt8} {n : Nat} (h : Got c cur n) (hn : n < c.sz)
    (x : UInt8) :
    Got { c with data := c.data.map fun d => d.set n x } (cur ++ [x]) (n + 1) where
  length_eq := by rw [List.length_append, h.length_eq, List.length_singleton]
  le_sz := hn
  data := by
    intro d hd
    obtain ⟨d0, hd0, rfl⟩ := Option.map_eq_some_iff.mp hd
    obtain ⟨hlen, htake⟩ := h.data d0 hd0
    refine ⟨by rw [List.length_set]; exact hlen, ?_⟩
    rw [List.take_succ_eq_append_getElem (by rw [List.length_set]; omega),
      List.getElem_set_self, List.take_set_of_le (Nat.le_refl n), htake]

theorem afterRead_inv {s : ReadState} {past cur q : List UInt8} {rd : Nat}
    (hl : Ledger s past cur q) (hh : s.sd.rxfifo.head < s.sd.rxfifo.size)
    (hgot : Got s.call cur (s.call.i + rd)) : ReadInv (s.afterRead rd) := by
  rw [ReadState.afterRead]
  split
  · exact ⟨past, cur, q, ⟨hl.deq_eq, hl.enq_eq, hl.rep, hl.accounts⟩, hh, hgot.move _⟩
  · exact ⟨past, cur, q, ⟨hl.deq_eq, hl.enq_eq, hl.rep, hl.accounts⟩, hh, hgot⟩

theorem afterByte_inv {s : ReadState} {past cur q : List UInt8} {rd k : Nat}
    (hl : Ledger s past cur q) (hh : s.sd.rxfifo.head < s.sd.rxfifo.size)
    (hmov : Moving s.call cur q rd (k + 1)) (hk : k < rd) : ReadInv (s.afterByte rd k) := by
  rw [ReadState.afterByte]
  split
  · next hlt =>
    exact ⟨past, cur, q, ⟨hl.deq_eq, hl.enq_eq, hl.rep, hl.accounts⟩, hh, hmov, hlt⟩
  · next hge =>
    have hrd : k + 1 = rd := by omega
    exact afterRead_inv hl hh (hrd ▸ hmov.got)

theorem loopTest_inv {s : ReadState} {past cur q : List UInt8} (hl : Ledger s past cur q)
    (hh : s.sd.rxfifo.head < s.sd.rxfifo.size) (hgot : Got s.call cur s.call.i) :
    ReadInv s.loopTest := by
  rw [ReadState.loopTest]
  split
  · next hi =>
    exact ⟨past, cur, q, ⟨hl.deq_eq, hl.enq_eq, hl.rep, hl.accounts⟩, hh, hgot, hi, trivial⟩
  · exact ⟨past, cur, q, ⟨hl.deq_eq, hl.enq_eq, hl.rep, hl.accounts⟩, hh, hgot⟩

theorem finish_inv {s : ReadState} {past cur q : List UInt8} (hl : Ledger s past cur q)
    (hh : s.sd.rxfifo.head < s.sd.rxfifo.size) (hgot : Got s.call cur s.call.i) :
    ReadInv s.finish := by
  refine ⟨past ++ cur, [], q, ⟨?_, ?_, hl.rep, ?_⟩, hh, rfl⟩
  · rw [List.append_nil]
    exact hl.deq_eq
  · rw [List.append_nil]
    exact hl.enq_eq
  · refine hl.accounts.snoc hgot.length_eq.symm fun d hd => ?_
    obtain ⟨d0, hd0, rfl⟩ := Option.map_eq_some_iff.mp hd
    exact (hgot.data d0 hd0).2

/-- Counting before a round: the guard keeps the count from being torn. -/
theorem used_inv {s t : ReadState} {past : Bool} {done cur q : List UInt8} {u : UsedPc}
    (hl : Ledger s done cur q) (hpc : PcInv s cur q) (hs : s.pc = .used u)
    (hG : NoTornCount s (.main past)) (hstep : s.mainStep past = some t) : ReadInv t := by
  rw [ReadState.mainStep] at hstep
  simp only [hs, PcInv] at hstep hpc
  obtain ⟨hh, hgot, hi, hu⟩ := hpc
  have hrep := hl.rep
  rw [Fifo.norm_of_lt hh] at hrep
  have hcount := fifoGetused_eq hrep
  -- the guard is used here, and only here
  have htorn : u = .leTail → (sub32 s.sd.rxfifo.tail s.sd.rxfifo.head ≤ q.length ∨
      s.call.sz - s.call.i ≤ q.length) := by
    intro hle
    rcases hG (hle ▸ hs) with hord | hwant
    · left
      rw [sub32_of_le hord (by have := hrep.tail_lt; have := hrep.size_lt; omega)]
      exact Nat.le_of_eq (hrep.holds.length_of_le hord).symm
    · exact Or.inr (hcount ▸ hwant)
  obtain ⟨hnext, hval⟩ := usedStep_inv hrep hu htorn (Or.inl (Nat.le_refl _))
  cases hstp : usedStep s.sd.rxfifo u with
  | inl u' =>
      simp only [hstp, Option.some.injEq] at hstep
      subst hstep
      exact ⟨done, cur, q, ⟨hl.deq_eq, hl.enq_eq, hl.rep, hl.accounts⟩, hh, hgot, hi,
        hnext u' hstp⟩
  | inr n =>
      have hn := hval n hstp
      simp only [hstp, Option.some.injEq] at hstep
      subst hstep
      -- rd_sz is capped by the request, so it never exceeds the contents
      have hrd : (if n > s.call.sz - s.call.i then s.call.sz - s.call.i else n) ≤ q.length ∧
          (if n > s.call.sz - s.call.i then s.call.sz - s.call.i else n)
            ≤ s.call.sz - s.call.i := by
        split <;> omega
      generalize (if n > s.call.sz - s.call.i then s.call.sz - s.call.i else n) = rd at hrd ⊢
      split
      · next hne =>
        refine ⟨done, cur, q, ⟨hl.deq_eq, hl.enq_eq, hl.rep, hl.accounts⟩, hh,
          ⟨hgot, ?_, ?_⟩, ?_, trivial⟩
        · show s.call.i + rd ≤ s.call.sz
          omega
        · exact hrd.1
        · omega
      · exact ⟨done, cur, q, ⟨hl.deq_eq, hl.enq_eq, hl.rep, hl.accounts⟩, hh, hgot⟩

/-- Counting inside `fifo_read`, of no more bytes than are there. -/
theorem readUsed_inv {s t : ReadState} {past : Bool} {done cur q : List UInt8} {rd : Nat}
    {u : UsedPc} (hl : Ledger s done cur q) (hpc : PcInv s cur q) (hs : s.pc = .readUsed rd u)
    (hstep : s.mainStep past = some t) : ReadInv t := by
  rw [ReadState.mainStep] at hstep
  simp only [hs, PcInv] at hstep hpc
  obtain ⟨hh, hmov, hrd, hu⟩ := hpc
  have hrep := hl.rep
  rw [Fifo.norm_of_lt hh] at hrep
  have havail : rd ≤ q.length := hmov.avail
  obtain ⟨hnext, hval⟩ := usedStep_inv hrep hu
    (fun _ => Nat.le_trans havail (torn_ge hrep)) havail
  cases hstp : usedStep s.sd.rxfifo u with
  | inl u' =>
      simp only [hstp, Option.some.injEq] at hstep
      subst hstep
      exact ⟨done, cur, q, ⟨hl.deq_eq, hl.enq_eq, hl.rep, hl.accounts⟩, hh, hmov, hrd,
        hnext u' hstp⟩
  | inr n =>
      have hn : rd ≤ n := hval n hstp
      simp only [hstp, Option.some.injEq, if_neg (by omega : ¬ n < rd)] at hstep
      subst hstep
      exact ⟨done, cur, q, ⟨hl.deq_eq, hl.enq_eq, hl.rep, hl.accounts⟩, hh, hmov, hrd⟩

/-- Wrapping `head`, which is at the end of the buffer. -/
theorem byteWrap_inv {s t : ReadState} {past : Bool} {done cur q : List UInt8} {rd k : Nat}
    (hl : Ledger s done cur q) (hpc : PcInv s cur q) (hs : s.pc = .byteWrap rd k)
    (hstep : s.mainStep past = some t) : ReadInv t := by
  rw [ReadState.mainStep] at hstep
  simp only [hs, PcInv, Option.some.injEq] at hstep hpc
  obtain ⟨hh, hmov, hk⟩ := hpc
  subst hstep
  have hpos : 0 < s.sd.rxfifo.size := by
    have := hl.rep.length_lt
    rw [Fifo.norm_size] at this
    omega
  have hnorm : s.sd.rxfifo.norm = { s.sd.rxfifo with head := 0 } := by
    rw [Fifo.norm, if_pos (by omega)]
  have hrep := hl.rep
  rw [hnorm] at hrep
  refine afterByte_inv ⟨hl.deq_eq, hl.enq_eq, ?_, hl.accounts⟩ hpos hmov hk
  rw [Fifo.norm_of_lt hpos]
  exact hrep

/-- The step that takes a byte out: the FIFO, once wrapped, has lost its
    oldest byte, and the call has it. -/
theorem byteStore_inv {s : ReadState} {past cur q : List UInt8} {rd k : Nat}
    (hl : Ledger s past cur q) (hh : s.sd.rxfifo.head < s.sd.rxfifo.size)
    (hmov : Moving s.call cur q rd k) (hk : k < rd) :
    ReadInv (s.storeByte rd k s.sd.rxfifo.head) := by
  have hrep := hl.rep
  rw [Fifo.norm_of_lt hh] at hrep
  have h32 := hrep.size_lt
  -- the queue has a byte for every one the call still counts on
  cases q with
  | nil =>
      have havail := hmov.avail
      simp only [List.length_nil] at havail
      omega
  | cons x q =>
      obtain ⟨hx, hpop⟩ := fifoReadByte_rep hrep
      rw [fifoReadByte_byte] at hx
      have hnorm : (fifoReadByte s.sd.rxfifo).2
          = ({ s.sd.rxfifo with head := u32 (s.sd.rxfifo.head + 1) } : Fifo).norm := by
        simp only [fifoReadByte, Fifo.norm]
        split <;> rfl
      rw [hnorm] at hpop
      simp only [ReadState.storeByte, hx]
      have hfits := hmov.fits
      have havail := hmov.avail
      rw [List.length_cons] at havail
      refine ⟨past, cur ++ [x], q, ⟨?_, ?_, hpop, hl.accounts⟩, ?_, ⟨?_, hfits, ?_⟩, hk⟩
      · simp only [hl.deq_eq, List.append_assoc]
      · simp only [hl.enq_eq, List.append_assoc, List.singleton_append]
      · show u32 (s.sd.rxfifo.head + 1) ≤ s.sd.rxfifo.size
        rw [u32_of_lt (by omega)]
        omega
      · exact hmov.got.store (by omega) x
      · omega

theorem main_inv {s t : ReadState} {past : Bool} (h : ReadInv s)
    (hG : NoTornCount s (.main past)) (hstep : s.step (.main past) = some t) : ReadInv t := by
  obtain ⟨done, cur, q, hl, hpc⟩ := h
  rw [ReadState.step] at hstep
  -- one case for each place of the main program; those that take several
  -- reads have lemmas of their own
  cases hs : s.pc with
  | idle =>
      simp only [ReadState.mainStep, hs] at hstep
      cases hstep
  | used u => exact used_inv hl hpc hs hG hstep
  | readUsed rd u => exact readUsed_inv hl hpc hs hstep
  | byteHead rd k =>
      simp only [ReadState.mainStep, hs, PcInv, Option.some.injEq] at hstep hpc
      subst hstep
      obtain ⟨hh, hmov, hk⟩ := hpc
      exact ⟨done, cur, q, ⟨hl.deq_eq, hl.enq_eq, hl.rep, hl.accounts⟩, hh, hmov, hk, rfl⟩
  | byteStore rd k h =>
      simp only [ReadState.mainStep, hs, PcInv, Option.some.injEq] at hstep hpc
      obtain ⟨hh, hmov, hk, rfl⟩ := hpc
      subst hstep
      exact byteStore_inv hl hh hmov hk
  | byteTest rd k =>
      simp only [ReadState.mainStep, hs, PcInv, Option.some.injEq] at hstep hpc
      obtain ⟨hh, hmov, hk⟩ := hpc
      subst hstep
      split
      · next hge =>
        exact ⟨done, cur, q, ⟨hl.deq_eq, hl.enq_eq, hl.rep, hl.accounts⟩,
          Nat.le_antisymm hh hge, hmov, hk⟩
      · next hlt => exact afterByte_inv hl (by omega) hmov hk
  | byteWrap rd k => exact byteWrap_inv hl hpc hs hstep
  | flow rd m u =>
      simp only [ReadState.mainStep, hs, PcInv] at hstep hpc
      obtain ⟨hh, hgot⟩ := hpc
      cases hstp : usedStep s.sd.rxfifo u with
      | inl u' =>
          simp only [hstp, Option.some.injEq] at hstep
          subst hstep
          exact ⟨done, cur, q, ⟨hl.deq_eq, hl.enq_eq, hl.rep, hl.accounts⟩, hh, hgot⟩
      | inr n =>
          simp only [hstp, Option.some.injEq] at hstep
          subst hstep
          refine ⟨done, cur, q, ⟨hl.deq_eq, hl.enq_eq, ?_, hl.accounts⟩, ?_, hgot.move _⟩
          · simpa [ReadState.advance] using hl.rep
          · simpa [ReadState.advance] using hh
  | check =>
      simp only [ReadState.mainStep, hs, PcInv, Option.some.injEq] at hstep hpc
      obtain ⟨hh, hgot⟩ := hpc
      subst hstep
      split
      · exact ⟨done, cur, q, ⟨hl.deq_eq, hl.enq_eq, hl.rep, hl.accounts⟩, hh, hgot⟩
      · split
        · exact ⟨done, cur, q, ⟨hl.deq_eq, hl.enq_eq, hl.rep, hl.accounts⟩, hh, hgot⟩
        · exact loopTest_inv hl hh hgot
  | leave =>
      simp only [ReadState.mainStep, hs, PcInv, Option.some.injEq] at hstep hpc
      obtain ⟨hh, hgot⟩ := hpc
      subst hstep
      exact finish_inv hl hh hgot

theorem call_inv {s t : ReadState} {data : Option (List UInt8)} {sz timeout : Nat}
    (h : ReadInv s) (hstep : s.step (.call data sz timeout) = some t) : ReadInv t := by
  obtain ⟨past, cur, q, hl, hpc⟩ := h
  rw [ReadState.step] at hstep
  split at hstep
  · next hcall =>
    simp only [Option.some.injEq] at hstep
    subst hstep
    simp only [PcInv, hcall.1] at hpc
    obtain ⟨hh, rfl⟩ := hpc
    refine loopTest_inv ⟨hl.deq_eq, hl.enq_eq, hl.rep, hl.accounts⟩ hh ⟨rfl, Nat.zero_le _, ?_⟩
    intro d hd
    exact ⟨hcall.2 d hd, rfl⟩
  · cases hstep

/-- One event keeps the invariant. -/
theorem read_step_inv (s : ReadState) (e : ReadEvent) (t : ReadState) (h : ReadInv s)
    (hG : NoTornCount s e) (hstep : s.step e = some t) : ReadInv t := by
  cases e with
  | call data sz timeout => exact call_inv h hstep
  | main past => exact main_inv h hG hstep
  | isr b => exact isr_inv h hstep

theorem readInit_inv {cfg fifoLow sz : Nat} {mcrVal inStatus : UInt8} {mem : List UInt8}
    (hsz : 1 ≤ sz) (h32 : sz < 2 ^ 32) (hmem : mem.length = sz) :
    ReadInv (readInit cfg fifoLow mcrVal inStatus mem sz) := by
  have hrep := fifoInit_rep hsz h32 hmem
  have hhead : (fifoInit mem sz).head < (fifoInit mem sz).size := hrep.head_lt
  refine ⟨[], [], [], ⟨rfl, rfl, ?_, rfl⟩, hhead, rfl⟩
  show Rep (fifoInit mem sz).norm []
  rw [Fifo.norm_of_lt hhead]
  exact hrep

/-- From a fresh FIFO of any size, along every interleaving of calls, steps
    and interrupts in which the count is never torn, the calls deliver what
    the handler enqueued. -/
theorem serialRead_delivers (cfg fifoLow sz : Nat) (mcrVal inStatus : UInt8) (mem : List UInt8)
    (hsz : 1 ≤ sz) (h32 : sz < 2 ^ 32) (hmem : mem.length = sz) (es : List ReadEvent)
    (s : ReadState)
    (hG : readMachine.Along NoTornCount (readInit cfg fifoLow mcrVal inStatus mem sz) es)
    (hrun : readMachine.run (readInit cfg fifoLow mcrVal inStatus mem sz) es = some s) :
    Delivered s :=
  ReadInv.delivered
    (Machine.run_invariant_along read_step_inv (readInit_inv hsz h32 hmem) hG hrun)

/-- The theorem at one call for two bytes that arrive before it, and a third
    that interrupts it. -/
theorem serialRead_delivers_two :
    let es := [.isr 5, .isr 6, .call (some [0, 0]) 2 0] ++ List.replicate 9 (.main false) ++
      [.isr 7] ++ List.replicate 7 (.main false)
    ∃ s, readMachine.run (readInit 0 12 0 0 (List.replicate 16 0) 16) es = some s ∧
      s.rets = [⟨2, some [5, 6]⟩] ∧ Delivered s := by
  intro es
  have hrets : (readMachine.run (readInit 0 12 0 0 (List.replicate 16 0) 16) es).map
      ReadState.rets = some [⟨2, some [5, 6]⟩] := by decide +kernel
  obtain ⟨s, hs, hr⟩ := Option.map_eq_some_iff.mp hrets
  exact ⟨s, hs, hr, serialRead_delivers 0 12 16 0 0 (List.replicate 16 0) (by decide)
    (by decide) (by decide) es s (by decide +kernel) hs⟩

/-- The unconditional statement fails: a FIFO of 16 bytes whose indices stand
    at 15; the first byte of a request for two arrives between the two reads
    of `tail`.  The call reports two bytes, and none was taken out. -/
theorem serialRead_phantom :
    ¬ ∀ (es : List ReadEvent) (s : ReadState),
      readMachine.run (readInit 0 12 0 0 (List.replicate 16 0) 16) es = some s →
        Delivered s := by
  intro hall
  let es : List ReadEvent := List.replicate 15 (.isr 7) ++
    .call none 15 0 :: List.replicate 55 (.main false) ++
    .call (some [0, 0]) 2 0 :: List.replicate 2 (.main false) ++
    .isr 9 :: List.replicate 8 (.main false)
  have hrun : (readMachine.run (readInit 0 12 0 0 (List.replicate 16 0) 16) es).map
      (fun s => (s.rets, s.deq))
      = some ([⟨15, none⟩, ⟨2, some [0, 0]⟩], List.replicate 15 7) := by decide +kernel
  obtain ⟨s, hs, hobs⟩ := Option.map_eq_some_iff.mp hrun
  obtain ⟨hrets, hdeq⟩ := Prod.mk.inj hobs
  obtain ⟨past, cur, q, hd, -, -, hacc, -⟩ := hall es s hs
  rw [hrets] at hacc
  obtain ⟨h15, -, h2, -⟩ := hacc
  have hlen : past.length ≤ 15 := by
    have hpre := congrArg List.length (hdeq.symm.trans hd)
    simp only [List.length_replicate, List.length_append] at hpre
    omega
  simp only [List.length_drop] at h15 h2
  omega

end LBoot.Io
