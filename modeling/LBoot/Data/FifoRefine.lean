/-
  LBoot.Data.FifoRefine

  The FIFO refines a bounded queue.

  The abstract side is `BoundedQueue UInt8 cap`: a write is `enqueue`, a read
  is `dequeue`, and a call that the queue refuses answers `-1` and changes
  nothing.  `Sim` relates a FIFO of `cap + 1` bytes to such a queue; one call
  keeps it and answers the same on both sides (`fifoCall_sim`), and so does a
  run of calls of any length (`fifoRun_sim`).
-/

import LBoot.Lib.BoundedQueue
import LBoot.Data.Fifo

namespace LBoot.Data

open LBoot.Lib

/-- A call of the FIFO interface. -/
inductive FifoCall where
  | write (data : List UInt8)
  | read (buf : Option (List UInt8)) (sz : Nat)
  deriving DecidableEq, Repr

/-- What the caller sees of a call: the result code and, for a read, its
    destination buffer. -/
structure FifoResult where
  ret : Int
  buf : Option (List UInt8)
  deriving DecidableEq, Repr

/-- One call on the FIFO. -/
def fifoCall (f : Fifo) : FifoCall → FifoResult × Fifo
  | .write data =>
      let (ret, f') := fifoWrite f data
      (⟨ret, none⟩, f')
  | .read buf sz =>
      let (ret, buf', f') := fifoRead f buf sz
      (⟨ret, buf'⟩, f')

/-- The same call on a bounded queue. -/
def queueCall {cap : Nat} (q : BoundedQueue UInt8 cap) :
    FifoCall → FifoResult × BoundedQueue UInt8 cap
  | .write data =>
      match q.enqueue data with
      | some q' => (⟨0, none⟩, q')
      | none => (⟨-1, none⟩, q)
  | .read buf sz =>
      match q.dequeue sz with
      | some (bs, q') => (⟨0, buf.map fun dst => splice dst 0 bs⟩, q')
      | none => (⟨-1, buf⟩, q)

/-- The results of a list of calls, in order, and the state after them. -/
def runCalls {σ : Type} (call : σ → FifoCall → FifoResult × σ) :
    σ → List FifoCall → List FifoResult × σ
  | s, [] => ([], s)
  | s, c :: cs =>
      let (r, s') := call s c
      let (rs, t) := runCalls call s' cs
      (r :: rs, t)

/-- The simulation relation: the FIFO has one byte more than the queue's
    capacity and holds its contents. -/
def Sim {cap : Nat} (f : Fifo) (q : BoundedQueue UInt8 cap) : Prop :=
  f.size = cap + 1 ∧ Rep f q.contents

/-- One call answers the same on both sides and keeps the relation. -/
theorem fifoCall_sim {cap : Nat} {f : Fifo} {q : BoundedQueue UInt8 cap} (h : Sim f q)
    (c : FifoCall) :
    (fifoCall f c).1 = (queueCall q c).1 ∧ Sim (fifoCall f c).2 (queueCall q c).2 := by
  obtain ⟨hsize, hrep⟩ := h
  -- one cell of the buffer stays empty, so the queue has `size - 1` places
  have hfree : q.free = f.size - 1 - q.contents.length := by
    unfold BoundedQueue.free
    omega
  cases c with
  | write data =>
      by_cases hfit : data.length ≤ q.free
      · obtain ⟨hret, hrep'⟩ := fifoWrite_fits hrep (hfree ▸ hfit)
        obtain ⟨q', hq, hcont⟩ := BoundedQueue.enqueue_fits hfit
        simp only [fifoCall, queueCall, hq, hret]
        exact ⟨trivial, by rw [fifoWrite_size, hsize], hcont ▸ hrep'⟩
      · have hfull : q.free < data.length := by omega
        simp only [fifoCall, queueCall, BoundedQueue.enqueue_full hfull,
          fifoWrite_full hrep (hfree ▸ hfull)]
        exact ⟨trivial, hsize, hrep⟩
  | read buf sz =>
      by_cases hsz : sz ≤ q.contents.length
      · obtain ⟨hret, hbuf, hrep'⟩ := fifoRead_avail hrep hsz buf
        obtain ⟨q', hq, hcont⟩ := BoundedQueue.dequeue_avail hsz
        simp only [fifoCall, queueCall, hq, hret, hbuf]
        exact ⟨trivial, by rw [fifoRead_size, hsize], hcont ▸ hrep'⟩
      · have hshort : q.contents.length < sz := by omega
        simp only [fifoCall, queueCall, BoundedQueue.dequeue_short hshort,
          fifoRead_short hrep hshort]
        exact ⟨trivial, hsize, hrep⟩

/-- A run of calls answers the same on both sides and keeps the relation. -/
theorem fifoRun_sim {cap : Nat} (calls : List FifoCall) :
    ∀ {f : Fifo} {q : BoundedQueue UInt8 cap}, Sim f q →
      (runCalls fifoCall f calls).1 = (runCalls queueCall q calls).1 ∧
      Sim (runCalls fifoCall f calls).2 (runCalls queueCall q calls).2 := by
  induction calls with
  | nil =>
      intro f q h
      exact ⟨rfl, h⟩
  | cons c cs ih =>
      intro f q h
      obtain ⟨hres, hsim⟩ := fifoCall_sim h c
      obtain ⟨hress, hsims⟩ := ih hsim
      exact ⟨by simp only [runCalls, hres, hress], hsims⟩

/-- A fresh FIFO simulates the empty queue. -/
theorem fifoInit_sim {mem : List UInt8} {sz : Nat} (hsz : 1 ≤ sz) (h32 : sz < 2 ^ 32)
    (hmem : mem.length = sz) :
    Sim (fifoInit mem sz) (BoundedQueue.empty : BoundedQueue UInt8 (sz - 1)) :=
  ⟨by simp only [fifoInit]; omega, fifoInit_rep hsz h32 hmem⟩

/-- A call that fails leaves the FIFO and the destination buffer as they were. -/
theorem fifoCall_fail {f : Fifo} {q : List UInt8} (h : Rep f q) {c : FifoCall}
    (hret : (fifoCall f c).1.ret ≠ 0) :
    (fifoCall f c).2 = f ∧ ∀ buf sz, c = .read buf sz → (fifoCall f c).1.buf = buf := by
  cases c with
  | write data =>
      by_cases hfit : data.length ≤ f.size - 1 - q.length
      · exact absurd (fifoWrite_fits h hfit).1 hret
      · have hfull : f.size - 1 - q.length < data.length := by omega
        simp only [fifoCall, fifoWrite_full h hfull]
        exact ⟨trivial, by simp⟩
  | read buf sz =>
      by_cases hsz : sz ≤ q.length
      · exact absurd (fifoRead_avail h hsz buf).1 hret
      · have hshort : q.length < sz := by omega
        simp only [fifoCall, fifoRead_short h hshort]
        exact ⟨trivial, by rintro _ _ ⟨⟩; rfl⟩

/-- After any sequence of calls on a fresh FIFO of `sz` bytes: every call has
    answered as the queue of capacity `sz - 1` does, the contents are those of
    the queue, the two counts are its length and its room, and any call that
    fails there changes nothing. -/
theorem fifo_refines_boundedQueue (mem : List UInt8) (sz : Nat) (hsz : 1 ≤ sz)
    (h32 : sz < 2 ^ 32) (hmem : mem.length = sz) (calls : List FifoCall) :
    let conc := runCalls fifoCall (fifoInit mem sz) calls
    let abst := runCalls queueCall (BoundedQueue.empty : BoundedQueue UInt8 (sz - 1)) calls
    conc.1 = abst.1 ∧
      Rep conc.2 abst.2.contents ∧
      fifoGetused conc.2 = abst.2.contents.length ∧
      fifoGetfree conc.2 + fifoGetused conc.2 = sz - 1 ∧
      ∀ c : FifoCall, (fifoCall conc.2 c).1.ret ≠ 0 →
        (fifoCall conc.2 c).2 = conc.2 ∧
          ∀ buf n, c = .read buf n → (fifoCall conc.2 c).1.buf = buf := by
  intro conc abst
  obtain ⟨hres, hsize, hrep⟩ := fifoRun_sim calls (fifoInit_sim hsz h32 hmem)
  have hused : fifoGetused conc.2 = abst.2.contents.length := fifoGetused_eq hrep
  have hfree : fifoGetfree conc.2 = conc.2.size - 1 - abst.2.contents.length :=
    fifoGetfree_eq hrep
  have hlt : abst.2.contents.length < conc.2.size := hrep.length_lt
  have hcap : conc.2.size = sz - 1 + 1 := hsize
  refine ⟨hres, hrep, hused, ?_, fun c hret => fifoCall_fail hrep hret⟩
  rw [hused, hfree]
  omega

/-- The theorem at a FIFO of four bytes whose indices wrap. -/
theorem fifo_refines_boundedQueue_four :
    let calls := [.write [1, 2, 3], .read none 2, .write [4, 5], .read (some [0, 0, 0]) 3]
    let conc := runCalls fifoCall (fifoInit [0, 0, 0, 0] 4) calls
    conc.1 = (runCalls queueCall (BoundedQueue.empty : BoundedQueue UInt8 3) calls).1 ∧
      conc.1.getLast? = some ⟨0, some [3, 4, 5]⟩ :=
  ⟨(fifo_refines_boundedQueue [0, 0, 0, 0] 4 (by decide) (by decide) rfl _).1, by decide⟩

end LBoot.Data
