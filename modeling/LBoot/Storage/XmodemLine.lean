/-
  LBoot.Storage.XmodemLine

  The XMODEM receiver against a stop-and-wait sender on a lossy line.

  The sender transmits block `n` until it sees an ACK for it, then goes on to
  the next, and after the last one to the end of transmission.  Each time the
  script says what becomes of the packet (it arrives intact, is cut short
  anywhere, or arrives with other data that the checksum does not match) and
  whether the receiver's answer gets back.

  A block whose ACK was lost comes again, and the receiver reads it again over
  the last block: it rewinds the offset first.  If that retransmission is then
  rejected, the offset stays behind and the next one rewinds it once more,
  over the block before (`xmodemRx_loses_block`).  Only the first block is
  safe, because an offset of zero is not rewound.

  Along every run without such a retransmission the file is delivered
  (`xmodemRx_delivers`).  The invariant follows the two counts that matter:
  the blocks accepted and the blocks in the buffer in front of the offset.
-/

import LBoot.Storage.Xmodem

namespace LBoot.Storage

open LBoot.Lib

/-! ## The sender and the line -/

/-- What the sender sends: the blocks of a file, and the checksum bytes it
    puts behind each. -/
structure Sender (ty : ChksumType) where
  blocks : List (List UInt8)
  trailer : List UInt8 → List UInt8
  len_block : ∀ b ∈ blocks, b.length = 128 ∨ b.length = 1024
  len_trailer : ∀ b, (trailer b).length = ty.len

/-- What becomes of one packet. -/
inductive Fault where
  | intact
  /-- only the first so many bytes arrive; none of them if the packet is lost -/
  | cut (len : Nat)
  /-- the header arrives with this payload and these checksum bytes -/
  | garbled (data chk : List UInt8)
  deriving DecidableEq, Repr

structure Attempt where
  fault : Fault
  /-- the answer does not reach the sender -/
  replyLost : Bool
  deriving DecidableEq, Repr

structure Line where
  /-- the block the sender is at, counted from zero -/
  n : Nat
  /-- the receiver has acknowledged it, and the ACK was lost -/
  acked : Bool
  /-- the sender is about to transmit -/
  due : Bool
  /-- bytes that have arrived and are not yet read -/
  pending : List UInt8
  /-- what becomes of the next answer -/
  replyLost : Bool
  /-- what becomes of the next packets; behind its end nothing goes wrong -/
  script : List Attempt
  deriving DecidableEq, Repr

/-- The line before the transfer. -/
def Line.init (script : List Attempt) : Line := ⟨0, false, false, [], false, script⟩

namespace Sender

variable {ty : ChksumType}

/-- The file: all blocks in order. -/
def file (F : Sender ty) : List UInt8 := F.blocks.flatten

/-- The first `k` blocks. -/
def sent (F : Sender ty) (k : Nat) : List UInt8 := (F.blocks.take k).flatten

/-- The header of block `n`, a block of these bytes: numbers start at one and
    wrap modulo 256. -/
def header (n : Nat) (b : List UInt8) : List UInt8 :=
  [if b.length = 128 then xmodemCharHead else xmodemCharHead1k,
    UInt8.ofNat (n + 1), 255 - UInt8.ofNat (n + 1)]

/-- The packet for block `n`; behind the last block, the end of transmission. -/
def packet (F : Sender ty) (n : Nat) : List UInt8 :=
  match F.blocks[n]? with
  | some b => header n b ++ b ++ F.trailer b
  | none => [xmodemCharEot]

/-- The attempt that is next. -/
def next (l : Line) : Attempt := l.script.headD ⟨.intact, false⟩

/-- What arrives of the next packet. -/
def arrival (F : Sender ty) (l : Line) : List UInt8 :=
  match (next l).fault with
  | .intact => F.packet l.n
  | .cut len => (F.packet l.n).take len
  | .garbled data chk => (F.packet l.n).take 3 ++ data ++ chk

/-- The sender transmits. -/
def transmit (F : Sender ty) (l : Line) : Line :=
  { l with
    due := false
    pending := l.pending ++ F.arrival l
    replyLost := (next l).replyLost
    script := l.script.tail }

/-- Bytes read off the line. -/
def take (l : Line) (n : Nat) : List UInt8 × Line :=
  (l.pending.take n, { l with pending := l.pending.drop n })

/-- The sender's reaction to one byte from the receiver: an ACK that arrives
    moves it on, and in any case it transmits (again). -/
def react (F : Sender ty) (l : Line) (c : UInt8) : Line :=
  let l := if c = xmodemCharAck ∧ l.n < F.blocks.length then
      (if l.replyLost then { l with acked := true } else { l with n := l.n + 1, acked := false })
    else l
  { l with due := true }

/-- The line as the receiver's device. -/
def dev (F : Sender ty) : Dev Line where
  read l n _ := take (if l.due then F.transmit l else l) n
  write l c := (true, F.react l c)
  read_le _ n _ := List.length_take_le n _

/-- What the line may do: a packet that arrives with other data has the length
    of the original and does not pass the checksum. -/
def Detected (F : Sender ty) (s : RxState Line) (_ : Unit) : Prop :=
  match (next s.dev).fault with
  | .garbled data chk => ∃ b, b ∈ F.blocks[s.dev.n]? ∧ data.length = b.length ∧
      chk.length = ty.len ∧ chksumMatches ty data chk = false
  | _ => True

instance (F : Sender ty) (s : RxState Line) (e : Unit) : Decidable (F.Detected s e) :=
  match h : (next s.dev).fault with
  | .garbled data chk =>
      decidable_of_iff (∃ b, b ∈ F.blocks[s.dev.n]? ∧ data.length = b.length ∧
        chk.length = ty.len ∧ chksumMatches ty data chk = false) (by simp only [Detected, h])
  | .intact | .cut _ => isTrue (by simp only [Detected, h])

/-- Condition on an iteration: a retransmission of a block already accepted,
    other than the first, is not rejected behind its header. -/
def NoBadResend (F : Sender ty) (s : RxState Line) (_ : Unit) : Prop :=
  s.dev.acked = true → s.dev.n ≠ 0 →
    F.arrival s.dev = F.packet s.dev.n ∨ (F.arrival s.dev).length < 3

instance (F : Sender ty) (s : RxState Line) (e : Unit) : Decidable (F.NoBadResend s e) :=
  inferInstanceAs (Decidable (_ → _ → _))

/-! ## The invariant -/

/-- The receiver has accepted `a` blocks; in front of its offset the buffer
    holds the first `k`. -/
structure Synced (F : Sender ty) (s : RxState Line) (a k : Nat) : Prop where
  chksumType : s.params.chksumType = ty
  startCh : s.params.startCh ≠ xmodemCharAck
  lastBlock : s.params.lastBlock = UInt8.ofNat a
  currOff : s.params.currOff = (F.sent k).length
  buff : loadAt s.fdata.buff 0 (F.sent k).length = F.sent k
  fits : F.file.length ≤ s.fdata.buffSz
  due : s.dev.due = true
  pending : s.dev.pending = []
  le_blocks : a ≤ F.blocks.length
  /-- the sender is at the block the receiver expects, or one behind; there
      only the first block may be missing from the buffer -/
  place : (s.dev.acked = false ∧ s.dev.n = a ∧ k = a) ∨
    (s.dev.acked = true ∧ s.dev.n + 1 = a ∧ (k = a ∨ s.dev.n = 0 ∧ k = 0))
  /-- an accepted block passes the checksum as it was sent -/
  passes : s.dev.acked = true → ∀ b, F.blocks[s.dev.n]? = some b →
    chksumMatches ty b (F.trailer b) = true

theorem sent_succ {F : Sender ty} {n : Nat} {b : List UInt8} (h : F.blocks[n]? = some b) :
    F.sent (n + 1) = F.sent n ++ b := by
  rw [sent, sent, List.take_add_one, h, List.flatten_append]
  simp only [Option.toList_some, List.flatten_singleton]

theorem sent_le_file (F : Sender ty) (k : Nat) : (F.sent k).length ≤ F.file.length := by
  rw [sent, file]
  conv_rhs => rw [← List.take_append_drop k F.blocks, List.flatten_append, List.length_append]
  exact Nat.le_add_right _ _

theorem sent_length (F : Sender ty) : F.sent F.blocks.length = F.file := by
  rw [sent, List.take_length, file]

theorem block_length {F : Sender ty} {n : Nat} {b : List UInt8} (h : F.blocks[n]? = some b) :
    b.length = 128 ∨ b.length = 1024 := F.len_block b (List.mem_of_getElem? h)

theorem packet_eq {F : Sender ty} {n : Nat} {b : List UInt8} (h : F.blocks[n]? = some b) :
    F.packet n = header n b ++ (b ++ F.trailer b) := by
  rw [packet, h]
  exact List.append_assoc _ _ _

/-- The packets for two blocks next to each other carry different numbers. -/
theorem ofNat_succ_ne (n : Nat) : UInt8.ofNat (n + 1) ≠ UInt8.ofNat n := by
  intro h
  have hnat := congrArg UInt8.toNat h
  rw [UInt8.toNat_ofNat', UInt8.toNat_ofNat'] at hnat
  omega

/-! ## The header -/

/-- The receiver takes the header of block `n` if it has accepted `n` blocks,
    or that block already. -/
theorem rxHead_header {F : Sender ty} {p : XmodemParams} {n a : Nat} {b : List UInt8}
    (hb : F.blocks[n]? = some b) (hlast : p.lastBlock = UInt8.ofNat a) (ha : a = n ∨ a = n + 1) :
    rxHead p (header n b) = ({ p with blockSz := b.length }, .ok (UInt8.ofNat (n + 1))) := by
  have hsz : headBlockSz (if b.length = 128 then xmodemCharHead else xmodemCharHead1k)
      = some b.length := by
    rcases block_length hb with h | h
    · rw [if_pos h, h]
      rfl
    · rw [if_neg (by omega), h]
      rfl
  have hinv : (UInt8.ofNat (n + 1)).toNat = 255 - (255 - UInt8.ofNat (n + 1)).toNat := by
    have hlt := (UInt8.ofNat (n + 1)).toNat_lt
    rw [UInt8.toNat_sub_of_le _ _ (by rw [UInt8.le_iff_toNat_le]; exact Nat.le_of_lt_succ hlt)]
    show _ = 255 - (255 - _)
    omega
  have heot : (if b.length = 128 then xmodemCharHead else xmodemCharHead1k) ≠ xmodemCharEot := by
    split <;> decide
  -- one of the two block numbers the receiver takes
  have hnum : ¬ (UInt8.ofNat (n + 1) ≠ p.lastBlock ∧ UInt8.ofNat (n + 1) ≠ p.lastBlock + 1) := by
    rintro ⟨hne, hne'⟩
    rcases ha with rfl | rfl
    · exact hne' (by rw [hlast, UInt8.ofNat_add]; rfl)
    · exact hne hlast.symm
  have hfirst : headBlockSz ((header n b).getD 0 0) = some b.length := hsz
  rw [rxHead, if_neg (fun h => heot h.2), if_neg (fun h => h rfl), hfirst]
  show (if (UInt8.ofNat (n + 1)).toNat ≠ 255 - (255 - UInt8.ofNat (n + 1)).toNat then _
    else if UInt8.ofNat (n + 1) ≠ p.lastBlock ∧ UInt8.ofNat (n + 1) ≠ p.lastBlock + 1 then _
    else _) = _
  rw [if_neg (by omega), if_neg hnum]
  rfl

/-- A header cut short is refused, and changes nothing. -/
theorem rxHead_short {p : XmodemParams} {head : List UInt8} (hlen : head.length < 3)
    (heot : head.getD 0 0 ≠ xmodemCharEot) :
    ∃ ret, rxHead p head = (p, .error ret) ∧ (ret = .timeout ∨ ret = .error) := by
  rw [rxHead, if_neg (fun h => heot h.2), if_pos (by omega)]
  refine ⟨_, rfl, ?_⟩
  split
  · exact Or.inl rfl
  · exact Or.inr rfl

/-! ## The payload -/

theorem dev_read {F : Sender ty} {l : Line} (hdue : l.due = false) (n t : Nat) :
    F.dev.read l n t = take l n := by
  show take (if l.due then F.transmit l else l) n = take l n
  rw [hdue]
  rfl

/-- The state in front of the payload of block `b`, to be read to `off`. -/
structure AtPayload (s : RxState Line) (ty : ChksumType) (len off : Nat) : Prop where
  chksumType : s.params.chksumType = ty
  blockSz : s.params.blockSz = len
  currOff : s.params.currOff = off
  fits : off + len ≤ s.fdata.buffSz
  due : s.dev.due = false

/-- The size check passes. -/
theorem AtPayload.size_check {s : RxState Line} {len off : Nat} (h : AtPayload s ty len off) :
    ¬ toU32 (s.params.currOff + s.params.blockSz) > s.fdata.buffSz := by
  have hmax := s.fdata.buffSz_le
  have hfits := h.fits
  rw [preallocationSize] at hmax
  rw [h.currOff, h.blockSz, toU32_of_nonneg (by omega) (by omega)]
  omega

/-- A payload that arrives whole and passes is stored and accepted. -/
theorem rxPayload_accept {F : Sender ty} {s : RxState Line} {b chk : List UInt8} {off : Nat}
    (h : AtPayload s ty b.length off) (block : UInt8) (hpend : s.dev.pending = b ++ chk)
    (hchk : chk.length = ty.len) (hpass : chksumMatches ty b chk = true) :
    ∃ reads, rxPayload F.dev s block = (.ok, { s with
      dev := { s.dev with pending := [] }
      fdata := { s.fdata with buff := storeAt s.fdata.buff off b }
      reads
      params := { s.params with currOff := (off + b.length : Nat), lastBlock := block } }) := by
  have hmax := s.fdata.buffSz_le
  have hfits := h.fits
  rw [preallocationSize] at hmax
  have hsum : s32 (s.params.currOff + s.params.blockSz) = (off + b.length : Nat) := by
    rw [h.currOff, h.blockSz, s32_of_range (by omega) (by omega)]
    rfl
  -- the read takes the block off the line, the checksum takes the rest
  have hread : F.dev.read s.dev s.params.blockSz s.params.timeout
      = (b, { s.dev with pending := chk }) := by
    rw [dev_read h.due, take, hpend, h.blockSz, List.take_left, List.drop_left]
  have hload : loadAt (storeAt s.fdata.buff s.params.currOff b) s.params.currOff
      s.params.blockSz = b := by
    rw [h.blockSz, loadAt_storeAt]
  have hsum' : xmodemChecksum F.dev { s.dev with pending := chk } s.params b
      = (true, { s.dev with pending := [] }) := by
    rw [xmodemChecksum, dev_read (l := { s.dev with pending := chk }) h.due, take, h.chksumType,
      ← hchk, List.take_length, List.drop_length]
    dsimp only
    rw [if_neg (fun hne => hne rfl), hpass]
  refine ⟨s.reads ++ [(s.params.currOff, s.params.blockSz)], ?_⟩
  rw [rxPayload, if_neg h.size_check, hread]
  dsimp only
  rw [if_neg (fun hne => hne h.blockSz.symm), hload, hsum']
  dsimp only
  rw [if_neg (fun hne => hne rfl), hsum, h.currOff]

/-- What arrives behind a header is too short for a block of `len` bytes and
    its checksum, or does not pass. -/
def Rejected (ty : ChksumType) (len : Nat) (rest : List UInt8) : Prop :=
  rest.length < len + ty.len ∨ ∃ data chk, rest = data ++ chk ∧ data.length = len ∧
    chk.length = ty.len ∧ chksumMatches ty data chk = false

/-- A payload that is rejected changes the buffer behind the offset only. -/
theorem rxPayload_reject {F : Sender ty} {s : RxState Line} {len off : Nat}
    (h : AtPayload s ty len off) (block : UInt8) (hrej : Rejected ty len s.dev.pending) :
    ∃ data reads, rxPayload F.dev s block = (.error, { s with
      dev := { s.dev with pending := [] }
      fdata := { s.fdata with buff := storeAt s.fdata.buff off data }
      reads }) := by
  have hread : F.dev.read s.dev s.params.blockSz s.params.timeout
      = (s.dev.pending.take len, { s.dev with pending := s.dev.pending.drop len }) := by
    rw [dev_read h.due, take, h.blockSz]
  refine ⟨s.dev.pending.take len, s.reads ++ [(s.params.currOff, s.params.blockSz)], ?_⟩
  rw [rxPayload, if_neg h.size_check, hread]
  dsimp only
  by_cases hfull : s.dev.pending.length < len
  · -- the payload itself is cut short
    rw [if_pos (by rw [List.length_take, h.blockSz]; omega), h.currOff,
      List.drop_eq_nil_of_le (Nat.le_of_lt hfull)]
  · have hlen : (s.dev.pending.take len).length = len := by
      rw [List.length_take]
      omega
    have hload : loadAt (storeAt s.fdata.buff s.params.currOff (s.dev.pending.take len))
        s.params.currOff s.params.blockSz = s.dev.pending.take len := by
      rw [h.blockSz]
      have hstore := loadAt_storeAt s.fdata.buff s.params.currOff (s.dev.pending.take len)
      rwa [hlen] at hstore
    have hfail : xmodemChecksum F.dev { s.dev with pending := s.dev.pending.drop len } s.params
        (s.dev.pending.take len) = (false, { s.dev with pending := [] }) := by
      rw [xmodemChecksum, dev_read (l := { s.dev with pending := s.dev.pending.drop len }) h.due,
        take, h.chksumType]
      dsimp only
      rcases hrej with hshort | ⟨data, chk, hcat, hdata, hchk, hno⟩
      · -- the checksum bytes are cut short
        rw [if_pos (by rw [List.length_take, List.length_drop]; omega), List.drop_drop,
          List.drop_eq_nil_of_le (by omega)]
      · rw [hcat, ← hdata, List.take_left, List.drop_left, ← hchk, List.take_length,
          List.drop_length, if_neg (fun hne => hne rfl), hno]
    rw [if_neg (by rw [hlen, h.blockSz]; exact fun hne => hne rfl), hload, hfail]
    dsimp only
    rw [if_pos Bool.false_ne_true, h.currOff]

/-! ## One iteration -/

/-- A sender not answered by an ACK transmits the same again. -/
theorem react_other {F : Sender ty} {l : Line} {c : UInt8} (hc : c ≠ xmodemCharAck) :
    F.react l c = { l with due := true } := by
  rw [react, if_neg (fun h => hc h.1)]

/-- An ACK is lost, or it moves the sender on to the next block. -/
theorem react_ack (F : Sender ty) (l : Line) (hn : l.n < F.blocks.length) :
    (F.react l xmodemCharAck).due = true ∧ (F.react l xmodemCharAck).pending = l.pending ∧
      (((F.react l xmodemCharAck).acked = true ∧ (F.react l xmodemCharAck).n = l.n) ∨
        ((F.react l xmodemCharAck).acked = false ∧ (F.react l xmodemCharAck).n = l.n + 1)) := by
  rw [react, if_pos ⟨rfl, hn⟩]
  cases l.replyLost with
  | true => exact ⟨rfl, rfl, Or.inl ⟨rfl, rfl⟩⟩
  | false => exact ⟨rfl, rfl, Or.inr ⟨rfl, rfl⟩⟩

/-- The loop body behind a packet that was refused and is off the line. -/
theorem rxBody_refused {F : Sender ty} {s t : RxState Line} {ret : RxRet}
    (h : xmodemRxPacket F.dev s = (ret, t)) (hret : ret = .timeout ∨ ret = .error)
    (hstart : t.params.startCh ≠ xmodemCharAck) (hdue : t.dev.due = false)
    (hpend : t.dev.pending = []) :
    rxBody F.dev s = { t with ret, dev := { t.dev with due := true } } := by
  have hpurge : (F.dev.read t.dev (t.params.blockSz * 4) 25).2 = t.dev := by
    rw [dev_read hdue, take, hpend, List.drop_nil]
    show { t.dev with pending := [] } = t.dev
    rw [← hpend]
  have hreply : ∀ c, c ≠ xmodemCharAck → rxReply F.dev { t with ret } c
      = { t with ret, dev := { t.dev with due := true } } := by
    intro c hc
    show { t with ret, dev := F.react t.dev c } = _
    rw [react_other hc]
  rw [rxBody, h]
  dsimp only
  -- a timeout is answered with NAK or, in front of the first block, with
  -- the start character; an error with NAK
  rcases hret with rfl | rfl
  · rw [if_pos (by decide), hpurge]
    show (if t.params.currOff ≠ 0 then rxReply F.dev { t with ret := .timeout } xmodemCharNak
      else rxReply F.dev { t with ret := .timeout } t.params.startCh) = _
    split
    · exact hreply _ (by decide)
    · exact hreply _ hstart
  · rw [if_pos (by decide), hpurge]
    exact hreply _ (by decide)

/-- The loop body behind a packet that was accepted. -/
theorem rxBody_accepted {F : Sender ty} {s t : RxState Line}
    (h : xmodemRxPacket F.dev s = (.ok, t)) :
    rxBody F.dev s = { t with ret := .ok, dev := F.react t.dev xmodemCharAck } := by
  rw [rxBody, h]
  rfl

/-- The invariant of the loop: the transfer goes on in step, or it has ended
    with the whole file in the buffer. -/
def LoopInv (F : Sender ty) (s : RxState Line) : Prop :=
  (s.looping ∧ ∃ a k, Synced F s a k) ∨
    (s.ret = .eot ∧ s.params.currOff = F.file.length ∧
      loadAt s.fdata.buff 0 F.file.length = F.file)

/-- The first read of an iteration makes the sender transmit. -/
theorem dev_read_due {F : Sender ty} {l : Line} (hdue : l.due = true) (hpend : l.pending = [])
    (n t : Nat) : F.dev.read l n t
      = ((F.arrival l).take n, { F.transmit l with pending := (F.arrival l).drop n }) := by
  show take (if l.due then F.transmit l else l) n = _
  rw [if_pos hdue, take]
  have htr : (F.transmit l).pending = F.arrival l := by
    rw [transmit, hpend]
    exact List.nil_append _
  rw [htr]

/-- What can arrive while the sender is at block `n`. -/
theorem arrival_block {F : Sender ty} {s : RxState Line} {b : List UInt8}
    (hb : F.blocks[s.dev.n]? = some b) (hD : F.Detected s ()) :
    ((F.arrival s.dev).length < 3 ∧ (F.arrival s.dev).getD 0 0 ≠ xmodemCharEot) ∨
      ∃ rest, F.arrival s.dev = header s.dev.n b ++ rest ∧
        (rest = b ++ F.trailer b ∨ Rejected ty b.length rest) := by
  rw [arrival, packet_eq hb]
  rw [Detected] at hD
  cases hf : (next s.dev).fault with
  | intact => exact Or.inr ⟨_, rfl, Or.inl rfl⟩
  | cut len =>
      dsimp only
      -- cut in the header, in the data or checksum, or not at all
      by_cases hlen : len < 3
      · left
        refine ⟨by rw [List.length_take]; omega, ?_⟩
        have hne : (if b.length = 128 then xmodemCharHead else xmodemCharHead1k)
            ≠ xmodemCharEot := by
          split <;> decide
        cases len with
        | zero => exact show (0 : UInt8) ≠ xmodemCharEot by decide
        | succ len => exact hne
      · right
        have h3 : (header s.dev.n b).length = 3 := rfl
        refine ⟨(b ++ F.trailer b).take (len - 3), ?_, ?_⟩
        · rw [List.take_append, h3, List.take_of_length_le (by omega)]
        · by_cases hall : (b ++ F.trailer b).length ≤ len - 3
          · exact Or.inl (List.take_of_length_le hall)
          · refine Or.inr (Or.inl ?_)
            rw [List.length_append, F.len_trailer] at hall
            rw [List.length_take, List.length_append, F.len_trailer]
            omega
  | garbled data chk =>
      rw [hf] at hD
      obtain ⟨b', hb', hdata, hchk, hno⟩ := hD
      rw [hb] at hb'
      cases hb'
      refine Or.inr ⟨data ++ chk, List.append_assoc (header s.dev.n b) data chk, ?_⟩
      exact Or.inr (Or.inr ⟨data, chk, rfl, hdata, hchk, hno⟩)

/-- What can arrive behind the last block. -/
theorem arrival_end {F : Sender ty} {s : RxState Line} (hb : F.blocks[s.dev.n]? = none)
    (hD : F.Detected s ()) : F.arrival s.dev = [] ∨ F.arrival s.dev = [xmodemCharEot] := by
  rw [arrival, packet, hb]
  rw [Detected] at hD
  cases hf : (next s.dev).fault with
  | intact => exact Or.inr rfl
  | cut len =>
      cases len with
      | zero => exact Or.inl rfl
      | succ len =>
          exact Or.inr (List.take_of_length_le (show [xmodemCharEot].length ≤ len + 1 by simp))
  | garbled data chk =>
      rw [hf] at hD
      obtain ⟨b, hb', -⟩ := hD
      rw [hb] at hb'
      cases hb'

namespace Synced

variable {F : Sender ty} {s : RxState Line} {a k : Nat}

theorem expected (h : Synced F s a k) : a = s.dev.n ∨ a = s.dev.n + 1 := by
  rcases h.place with ⟨-, hn, -⟩ | ⟨-, hn, -⟩ <;> omega

/-- Behind the header of block `n`, the offset is where that block belongs. -/
theorem rewind (h : Synced F s a k) {b : List UInt8} (hb : F.blocks[s.dev.n]? = some b) :
    rxRewind { s.params with blockSz := b.length } (UInt8.ofNat (s.dev.n + 1))
      = { s.params with blockSz := b.length, currOff := (F.sent s.dev.n).length } := by
  have hoff := h.currOff
  have hblk := block_length hb
  rw [rxRewind]
  dsimp only
  rcases h.place with ⟨-, hn, hk⟩ | ⟨-, hn, hk | ⟨hn0, hk0⟩⟩
  · -- a new block
    have hnum : UInt8.ofNat (s.dev.n + 1) ≠ s.params.lastBlock := by
      rw [h.lastBlock, ← hn]
      exact ofNat_succ_ne s.dev.n
    rw [if_neg (fun hd => hnum hd.2), hoff, hk, hn]
  · -- the last block once more: the offset goes back over it
    rw [hk, ← hn, sent_succ hb, List.length_append] at hoff
    have hfit := F.sent_le_file s.dev.n
    have hbuf := h.fits
    have hmax := s.fdata.buffSz_le
    rw [preallocationSize] at hmax
    rw [if_pos ⟨by omega, by rw [h.lastBlock, hn]⟩, hoff, s32_of_range (by omega) (by omega)]
    congr 1
    omega
  · -- the first block once more, after it was lost from the buffer
    rw [hk0] at hoff
    rw [if_neg (fun hd => hd.1 (by rw [hoff]; rfl)), hoff, hn0]

/-- The blocks in front of block `n` are in the buffer. -/
theorem buff_before (h : Synced F s a k) {b : List UInt8} (hb : F.blocks[s.dev.n]? = some b) :
    loadAt s.fdata.buff 0 (F.sent s.dev.n).length = F.sent s.dev.n := by
  have hbuff := h.buff
  rcases h.place with ⟨-, hn, hk⟩ | ⟨-, hn, hk | ⟨hn0, hk0⟩⟩
  · rw [hk, ← hn] at hbuff
    exact hbuff
  · rw [hk, ← hn, sent_succ hb, List.length_append, loadAt_append] at hbuff
    exact (List.append_inj hbuff (length_loadAt _ _ _)).1
  · rw [hk0, ← hn0] at hbuff
    exact hbuff

/-- A refused packet that leaves the parameters and the buffer alone. -/
theorem refused (h : Synced F s a k) (ret : RxRet) :
    Synced F { s with ret, dev := { F.transmit s.dev with pending := [], due := true } } a k where
  chksumType := h.chksumType
  startCh := h.startCh
  lastBlock := h.lastBlock
  currOff := h.currOff
  buff := h.buff
  fits := h.fits
  due := rfl
  pending := rfl
  le_blocks := h.le_blocks
  place := h.place
  passes := h.passes

end Synced

/-- A packet refused at its header. -/
theorem step_refused {F : Sender ty} {s : RxState Line} {a k : Nat} (h : Synced F s a k)
    (hlen : (F.arrival s.dev).length < 3) (heot : (F.arrival s.dev).getD 0 0 ≠ xmodemCharEot) :
    LoopInv F (rxBody F.dev s) := by
  obtain ⟨ret, hhead, hret⟩ := @rxHead_short s.params ((F.arrival s.dev).take 3)
    (by rw [List.length_take]; omega) (by rwa [List.take_of_length_le (by omega)])
  have hpkt : xmodemRxPacket F.dev s
      = (ret, { s with dev := { F.transmit s.dev with pending := [] } }) := by
    rw [xmodemRxPacket, dev_read_due h.due h.pending, List.drop_eq_nil_of_le (by omega)]
    dsimp only
    rw [hhead]
  rw [rxBody_refused hpkt hret h.startCh rfl rfl]
  refine Or.inl ⟨?_, a, k, h.refused ret⟩
  show ret ≠ .eot ∧ ret ≠ .fatal
  rcases hret with rfl | rfl <;> decide

/-- The end of transmission. -/
theorem step_eot {F : Sender ty} {s : RxState Line} {a k : Nat} (h : Synced F s a k)
    (hb : F.blocks[s.dev.n]? = none) (harr : F.arrival s.dev = [xmodemCharEot]) :
    LoopInv F (rxBody F.dev s) := by
  have hpkt : xmodemRxPacket F.dev s
      = (.eot, { s with dev := { F.transmit s.dev with pending := [] } }) := by
    rw [xmodemRxPacket, dev_read_due h.due h.pending, harr]
    rfl
  have hge : F.blocks.length ≤ s.dev.n := List.getElem?_eq_none_iff.mp hb
  have hle := h.le_blocks
  -- a sender behind the last block has seen every ACK
  have hk : k = F.blocks.length := by
    rcases h.place with ⟨-, hn, hk⟩ | ⟨-, hn, -⟩ <;> omega
  have hoff := h.currOff
  have hbuff := h.buff
  rw [hk, sent_length] at hoff hbuff
  rw [rxBody, hpkt]
  exact Or.inr ⟨rfl, hoff, hbuff⟩

/-- The receiver behind the header of block `n`, with `rest` on the line. -/
def atBlock (F : Sender ty) (s : RxState Line) (b rest : List UInt8) : RxState Line :=
  { s with
    dev := { F.transmit s.dev with pending := rest }
    params := { s.params with blockSz := b.length, currOff := (F.sent s.dev.n).length } }

/-- The header of block `n` leads to its payload. -/
theorem packet_payload {F : Sender ty} {s : RxState Line} {a k : Nat} {b rest : List UInt8}
    (h : Synced F s a k) (hb : F.blocks[s.dev.n]? = some b)
    (harr : F.arrival s.dev = header s.dev.n b ++ rest) :
    xmodemRxPacket F.dev s = rxPayload F.dev (F.atBlock s b rest) (UInt8.ofNat (s.dev.n + 1)) ∧
      AtPayload (F.atBlock s b rest) ty b.length (F.sent s.dev.n).length := by
  refine ⟨?_, h.chksumType, rfl, rfl, ?_, rfl⟩
  · have h3 : (header s.dev.n b).length = 3 := rfl
    rw [xmodemRxPacket, dev_read_due h.due h.pending, harr, ← h3, List.take_left, List.drop_left]
    dsimp only
    rw [rxHead_header hb h.lastBlock h.expected]
    dsimp only
    rw [h.rewind hb]
    rfl
  · have hfile := F.sent_le_file (s.dev.n + 1)
    rw [sent_succ hb, List.length_append] at hfile
    exact Nat.le_trans hfile h.fits

/-- A block that is rejected behind its header: the blocks in front of it stay
    in the buffer. -/
theorem step_rejected {F : Sender ty} {s : RxState Line} {a k : Nat} {b rest : List UInt8}
    (h : Synced F s a k) (hb : F.blocks[s.dev.n]? = some b)
    (harr : F.arrival s.dev = header s.dev.n b ++ rest) (hrej : Rejected ty b.length rest)
    (hN : F.NoBadResend s ()) : LoopInv F (rxBody F.dev s) := by
  obtain ⟨hpkt, hat⟩ := packet_payload h hb harr
  obtain ⟨data, reads, hpay⟩ := rxPayload_reject hat (UInt8.ofNat (s.dev.n + 1)) hrej
  rw [rxBody_refused (hpkt.trans hpay) (Or.inr rfl) h.startCh rfl rfl]
  -- an accepted block passes, so what was rejected is not the whole packet
  have hfirst : s.dev.acked = true → s.dev.n = 0 := by
    intro hack
    by_contra hne
    rcases hN hack hne with hwhole | hshort
    · rw [harr, packet_eq hb] at hwhole
      have hrest := List.append_cancel_left hwhole
      rcases hrej with hlt | ⟨data', chk, hcat, hdata, -, hno⟩
      · rw [hrest, List.length_append, F.len_trailer] at hlt
        exact Nat.lt_irrefl _ hlt
      · obtain ⟨rfl, rfl⟩ := List.append_inj (hrest.symm.trans hcat) hdata.symm
        rw [h.passes hack b hb] at hno
        cases hno
    · rw [harr, List.length_append] at hshort
      exact absurd hshort (by show ¬ 3 + rest.length < 3; omega)
  refine Or.inl ⟨⟨RxRet.noConfusion, RxRet.noConfusion⟩, a, s.dev.n, ?_⟩
  refine ⟨h.chksumType, h.startCh, h.lastBlock, rfl, ?_, h.fits, rfl, rfl, h.le_blocks, ?_,
    h.passes⟩
  · show loadAt (storeAt s.fdata.buff (F.sent s.dev.n).length data) 0 (F.sent s.dev.n).length = _
    rw [loadAt_storeAt_disjoint (Or.inl (by omega))]
    exact h.buff_before hb
  · rcases h.place with ⟨hack, hn, -⟩ | ⟨hack, hn, -⟩
    · exact Or.inl ⟨hack, hn, hn⟩
    · exact Or.inr ⟨hack, hn, Or.inr ⟨hfirst hack, hfirst hack⟩⟩

/-- A block that is accepted: it is in the buffer, behind those before it. -/
theorem step_accepted {F : Sender ty} {s : RxState Line} {a k : Nat} {b : List UInt8}
    (h : Synced F s a k) (hb : F.blocks[s.dev.n]? = some b)
    (harr : F.arrival s.dev = header s.dev.n b ++ (b ++ F.trailer b))
    (hpass : chksumMatches ty b (F.trailer b) = true) : LoopInv F (rxBody F.dev s) := by
  obtain ⟨hpkt, hat⟩ := packet_payload h hb harr
  obtain ⟨reads, hpay⟩ := rxPayload_accept hat (UInt8.ofNat (s.dev.n + 1)) rfl
    (F.len_trailer b) hpass
  rw [rxBody_accepted (hpkt.trans hpay)]
  have hlt : s.dev.n < F.blocks.length := by
    by_contra hge
    rw [List.getElem?_eq_none (by omega)] at hb
    cases hb
  have hoff : ((F.sent s.dev.n).length + b.length : Nat) = (F.sent (s.dev.n + 1)).length := by
    rw [sent_succ hb, List.length_append]
  -- the new block is stored behind the old ones and leaves them
  have hbuff : loadAt (storeAt s.fdata.buff (F.sent s.dev.n).length b) 0
      (F.sent (s.dev.n + 1)).length = F.sent (s.dev.n + 1) := by
    rw [← hoff, sent_succ hb, loadAt_append, loadAt_storeAt_disjoint (Or.inl (by omega)),
      h.buff_before hb, Int.zero_add, loadAt_storeAt]
  obtain ⟨hdue, hpend, hack⟩ := F.react_ack { F.transmit s.dev with pending := [] } hlt
  refine Or.inl ⟨⟨RxRet.noConfusion, RxRet.noConfusion⟩, s.dev.n + 1, s.dev.n + 1, ?_⟩
  refine ⟨h.chksumType, h.startCh, rfl, congrArg Nat.cast hoff, hbuff, h.fits, hdue, hpend,
    hlt, ?_, ?_⟩
  · -- a lost ACK leaves the sender one block behind
    rcases hack with ⟨hack, hn⟩ | ⟨hack, hn⟩
    · exact Or.inr ⟨hack, congrArg (· + 1) hn, Or.inl rfl⟩
    · exact Or.inl ⟨hack, hn, rfl⟩
  · intro hlost b' hb'
    rcases hack with ⟨-, hn⟩ | ⟨hack, -⟩
    · have hsame := (congrArg (F.blocks[·]?) hn).symm.trans hb'
      cases hb.symm.trans hsame
      exact hpass
    · exact absurd (hack.symm.trans hlost) Bool.false_ne_true

/-- One iteration. -/
theorem step_ok {F : Sender ty} {s : RxState Line} {a k : Nat} (h : Synced F s a k)
    (hD : F.Detected s ()) (hN : F.NoBadResend s ()) : LoopInv F (rxBody F.dev s) := by
  cases hb : F.blocks[s.dev.n]? with
  | none =>
      rcases arrival_end hb hD with hnone | heot
      · apply step_refused h
        · rw [hnone]
          decide
        · rw [hnone]
          decide
      · exact step_eot h hb heot
  | some b =>
      rcases arrival_block hb hD with ⟨hshort, hne⟩ | ⟨rest, harr, rfl | hrej⟩
      · exact step_refused h hshort hne
      · cases hpass : chksumMatches ty b (F.trailer b) with
        | true => exact step_accepted h hb harr hpass
        | false =>
            exact step_rejected h hb harr
              (Or.inr ⟨b, F.trailer b, rfl, rfl, F.len_trailer b, hpass⟩) hN
      · exact step_rejected h hb harr hrej hN

theorem loop_step_inv (F : Sender ty) (s : RxState Line) (e : Unit) (t : RxState Line)
    (h : F.LoopInv s) (hG : F.Detected s e ∧ F.NoBadResend s e)
    (hstep : (rxMachine F.dev).step s e = some t) : F.LoopInv t := by
  simp only [rxMachine] at hstep
  split at hstep
  · next hloop =>
    simp only [Option.some.injEq] at hstep
    subst hstep
    rcases h with ⟨-, a, k, hs⟩ | ⟨heot, -⟩
    · exact step_ok hs hG.1 hG.2
    · exact absurd heot hloop.1
  · cases hstep

/-- At the start, nothing is sent and nothing received. -/
theorem start_synced {F : Sender ty} {fdata : FileData} {p : XmodemParams} (script : List Attempt)
    (hty : p.chksumType = ty) (hstart : p.startCh ≠ xmodemCharAck) (hlast : p.lastBlock = 0)
    (hoff : p.currOff = 0) (hfits : F.file.length ≤ fdata.buffSz) :
    Synced F (rxStart F.dev (Line.init script) fdata p) 0 0 := by
  have hdev : (rxStart F.dev (Line.init script) fdata p).dev
      = { Line.init script with due := true } := react_other hstart
  exact {
    chksumType := hty
    startCh := hstart
    lastBlock := hlast
    currOff := hoff
    buff := rfl
    fits := hfits
    due := by rw [hdev]
    pending := by rw [hdev]; rfl
    le_blocks := Nat.zero_le _
    place := Or.inl (by rw [hdev]; exact ⟨rfl, rfl, rfl⟩)
    passes := by rw [hdev]; exact fun h => absurd h Bool.false_ne_true }

end Sender

/-- For every file that fits the buffer, every checksum a sender may use and
    every script of losses: along each run in which no block but the first is
    rejected when it comes again after its ACK was lost, if `_xmodem_rx`
    returns 0, the total size is that of the file and the buffer holds it. -/
theorem xmodemRx_delivers (type : ProtocolType) (p : XmodemParams)
    (hp : xmodemDefaults type = some p) (F : Sender p.chksumType) (fdata : FileData)
    (hfits : F.file.length ≤ fdata.buffSz) (script : List Attempt) (m : Nat)
    (hD : (rxMachine F.dev).Along F.Detected (rxStart F.dev (Line.init script) fdata p)
      (List.replicate m ()))
    (hN : (rxMachine F.dev).Along F.NoBadResend (rxStart F.dev (Line.init script) fdata p)
      (List.replicate m ()))
    (s : RxState Line) (hrun : xmodemRx F.dev m (Line.init script) fdata p = some (0, s)) :
    s.params.totalSz = F.file.length ∧ loadAt s.fdata.buff 0 s.params.totalSz = F.file := by
  have hinit : p.startCh ≠ xmodemCharAck ∧ p.lastBlock = 0 ∧ p.currOff = 0 := by
    cases type with
    | xmodem => cases hp; exact ⟨by decide, rfl, rfl⟩
    | ymodem => cases hp; exact ⟨by decide, rfl, rfl⟩
    | _ => cases hp
  have hstart := Sender.start_synced script rfl hinit.1 hinit.2.1 hinit.2.2 hfits
  rw [xmodemRx, if_neg (fun h => Bool.noConfusion h), Option.map_eq_some_iff] at hrun
  obtain ⟨t, hloop, hres⟩ := hrun
  obtain ⟨k, hk, hmach, hend⟩ := rxLoop_run hloop
  have hpre : List.replicate k () <+: List.replicate m () := by
    rw [← Nat.sub_add_cancel hk, Nat.add_comm, List.replicate_add]
    exact List.prefix_append _ _
  have hinv := Machine.run_invariant_along (Sender.loop_step_inv F)
    (Or.inl ⟨⟨RxRet.noConfusion, RxRet.noConfusion⟩, 0, 0, hstart⟩)
    ((hD.and hN).initial hpre) hmach
  -- the loop was left, so it is the end of the file that ended it
  rcases hinv with ⟨hlooping, -⟩ | ⟨heot, hoff, hbuff⟩
  · exact absurd hlooping hend
  · rw [if_neg (by rw [heot]; exact RxRet.noConfusion)] at hres
    cases hres
    have hmax := fdata.buffSz_le
    rw [preallocationSize] at hmax
    have hfile : (F.file.length : Int) < 2 ^ 32 := by omega
    have htot : toU32 t.params.currOff = F.file.length := by
      rw [hoff, toU32_of_nonneg (by omega) hfile]
      rfl
    exact ⟨htot, by rw [htot]; exact hbuff⟩

/-- Two blocks of 128 bytes, each with the sum of its bytes behind it. -/
def Sender.twoBlocks : Sender .sum where
  blocks := [List.replicate 128 1, List.replicate 128 2]
  trailer b := [b.foldl (· + ·) 0]
  len_block b hb := by
    simp only [List.mem_cons, List.not_mem_nil, or_false] at hb
    rcases hb with rfl | rfl <;> exact Or.inl (List.length_replicate ..)
  len_trailer _ := rfl

/-- The theorem on a run where the first block is cut short, then accepted but
    not acknowledged, rejected when it comes again, and sent a fourth time. -/
theorem xmodemRx_delivers_two :
    ∃ s, xmodemRx Sender.twoBlocks.dev 6 (Line.init [⟨.cut 50, false⟩, ⟨.intact, true⟩, ⟨.cut 3, false⟩])
        ⟨fun _ => 0, 512, by decide⟩ ⟨0, .sum, 0x15, 0, 0, 5000, 0⟩ = some (0, s) ∧
      s.params.totalSz = Sender.twoBlocks.file.length ∧
      loadAt s.fdata.buff 0 s.params.totalSz = Sender.twoBlocks.file := by
  have hret : (xmodemRx Sender.twoBlocks.dev 6
      (Line.init [⟨.cut 50, false⟩, ⟨.intact, true⟩, ⟨.cut 3, false⟩])
      ⟨fun _ => 0, 512, by decide⟩ ⟨0, .sum, 0x15, 0, 0, 5000, 0⟩).map Prod.fst = some 0 := by
    decide +kernel
  obtain ⟨⟨r, s⟩, hs, hr⟩ := Option.map_eq_some_iff.mp hret
  obtain rfl : r = 0 := hr
  exact ⟨s, hs, xmodemRx_delivers .xmodem ⟨0, .sum, 0x15, 0, 0, 5000, 0⟩ rfl Sender.twoBlocks
    ⟨fun _ => 0, 512, by decide⟩ (by decide +kernel) _ 6 (by decide +kernel) (by decide +kernel) s hs⟩

/-- The unconditional statement fails: the ACK of the second block is lost, its
    retransmission is cut short behind the header, and the next one is
    accepted over the first block. -/
theorem xmodemRx_loses_block :
    ¬ ∀ (F : Sender .sum) (script : List Attempt) (m : Nat) (fdata : FileData)
      (s : RxState Line), F.file.length ≤ fdata.buffSz →
      (rxMachine F.dev).Along F.Detected
        (rxStart F.dev (Line.init script) fdata ⟨0, .sum, 0x15, 0, 0, 5000, 0⟩)
        (List.replicate m ()) →
      xmodemRx F.dev m (Line.init script) fdata ⟨0, .sum, 0x15, 0, 0, 5000, 0⟩ = some (0, s) →
        s.params.totalSz = F.file.length ∧ loadAt s.fdata.buff 0 s.params.totalSz = F.file := by
  intro hall
  have hrun : (xmodemRx Sender.twoBlocks.dev 5
      (Line.init [⟨.intact, false⟩, ⟨.intact, true⟩, ⟨.cut 3, false⟩])
      ⟨fun _ => 0, 512, by decide⟩ ⟨0, .sum, 0x15, 0, 0, 5000, 0⟩).map
        (fun r => (r.1, r.2.params.totalSz)) = some (0, 128) := by decide +kernel
  obtain ⟨⟨r, s⟩, hs, hobs⟩ := Option.map_eq_some_iff.mp hrun
  obtain ⟨rfl, htot⟩ := Prod.mk.inj hobs
  have hlen := (hall Sender.twoBlocks _ 5 _ s (by decide +kernel) (by decide +kernel) hs).1
  rw [show s.params.totalSz = 128 from htot] at hlen
  exact absurd hlen (by decide +kernel)

end LBoot.Storage
