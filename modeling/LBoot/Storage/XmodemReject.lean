/-
  LBoot.Storage.XmodemReject

  What a rejected XMODEM packet leaves behind.

  In the receiver: a header that repeats the last block moves the offset back
  before the payload is read, and nothing moves it forward again if the
  payload is then rejected.  Every other exit leaves the offset, the last
  block and the accepted bytes alone (`xmodemRxPacket_rejected_iff`).

  On the line: the purge takes four times the block size last announced,
  which is zero before the first header and is that of an earlier packet if
  the prefix is corrupted.  The rest of a packet is gone exactly if that is
  enough (`rxBody_purges_iff`).
-/

import LBoot.Storage.XmodemBounds

namespace LBoot.Storage

open LBoot.Lib

variable {ι : Type*}

/-! ## The receiver -/

/-- The offset, the last block and the accepted bytes are the same. -/
def SameReceiver (s t : RxState ι) : Prop :=
  t.params.currOff = s.params.currOff ∧ t.params.lastBlock = s.params.lastBlock ∧
    loadAt t.fdata.buff 0 s.params.currOff.toNat = loadAt s.fdata.buff 0 s.params.currOff.toNat

/-- Behind a header: the block fits, arrives whole, and has its checksum. -/
def PayloadIntact (D : Dev ι) (s : RxState ι) : Prop :=
  let p := s.params
  let data := D.read s.dev p.blockSz p.timeout
  let chk := D.read data.2 p.chksumType.len p.timeout
  toU32 (p.currOff + p.blockSz) ≤ s.fdata.buffSz ∧ data.1.length = p.blockSz ∧
    chk.1.length = p.chksumType.len ∧ chksumMatches p.chksumType data.1 chk.1 = true

/-- If the header about to arrive is accepted and repeats the last block, so
    that the offset goes back, the block is received intact. -/
def RepeatIntact (D : Dev ι) (s : RxState ι) : Prop :=
  let head := D.read s.dev 3 s.params.timeout
  match rxHead s.params head.1 with
  | (p, .ok block) =>
      s.params.currOff ≠ 0 → block = s.params.lastBlock →
        PayloadIntact D { s with dev := head.2, params := rxRewind p block }
  | (_, .error _) => True

theorem xmodemChecksum_iff (D : Dev ι) (dev : ι) (p : XmodemParams) (data : List UInt8) :
    (xmodemChecksum D dev p data).1 = true ↔
      (D.read dev p.chksumType.len p.timeout).1.length = p.chksumType.len ∧
        chksumMatches p.chksumType data (D.read dev p.chksumType.len p.timeout).1 = true := by
  rw [xmodemChecksum]
  dsimp only
  split
  · next hshort => exact ⟨fun h => (by cases h), fun h => absurd h.1 hshort⟩
  · next hfull => exact ⟨fun h => ⟨not_not.mp hfull, h⟩, And.right⟩

/-- The payload stage accepts what is intact. -/
theorem rxPayload_ok_iff (D : Dev ι) (s : RxState ι) (block : UInt8) :
    (rxPayload D s block).1 = .ok ↔ PayloadIntact D s := by
  rw [rxPayload, PayloadIntact]
  dsimp only
  by_cases hbig : toU32 (s.params.currOff + s.params.blockSz) > s.fdata.buffSz
  · rw [if_pos hbig]
    exact ⟨fun h => (by cases h), fun h => absurd h.1 (Nat.not_le_of_lt hbig)⟩
  rw [if_neg hbig]
  by_cases hlen : (D.read s.dev s.params.blockSz s.params.timeout).1.length = s.params.blockSz
  · -- what the checksum is taken over is the block that was read
    have hload := loadAt_storeAt s.fdata.buff s.params.currOff
      (D.read s.dev s.params.blockSz s.params.timeout).1
    rw [hlen] at hload
    rw [if_neg (by rwa [not_not]), hload, ← xmodemChecksum_iff]
    split
    · next hfail => exact ⟨fun h => (by cases h), fun h => absurd h.2.2 hfail⟩
    · next hpass => exact ⟨fun _ => ⟨Nat.le_of_not_lt hbig, hlen, not_not.mp hpass⟩, fun _ => rfl⟩
  · rw [if_pos hlen]
    exact ⟨fun h => (by cases h), fun h => absurd h.2.1 hlen⟩

/-- One that does not accept leaves the parameters, and the buffer in front of
    the block. -/
theorem rxPayload_rejected {D : Dev ι} {s : RxState ι} {block : UInt8}
    (h : (rxPayload D s block).1 ≠ .ok) :
    (rxPayload D s block).2.params = s.params ∧
      ∀ x < s.params.currOff, (rxPayload D s block).2.fdata.buff x = s.fdata.buff x := by
  have hfront : ∀ (data : List UInt8), ∀ x < s.params.currOff,
      storeAt s.fdata.buff s.params.currOff data x = s.fdata.buff x := fun data x hx =>
    storeAt_of_outside (Or.inl hx)
  rw [rxPayload] at h ⊢
  dsimp only at h ⊢
  split_ifs at h ⊢
  · exact ⟨rfl, fun _ _ => rfl⟩
  · exact ⟨rfl, hfront _⟩
  · exact absurd rfl h
  · exact ⟨rfl, hfront _⟩

theorem SameReceiver.of_front {s t : RxState ι} (hoff : t.params.currOff = s.params.currOff)
    (hlast : t.params.lastBlock = s.params.lastBlock)
    (hbuff : ∀ x < s.params.currOff, t.fdata.buff x = s.fdata.buff x) : SameReceiver s t := by
  refine ⟨hoff, hlast, loadAt_congr fun x _ hx => hbuff x ?_⟩
  omega

/-- Going back moves the offset. -/
theorem rewind_ne (x : Int) {n : Nat} (hn : n = 128 ∨ n = 1024) : s32 (x - n) ≠ x := by
  intro heq
  have hmod : s32 (x - n) % (2 ^ 32 : Nat) = (x - n) % (2 ^ 32 : Nat) := Int.bmod_emod
  rw [heq] at hmod
  omega

/-- **A rejected packet leaves the receiver as it was** exactly if it is not a
    repeated block whose header is accepted and whose payload is not. -/
theorem xmodemRxPacket_rejected_iff (D : Dev ι) (s : RxState ι) :
    ((xmodemRxPacket D s).1 ≠ .ok → SameReceiver s (xmodemRxPacket D s).2) ↔
      RepeatIntact D s := by
  rw [xmodemRxPacket, RepeatIntact]
  dsimp only
  cases hhead : rxHead s.params (D.read s.dev 3 s.params.timeout).1 with
  | mk p res =>
      have hp := rxHead_params hhead
      have hoff : p.currOff = s.params.currOff := by rw [hp]
      have hlast : p.lastBlock = s.params.lastBlock := by rw [hp]
      cases res with
      | error ret => exact ⟨fun _ => trivial, fun _ _ => ⟨hoff, hlast, rfl⟩⟩
      | ok block =>
          dsimp only
          rw [← rxPayload_ok_iff D _ block]
          by_cases hrep : s.params.currOff ≠ 0 ∧ block = s.params.lastBlock
          · -- the offset went back, and only an accepted payload moves it on
            have hrew : rxRewind p block = { p with currOff := s32 (p.currOff - p.blockSz) } := by
              rw [rxRewind, hoff, hlast, if_pos hrep]
            have hmoved : s32 (p.currOff - p.blockSz) ≠ s.params.currOff := by
              rw [hoff]
              exact rewind_ne _ (rxHead_ok_blockSz hhead)
            constructor
            · intro hsame _ _
              by_contra hrej
              have hoff' := (hsame hrej).1
              rw [(rxPayload_rejected hrej).1, hrew] at hoff'
              exact hmoved hoff'
            · intro hok hrej
              exact absurd (hok hrep.1 hrep.2) hrej
          · -- another block: nothing goes back
            have hrew : rxRewind p block = p := by
              rw [rxRewind, hoff, hlast, if_neg hrep]
            rw [hrew]
            constructor
            · intro _ hoff' hblock
              exact absurd ⟨hoff', hblock⟩ hrep
            · intro _ hrej
              obtain ⟨hparams, hbuff⟩ := rxPayload_rejected hrej
              rw [hoff] at hbuff
              refine SameReceiver.of_front ?_ ?_ hbuff
              · rw [hparams]
                exact hoff
              · rw [hparams]
                exact hlast

/-- A packet under the number of the one just accepted, with a wrong checksum,
    takes the block that was accepted out of the file. -/
theorem xmodemRxPacket_unaccepts :
    ¬ ∀ (stream : List UInt8) (p : XmodemParams) (es : List Unit) (s : RxState (List UInt8)),
      xmodemDefaults .xmodem = some p →
      (rxMachine streamDev).run (rxStart streamDev stream emptyFile p) es = some s →
      (xmodemRxPacket streamDev s).1 ≠ .ok → SameReceiver s (xmodemRxPacket streamDev s).2 := by
  intro hall
  have hrun : ((rxMachine streamDev).run (rxStart streamDev
      ([1, 1, 254] ++ List.replicate 128 0 ++ [0] ++ [1, 1, 254] ++ List.replicate 128 0 ++ [7])
      emptyFile ⟨0, .sum, 0x15, 0, 0, 5000, 0⟩) [()]).map (fun s => (s.params.currOff,
        (xmodemRxPacket streamDev s).1, (xmodemRxPacket streamDev s).2.params.currOff))
      = some (128, .error, 0) := by decide +kernel
  obtain ⟨s, hs, hfacts⟩ := Option.map_eq_some_iff.mp hrun
  obtain ⟨hoff, hret, hback⟩ := by simpa only [Prod.mk.injEq] using hfacts
  have hsame := (hall _ _ _ s rfl hs (by rw [hret]; decide)).1
  rw [hback, hoff] at hsame
  exact absurd hsame (by decide)

/-! ## The line -/

/-- The block size the purge goes by: the one this prefix announces, else the
    one that was left over. -/
def purgeBlockSz (p : XmodemParams) (head : List UInt8) : Nat :=
  (headBlockSz (head.getD 0 0)).getD p.blockSz

/-- A header that is not the end of the transmission. -/
theorem rxHead_blockSz {p : XmodemParams} {head : List UInt8} (hlen : head.length = 3)
    (heot : head.getD 0 0 ≠ xmodemCharEot) : (rxHead p head).1.blockSz = purgeBlockSz p head := by
  rw [rxHead, if_neg (fun h => heot h.2), if_neg (by rwa [not_not]), purgeBlockSz]
  cases headBlockSz (head.getD 0 0) with
  | none => rfl
  | some bsz =>
      dsimp only
      split_ifs <;> rfl

/-- Behind an accepted header, a block that is refused has been read with its
    checksum, or the line has run dry. -/
theorem rxPayload_stream_error {s : RxState (List UInt8)} {block : UInt8}
    (h : (rxPayload streamDev s block).1 = .error) :
    (rxPayload streamDev s block).2.dev
        = s.dev.drop (s.params.blockSz + s.params.chksumType.len) ∧
      (rxPayload streamDev s block).2.params.blockSz = s.params.blockSz := by
  have hchk : ∀ (d : List UInt8) (p : XmodemParams) (data : List UInt8),
      (xmodemChecksum streamDev d p data).2 = d.drop p.chksumType.len := by
    intro d p data
    rw [xmodemChecksum]
    dsimp only
    split <;> rfl
  rw [rxPayload] at h ⊢
  dsimp only [streamDev] at h ⊢
  split_ifs at h ⊢ with hbig hshort hpass
  · refine ⟨?_, rfl⟩
    rw [List.length_take] at hshort
    show s.dev.drop s.params.blockSz = _
    rw [List.drop_eq_nil_of_le (by omega), List.drop_eq_nil_of_le (by omega)]
  · refine ⟨?_, rfl⟩
    show (xmodemChecksum streamDev _ _ _).2 = _
    rw [hchk, List.drop_drop]

/-- A packet that is refused, up to what is read of it in front of the purge:
    the header alone, or with a whole block and its checksum. -/
theorem xmodemRxPacket_stream_error {s : RxState (List UInt8)} (hlen : 3 ≤ s.dev.length)
    (herr : (xmodemRxPacket streamDev s).1 = .error) :
    (xmodemRxPacket streamDev s).2.params.blockSz = purgeBlockSz s.params s.dev ∧
      ((xmodemRxPacket streamDev s).2.dev = s.dev.drop 3 ∨
        (purgeBlockSz s.params s.dev = 128 ∨ purgeBlockSz s.params s.dev = 1024) ∧
        (xmodemRxPacket streamDev s).2.dev
          = s.dev.drop (3 + (purgeBlockSz s.params s.dev + s.params.chksumType.len))) := by
  have hhead3 : (s.dev.take 3).length = 3 := by rw [List.length_take, Nat.min_eq_left hlen]
  have hget : (s.dev.take 3).getD 0 0 = s.dev.getD 0 0 := by
    rw [List.getD_eq_getElem?_getD, List.getD_eq_getElem?_getD, List.getElem?_take_of_lt (by decide)]
  have hsz : purgeBlockSz s.params (s.dev.take 3) = purgeBlockSz s.params s.dev := by
    rw [purgeBlockSz, purgeBlockSz, hget]
  rw [xmodemRxPacket] at herr ⊢
  dsimp only [streamDev] at herr ⊢
  -- an EOT in front would not have been an error
  have heot : (s.dev.take 3).getD 0 0 ≠ xmodemCharEot := by
    intro heot
    rw [rxHead, if_pos ⟨by omega, heot⟩] at herr
    cases herr
  have hbsz := rxHead_blockSz (p := s.params) hhead3 heot
  rw [hsz] at hbsz
  cases hhead : rxHead s.params (s.dev.take 3) with
  | mk p res =>
      rw [hhead] at herr hbsz
      cases res with
      | error ret => exact ⟨hbsz, Or.inl rfl⟩
      | ok block =>
          dsimp only at herr hbsz ⊢
          have hp := rxHead_params hhead
          obtain ⟨hdev, hkeep⟩ := rxPayload_stream_error herr
          have hrew : (rxRewind p block).blockSz = p.blockSz ∧
              (rxRewind p block).chksumType = p.chksumType := by
            rw [rxRewind]
            split <;> exact ⟨rfl, rfl⟩
          have hty : p.chksumType = s.params.chksumType := by rw [hp]
          dsimp only at hdev hkeep
          rw [hrew.1, hrew.2, hty, hbsz, List.drop_drop] at hdev
          rw [hrew.1, hbsz] at hkeep
          refine ⟨hkeep, Or.inr ⟨?_, hdev⟩⟩
          rw [← hbsz]
          exact rxHead_ok_blockSz hhead

/-- Behind a packet that is refused, the purge takes four blocks. -/
theorem rxBody_stream_error {s : RxState (List UInt8)}
    (herr : (xmodemRxPacket streamDev s).1 = .error) :
    (rxBody streamDev s).dev = (xmodemRxPacket streamDev s).2.dev.drop
      ((xmodemRxPacket streamDev s).2.params.blockSz * 4) := by
  rw [rxBody]
  generalize xmodemRxPacket streamDev s = r at herr
  obtain ⟨ret, t⟩ := r
  obtain rfl : ret = .error := herr
  rfl

/-- What is left is behind the packet exactly if the packet was dropped. -/
theorem drop_suffix_iff {α : Type*} {xs ys : List α} {k : Nat} :
    (xs ++ ys).drop k <:+ ys ↔ xs.length ≤ k := by
  constructor
  · intro hsuf
    have hle := hsuf.length_le
    rw [List.length_drop, List.length_append] at hle
    by_contra hlt
    omega
  · intro hle
    rw [List.drop_append, List.drop_eq_nil_of_le hle, List.nil_append]
    exact List.drop_suffix _ _

/-- **The purge** takes the rest of a refused packet exactly if its payload
    and checksum are no more than four blocks of the size gone by. -/
theorem rxBody_purges_iff {s : RxState (List UInt8)} {pkt rest : List UInt8} {n : Nat}
    (hn : n = 128 ∨ n = 1024) (hpkt : pkt.length = 3 + n + s.params.chksumType.len)
    (hdev : s.dev = pkt ++ rest) (herr : (xmodemRxPacket streamDev s).1 = .error) :
    (rxBody streamDev s).dev <:+ rest ↔
      n + s.params.chksumType.len ≤ 4 * purgeBlockSz s.params pkt := by
  have hlen : s.params.chksumType.len = 1 ∨ s.params.chksumType.len = 2 := by
    cases s.params.chksumType with
    | sum => exact Or.inl rfl
    | crc16 => exact Or.inr rfl
  have hsz : purgeBlockSz s.params s.dev = purgeBlockSz s.params pkt := by
    rw [purgeBlockSz, purgeBlockSz, hdev, List.getD_eq_getElem?_getD,
      List.getD_eq_getElem?_getD, List.getElem?_append_left (by omega)]
  obtain ⟨hblock, hread⟩ := xmodemRxPacket_stream_error
    (by rw [hdev, List.length_append]; omega) herr
  rw [rxBody_stream_error herr, hblock, hsz]
  rw [hsz] at hread
  rcases hread with hread | ⟨hann, hread⟩
  · rw [hread, List.drop_drop, hdev, drop_suffix_iff]
    omega
  · rw [hread, List.drop_drop, hdev, drop_suffix_iff]
    omega

/-- A packet of 128 bytes, each an EOT, whose prefix is corrupted. -/
def corruptedPacket : List UInt8 := [0x11, 1, 254] ++ List.replicate 128 xmodemCharEot ++ [0]

/-- It arrives where a block of 128 bytes was announced before. -/
theorem rxBody_purges_iff_corrupted :
    (rxBody streamDev (rxStart streamDev (corruptedPacket ++ []) emptyFile
      ⟨128, .sum, 0x15, 0, 0, 5000, 0⟩)).dev <:+ [] :=
  (rxBody_purges_iff (s := rxStart streamDev (corruptedPacket ++ []) emptyFile
    ⟨128, .sum, 0x15, 0, 0, 5000, 0⟩) (Or.inl rfl) (by decide +kernel) rfl
    (by decide +kernel)).mpr (by decide +kernel)

/-- It arrives as the first packet: nothing is purged, and the first byte of
    the payload ends the transmission with success, and with an empty file. -/
theorem rxBody_first_unpurged :
    ¬ ∀ (s : RxState (List UInt8)) (p : XmodemParams) (pkt rest : List UInt8) (n : Nat),
      xmodemDefaults .xmodem = some p → s = rxStart streamDev (pkt ++ rest) emptyFile p →
      n = 128 ∨ n = 1024 → pkt.length = 3 + n + p.chksumType.len →
      (xmodemRxPacket streamDev s).1 = .error →
      (rxBody streamDev s).dev <:+ rest ∧
        (xmodemRx streamDev 2 (pkt ++ rest) emptyFile p).map Prod.fst ≠ some 0 := by
  intro hall
  have hpurge := hall _ _ corruptedPacket [] 128 rfl rfl (Or.inl rfl) (by decide +kernel)
    (by decide +kernel)
  exact hpurge.2 (by decide +kernel)

end LBoot.Storage
