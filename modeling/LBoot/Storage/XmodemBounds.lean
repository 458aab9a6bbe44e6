/-
  LBoot.Storage.XmodemBounds

  Where the XMODEM receiver writes.

  A block that is sent again is read again over the last one: the offset goes
  back by the size of the block that arrives, which need not be the size of
  the block it repeats.  A block of 1024 bytes under the number of an accepted
  block of 128 moves the offset below zero, and the size check, made on the
  end of the block, lets it pass (`xmodemRx_below_buffer`).

  `NoShortRewind` excludes exactly those headers.  A run stays inside the
  buffer as long as, and no longer than, it keeps to that
  (`xmodemRx_in_bounds_iff`).
-/

import LBoot.Storage.Xmodem

namespace LBoot.Storage

open LBoot.Lib

variable {ι : Type*}

/-- The offset is not negative, and every payload read so far was aimed at a
    range inside the buffer. -/
def InBounds (s : RxState ι) : Prop :=
  0 ≤ s.params.currOff ∧ ∀ r ∈ s.reads, 0 ≤ r.1 ∧ r.1 + r.2 ≤ s.fdata.buffSz

/-- Condition on an iteration: if the header about to arrive is accepted and
    repeats the last block, its block is no longer than what was received. -/
def NoShortRewind (D : Dev ι) (s : RxState ι) (_ : Unit) : Prop :=
  s.looping → s.params.currOff ≠ 0 →
    match rxHead s.params (D.read s.dev 3 s.params.timeout).1 with
    | (p, .ok block) => block = s.params.lastBlock → (p.blockSz : Int) ≤ s.params.currOff
    | (_, .error _) => True

instance (D : Dev ι) (s : RxState ι) (e : Unit) : Decidable (NoShortRewind D s e) :=
  match h : rxHead s.params (D.read s.dev 3 s.params.timeout).1 with
  | (p, .ok block) =>
      decidable_of_iff (s.looping → s.params.currOff ≠ 0 → block = s.params.lastBlock →
        (p.blockSz : Int) ≤ s.params.currOff) (by simp only [NoShortRewind, h])
  | (_, .error _) => isTrue (by simp only [NoShortRewind, h, implies_true])

/-! ## The header -/

/-- A header only sets the block size. -/
theorem rxHead_params {p p' : XmodemParams} {head : List UInt8} {res : Except RxRet UInt8}
    (h : rxHead p head = (p', res)) : p' = { p with blockSz := p'.blockSz } := by
  suffices hfst : (rxHead p head).1 = { p with blockSz := (rxHead p head).1.blockSz } by
    rwa [h] at hfst
  rw [rxHead]
  split
  · rfl
  · split
    · rfl
    · cases headBlockSz (head.getD 0 0) with
      | none => rfl
      | some bsz =>
          dsimp only
          split
          · rfl
          · split <;> rfl

/-- An accepted header announces 128 or 1024 bytes. -/
theorem rxHead_ok_blockSz {p p' : XmodemParams} {head : List UInt8} {block : UInt8}
    (h : rxHead p head = (p', .ok block)) : p'.blockSz = 128 ∨ p'.blockSz = 1024 := by
  rw [rxHead] at h
  split at h
  · cases h
  · split at h
    · cases h
    · cases hb : headBlockSz (head.getD 0 0) with
      | none =>
          rw [hb] at h
          cases h
      | some bsz =>
          rw [hb] at h
          dsimp only at h
          -- SOH or STX, the two characters that start a block
          have hsz : bsz = 128 ∨ bsz = 1024 := by
            rw [headBlockSz] at hb
            split at hb
            · exact Or.inl (Option.some.inj hb).symm
            · split at hb
              · exact Or.inr (Option.some.inj hb).symm
              · cases hb
          split at h
          · cases h
          · split at h
            · cases h
            · cases h
              exact hsz

/-! ## One iteration -/

/-- Behind the packet, the loop body only uses the line. -/
theorem rxBody_frame (D : Dev ι) (s : RxState ι) :
    (rxBody D s).params = (xmodemRxPacket D s).2.params ∧
      (rxBody D s).fdata = (xmodemRxPacket D s).2.fdata ∧
      (rxBody D s).reads = (xmodemRxPacket D s).2.reads := by
  rw [rxBody]
  generalize xmodemRxPacket D s = r
  obtain ⟨ret, s'⟩ := r
  cases ret with
  | timeout =>
      simp only [ne_eq, reduceCtorEq, not_false_eq_true, if_true]
      split <;> exact ⟨rfl, rfl, rfl⟩
  | _ => exact ⟨rfl, rfl, rfl⟩

/-- What the payload stage does to the offset and to the log. -/
theorem rxPayload_cases (D : Dev ι) (s : RxState ι) (block : UInt8) :
    (toU32 (s.params.currOff + s.params.blockSz) > s.fdata.buffSz ∧
        rxPayload D s block = (.fatal, s)) ∨
      (toU32 (s.params.currOff + s.params.blockSz) ≤ s.fdata.buffSz ∧
        (rxPayload D s block).2.fdata.buffSz = s.fdata.buffSz ∧
        (rxPayload D s block).2.reads = s.reads ++ [(s.params.currOff, s.params.blockSz)] ∧
        ((rxPayload D s block).2.params.currOff = s.params.currOff ∨
          (rxPayload D s block).2.params.currOff
            = s32 (s.params.currOff + s.params.blockSz))) := by
  rw [rxPayload]
  dsimp only
  split
  · next hbig => exact Or.inl ⟨hbig, rfl⟩
  · next hfit =>
    refine Or.inr ⟨Nat.le_of_not_lt hfit, ?_⟩
    split
    · exact ⟨rfl, rfl, Or.inl rfl⟩
    · split
      · exact ⟨rfl, rfl, Or.inl rfl⟩
      · exact ⟨rfl, rfl, Or.inr rfl⟩

structure OffInv (s : RxState ι) : Prop where
  bounds : InBounds s
  le_buffSz : s.params.currOff ≤ s.fdata.buffSz

theorem OffInv.of_frame {s t : RxState ι} (h : OffInv s) (hoff : t.params.currOff = s.params.currOff)
    (hf : t.fdata = s.fdata) (hr : t.reads = s.reads) : OffInv t := by
  refine ⟨⟨?_, ?_⟩, ?_⟩
  · rw [hoff]
    exact h.bounds.1
  · rw [hf, hr]
    exact h.bounds.2
  · rw [hoff, hf]
    exact h.le_buffSz

/-- From an offset inside the buffer, the payload stage stays inside: the size
    check is exact there. -/
theorem rxPayload_inv {D : Dev ι} {s : RxState ι} (block : UInt8) (h : OffInv s)
    (hb : s.params.blockSz ≤ 1024) : OffInv (rxPayload D s block).2 := by
  have hmax := s.fdata.buffSz_le
  rw [preallocationSize] at hmax
  have h0 := h.bounds.1
  have hle := h.le_buffSz
  rcases rxPayload_cases D s block with ⟨-, hsame⟩ | ⟨hfit, hsz, hreads, hoff⟩
  · rw [hsame]
    exact h
  · rw [toU32_of_nonneg (by omega) (by omega)] at hfit
    -- offset and block are far from 2^31, so the sum does not wrap
    have hsum : s32 (s.params.currOff + s.params.blockSz)
        = s.params.currOff + s.params.blockSz := s32_of_range (by omega) (by omega)
    rw [hsum] at hoff
    refine ⟨⟨?_, fun r hr => ?_⟩, ?_⟩
    · rcases hoff with heq | heq <;> omega
    · rw [hsz]
      rw [hreads] at hr
      rcases List.mem_append.mp hr with hold | hnew
      · exact h.bounds.2 r hold
      · rw [List.mem_singleton] at hnew
        subst hnew
        exact ⟨h0, by dsimp only; omega⟩
    · rw [hsz]
      rcases hoff with heq | heq <;> omega

/-- One iteration that keeps to the condition keeps the invariant. -/
theorem rxMachine_step_inv {D : Dev ι} (s : RxState ι) (e : Unit) (t : RxState ι)
    (h : OffInv s) (hG : NoShortRewind D s e) (hstep : (rxMachine D).step s e = some t) :
    OffInv t := by
  simp only [rxMachine] at hstep
  split at hstep
  · next hloop =>
    simp only [Option.some.injEq] at hstep
    subst hstep
    obtain ⟨hp, hf, hr⟩ := rxBody_frame D s
    suffices hinv : OffInv (xmodemRxPacket D s).2 from
      hinv.of_frame (congrArg XmodemParams.currOff hp) hf hr
    rw [xmodemRxPacket]
    dsimp only
    cases hrx : rxHead s.params (D.read s.dev 3 s.params.timeout).1 with
    | mk p res =>
        have hoff : p.currOff = s.params.currOff := by rw [rxHead_params hrx]
        have hlast : p.lastBlock = s.params.lastBlock := by rw [rxHead_params hrx]
        cases res with
        | error ret => exact h.of_frame hoff rfl rfl
        | ok block =>
            have hb := rxHead_ok_blockSz hrx
            have hmax := s.fdata.buffSz_le
            have h0 := h.bounds.1
            have hle := h.le_buffSz
            rw [preallocationSize] at hmax
            dsimp only
            rw [rxRewind]
            split
            · next hdup =>
              -- the repeated block: the offset goes back by the new size
              obtain ⟨hne, rfl⟩ := hdup
              rw [hoff] at hne
              have hback := hG hloop hne
              rw [hrx] at hback
              replace hback := hback hlast
              have hsub : s32 (p.currOff - p.blockSz) = p.currOff - p.blockSz :=
                s32_of_range (by omega) (by omega)
              apply rxPayload_inv
              · refine ⟨⟨?_, h.bounds.2⟩, ?_⟩
                · show 0 ≤ s32 (p.currOff - p.blockSz)
                  omega
                · show s32 (p.currOff - p.blockSz) ≤ s.fdata.buffSz
                  omega
              · show p.blockSz ≤ 1024
                omega
            · apply rxPayload_inv
              · exact h.of_frame hoff rfl rfl
              · show p.blockSz ≤ 1024
                omega
  · cases hstep

/-- One iteration that does not keep to it aims at an address in front of the
    buffer. -/
theorem rxMachine_step_leaves {D : Dev ι} (s : RxState ι) (e : Unit) (h : OffInv s)
    (hG : ¬ NoShortRewind D s e) : ∃ t, (rxMachine D).step s e = some t ∧ ¬ InBounds t := by
  simp only [NoShortRewind, not_forall] at hG
  obtain ⟨hloop, hne, hlt⟩ := hG
  -- the header that arrives is accepted, repeats the last block and is too long
  obtain ⟨p, hrx, hlt⟩ : ∃ p, rxHead s.params (D.read s.dev 3 s.params.timeout).1
      = (p, .ok s.params.lastBlock) ∧ ¬ (p.blockSz : Int) ≤ s.params.currOff := by
    revert hlt
    cases rxHead s.params (D.read s.dev 3 s.params.timeout).1 with
    | mk p res =>
        cases res with
        | error ret => exact fun hn => absurd trivial hn
        | ok block =>
            intro hlt
            obtain ⟨rfl, hlong⟩ := Classical.not_imp.mp hlt
            exact ⟨p, rfl, hlong⟩
  refine ⟨rxBody D s, if_pos hloop, fun hin => ?_⟩
  obtain ⟨-, -, hr⟩ := rxBody_frame D s
  have hlog := hin.2
  have hb := rxHead_ok_blockSz hrx
  have hmax := s.fdata.buffSz_le
  have h0 := h.bounds.1
  have hle := h.le_buffSz
  rw [preallocationSize] at hmax
  have hoff : p.currOff = s.params.currOff := by rw [rxHead_params hrx]
  have hlast : p.lastBlock = s.params.lastBlock := by rw [rxHead_params hrx]
  have hsub : s32 (p.currOff - p.blockSz) = p.currOff - p.blockSz :=
    s32_of_range (by omega) (by omega)
  rw [hr, xmodemRxPacket] at hlog
  dsimp only at hlog
  rw [hrx] at hlog
  dsimp only at hlog
  rw [rxRewind, if_pos ⟨by rw [hoff]; exact hne, hlast.symm⟩] at hlog
  rcases rxPayload_cases D { s with
      dev := (D.read s.dev 3 s.params.timeout).2
      params := { p with currOff := s32 (p.currOff - p.blockSz) } } s.params.lastBlock with
    ⟨hbig, -⟩ | ⟨-, -, hreads, -⟩
  · -- the end of the block is the old offset, which is inside
    dsimp only at hbig
    rw [hsub, Int.sub_add_cancel, toU32_of_nonneg (by omega) (by omega)] at hbig
    omega
  · rw [hreads] at hlog
    have hneg := (hlog _ (List.mem_append_right _ (List.mem_singleton_self _))).1
    dsimp only at hneg
    omega

/-- For every device, with any answers to its reads, and any number of
    iterations: all along the run the receiver stays inside the buffer if and
    only if the run keeps to `NoShortRewind`. -/
theorem xmodemRx_in_bounds_iff (D : Dev ι) (dev : ι) (fdata : FileData) (type : ProtocolType)
    (p : XmodemParams) (hp : xmodemDefaults type = some p) (es : List Unit) :
    (rxMachine D).Along (NoShortRewind D) (rxStart D dev fdata p) es ↔
      ∀ es' s, es' <+: es → (rxMachine D).run (rxStart D dev fdata p) es' = some s →
        InBounds s := by
  have hstart : OffInv (rxStart D dev fdata p) := by
    have hzero : p.currOff = 0 := by
      cases type with
      | xmodem => cases hp; rfl
      | ymodem => cases hp; rfl
      | _ => cases hp
    refine ⟨⟨Int.le_of_eq hzero.symm, fun r hr => absurd hr List.not_mem_nil⟩, ?_⟩
    show p.currOff ≤ fdata.buffSz
    omega
  exact Machine.along_iff_forall_initial rxMachine_step_inv (fun _ h => h.bounds)
    rxMachine_step_leaves hstart

/-- A line that delivers a fixed stream of bytes. -/
def streamDev : Dev (List UInt8) where
  read d n _ := (d.take n, d.drop n)
  write d _ := (true, d)
  read_le d n _ := List.length_take_le n d

/-- The largest buffer, empty. -/
def emptyFile : FileData := ⟨fun _ => 0, preallocationSize, Nat.le_refl _⟩

/-- The theorem on a line that sends one block twice and then ends. -/
theorem xmodemRx_in_bounds_iff_resent :
    let packet := [1, 1, 254] ++ List.replicate 128 0 ++ [0]
    ∀ p, xmodemDefaults .xmodem = some p →
      (∃ s, (rxMachine streamDev).run (rxStart streamDev (packet ++ packet ++ [4]) emptyFile p)
        [(), (), ()] = some s ∧ s.ret = .eot) ∧
      ∀ es' s, es' <+: [(), (), ()] →
        (rxMachine streamDev).run (rxStart streamDev (packet ++ packet ++ [4]) emptyFile p) es'
          = some s → InBounds s := by
  intro packet p hp
  refine ⟨?_, (xmodemRx_in_bounds_iff streamDev (packet ++ packet ++ [4]) emptyFile .xmodem p hp
    [(), (), ()]).mp ?_⟩
  · cases hp
    exact Option.map_eq_some_iff.mp (by decide +kernel :
      ((rxMachine streamDev).run (rxStart streamDev (packet ++ packet ++ [4]) emptyFile
        ⟨0, .sum, 0x15, 0, 0, 5000, 0⟩) [(), (), ()]).map RxState.ret = some .eot)
  · cases hp
    decide +kernel

/-- The unconditional statement fails: a block of 128 bytes is accepted, and a
    header for 1024 bytes repeats its number. -/
theorem xmodemRx_below_buffer :
    ¬ ∀ (stream : List UInt8) (p : XmodemParams) (es : List Unit) (s : RxState (List UInt8)),
      xmodemDefaults .xmodem = some p →
      (rxMachine streamDev).run (rxStart streamDev stream emptyFile p) es = some s →
        InBounds s := by
  intro hall
  have hrun : ((rxMachine streamDev).run (rxStart streamDev
      ([1, 1, 254] ++ List.replicate 128 0 ++ [0] ++ [2, 1, 254]) emptyFile
      ⟨0, .sum, 0x15, 0, 0, 5000, 0⟩) [(), ()]).map RxState.reads
      = some [(0, 128), (-896, 1024)] := by decide +kernel
  obtain ⟨s, hs, hreads⟩ := Option.map_eq_some_iff.mp hrun
  have hin := (hall _ _ _ s rfl hs).2 (-896, 1024) (by rw [hreads]; simp)
  exact absurd hin.1 (by decide)

end LBoot.Storage
