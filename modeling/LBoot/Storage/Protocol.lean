/-
  LBoot.Storage.Protocol

  Which transfer URIs are accepted (src/storage/protocol/protocol.c, and the
  initialization in xmodem.c), with the XMODEM option enabled.

  The scheme is compared up to the first `:`, and the port behind the first
  `//`, each by its beginning: any text may stand between the two and behind
  the port (`TakenUri`).  The scheme `ymodem` is recognized, but the switch
  behind that has no case for it.
-/

import LBoot.Io.SerialInit
import LBoot.Stdlib.Search
import LBoot.Storage.Xmodem

namespace LBoot.Storage

open LBoot.Io LBoot.Lib LBoot.Stdlib

/-! ## Model -/

/-- `protocol_hand_t`: the data of the handles are places in `_port_data`, and
    `recv` tells whether it is `_xmodem_recv`. -/
structure ProtocolHand where
  type : ProtocolType
  inData : Option Nat
  outData : Option Nat
  recv : Bool
  deriving DecidableEq, Repr

/-- What `memset` leaves. -/
def ProtocolHand.zero : ProtocolHand := ⟨.none, none, none, false⟩

/-- `CONFIG_SERIAL_BAUDRATE`, `CONFIG_SERIAL_FIFO_SIZE`,
    `CONFIG_SERIAL_FLOWCONTROL_USE_RTS` and `CONFIG_SERIAL_FLOWCONTROL_DTR`. -/
structure ProtocolConfig where
  serialBaudrate : Nat
  serialFifoSize : Nat
  useRts : Bool
  useDtr : Bool
  deriving DecidableEq, Repr

inductive ProtocolError where
  /-- -1: no `:` -/
  | notUri
  /-- -1: "Unsupported scheme: `%s`" -/
  | unsupportedScheme
  /-- -1: "xmodem: URI `%s` missing `//`" -/
  | missingSlashes
  /-- -1: "xmodem: Bad serial port name `%s`" -/
  | badPortName
  /-- `panic` of `serial_init` -/
  | panicked
  /-- a read behind the end of memory -/
  | readTooFar
  deriving DecidableEq, Repr

/-- `PROTOCOL_URISCHEME_XMODEM`. -/
def urischemeXmodem : List UInt8 := [0x78, 0x6d, 0x6f, 0x64, 0x65, 0x6d]

/-- `PROTOCOL_URISCHEME_YMODEM`. -/
def urischemeYmodem : List UInt8 := [0x79, 0x6d, 0x6f, 0x64, 0x65, 0x6d]

/-- `//`. -/
def slashes : List UInt8 := [0x2f, 0x2f]

/-- `COM1` to `COM4`, by the value of `SERIAL_CFG_PORT_*`. -/
def comName (port : Fin 4) : List UInt8 := [0x43, 0x4f, 0x4d, 0x31 + UInt8.ofNat port]

/-- The comparisons with the names of ports. -/
def xmodemPort (portStr : List UInt8) : List (Fin 4) → Except ProtocolError (Fin 4)
  | [] => .error .badPortName
  | port :: ports =>
      match strncmp portStr (comName port ++ [0]) 4 with
      | none => .error .readTooFar
      | some d => if d = 0 then .ok port else xmodemPort portStr ports

/-- The configuration of the port. -/
def serialCfg (config : ProtocolConfig) (port : Nat) : Nat :=
  port <<< 0 ||| config.serialFifoSize <<< 2 ||| config.serialFifoSize <<< 6 |||
    (if config.useRts then 1 <<< 10 else 0) ||| (if config.useDtr then 1 <<< 11 else 0)

/-- The data `serial_init` gives to the handles. -/
def serialHandle (st : SerialPorts) (cfg : Nat) : Option Nat :=
  (serialPort cfg).bind fun p => (serialFindPortdata st.portData p.1).map Prod.fst

/-- The second half of `protocol_xmodem_init`.  What `serial_init` returns is
    not looked at. -/
def xmodemOpen (config : ProtocolConfig) (rxMem txMem : List UInt8) (proto : ProtocolHand)
    (st : SerialPorts) (port : Fin 4) : Except ProtocolError (ProtocolHand × SerialPorts) :=
  let c : InitCall := ⟨true, true, config.serialBaudrate, serialCfg config port, rxMem, txMem⟩
  match serialInit st c with
  | .error .panicked => .error .panicked
  | .error .failed => .ok ({ proto with recv := true }, st)
  | .ok st' =>
      let data := serialHandle st c.cfg
      .ok ({ proto with inData := data, outData := data, recv := true }, st')

/-- `protocol_xmodem_init`, with the memory `alloc` returns for the FIFOs. -/
def protocolXmodemInit (config : ProtocolConfig) (rxMem txMem uri : List UInt8)
    (proto : ProtocolHand) (st : SerialPorts) :
    Except ProtocolError (ProtocolHand × SerialPorts) :=
  match strstr uri (slashes ++ [0]) with
  | none => .error .readTooFar
  | some none => .error .missingSlashes
  | some (some sep) =>
      match xmodemPort (uri.drop (sep + 2)) (List.finRange 4) with
      | .error e => .error e
      | .ok port => xmodemOpen config rxMem txMem proto st port

/-- `_check_scheme`. -/
def checkScheme (scheme uri : List UInt8) (colon : Nat) : Option Bool :=
  if colon = scheme.length then (strncasecmp (scheme ++ [0]) uri scheme.length).map (· = 0)
  else some false

/-- The type of the scheme. -/
def protocolType (uri : List UInt8) (colon : Nat) : Option ProtocolType :=
  match checkScheme urischemeXmodem uri colon with
  | none => none
  | some true => some .xmodem
  | some false => (checkScheme urischemeYmodem uri colon).map fun b => if b then .ymodem else .none

/-- `protocol_init`. -/
def protocolInit (config : ProtocolConfig) (rxMem txMem uri : List UInt8) (st : SerialPorts) :
    Except ProtocolError (ProtocolHand × SerialPorts) :=
  match strchr uri 0x3a with
  | none => .error .readTooFar
  | some none => .error .notUri
  | some (some colon) =>
      match protocolType uri colon with
      | none => .error .readTooFar
      | some .xmodem =>
          protocolXmodemInit config rxMem txMem uri { ProtocolHand.zero with type := .xmodem } st
      | some _ => .error .unsupportedScheme

/-! ## The URIs -/

/-- A URI with this scheme, in any letter case, then `://`, the name of a port,
    and the end or `/` and a file name. -/
def DocumentedWith (FileName : List UInt8 → Prop) (scheme uri : List UInt8) (com : Fin 4) : Prop :=
  ∃ s rest, EqIgnoreCase scheme s ∧ (rest = [] ∨ ∃ name, FileName name ∧ rest = 0x2f :: name) ∧
    uri = s ++ 0x3a :: (slashes ++ (comName com ++ rest))

/-- The documented URIs. -/
def DocumentedUri (FileName : List UInt8 → Prop) (uri : List UInt8) (com : Fin 4) : Prop :=
  DocumentedWith FileName urischemeXmodem uri com ∨ DocumentedWith FileName urischemeYmodem uri com

/-- The scheme `xmodem`, and the name of a port behind the first `//`. -/
def TakenUri (uri : List UInt8) (com : Fin 4) : Prop :=
  ∃ s text rest, EqIgnoreCase urischemeXmodem s ∧ ¬ slashes <:+: text ++ [0x2f] ∧
    uri = s ++ 0x3a :: (text ++ (slashes ++ (comName com ++ rest)))

/-! ## Recognition -/

section

variable {l m s tail uri w : List UInt8} {com com' : Fin 4}

/-- The port named behind the first `//`. -/
theorem takenUri_iff (hs : 0x3a ∉ s) : TakenUri (s ++ 0x3a :: tail) com ↔
    EqIgnoreCase urischemeXmodem s ∧
      ∃ text rest, FirstOccurrence slashes tail text (comName com ++ rest) := by
  constructor
  · rintro ⟨s', text, rest, hscheme, hfirst, huri⟩
    have hs' : 0x3a ∉ s' := not_mem_of_eqIgnoreCase hscheme (by decide)
    have hocc := firstOccurrence_singleton hs tail
    rw [huri] at hocc
    obtain ⟨rfl, rfl⟩ := hocc.unique (firstOccurrence_singleton hs' _)
    exact ⟨hscheme, text, rest, rfl, hfirst⟩
  · rintro ⟨hscheme, text, rest, rfl, hfirst⟩
    exact ⟨s, text, rest, hscheme, hfirst, rfl⟩

theorem comName_length (com : Fin 4) : (comName com).length = 4 := rfl

theorem comName_inj (h : comName com = comName com') : com = com' := by
  revert com com'
  decide

theorem comName_zero (com : Fin 4) : 0 ∉ comName com := by
  revert com
  decide

theorem comName_unique (h : comName com <+: l) (h' : comName com' <+: l) : com = com' :=
  comName_inj ((List.prefix_of_prefix_length_le h h' (Nat.le_refl 4)).eq_of_length rfl)

/-- The first name that fits. -/
theorem xmodemPort_eq (l w : List UInt8) (ports : List (Fin 4)) :
    (∃ port ∈ ports, comName port <+: l ∧ xmodemPort (l ++ 0 :: w) ports = .ok port) ∨
    (∀ port ∈ ports, ¬ comName port <+: l) ∧
      xmodemPort (l ++ 0 :: w) ports = .error .badPortName := by
  induction ports with
  | nil =>
      right
      exact ⟨fun port hport => absurd hport List.not_mem_nil, rfl⟩
  | cons port ports ih =>
      obtain ⟨d, hd, hiff⟩ :=
        strncmp_eq (comName_zero port) (List.cons_ne_nil _ _) l w [0]
      rw [comName_length] at hd
      rw [xmodemPort, hd]
      by_cases hname : comName port <+: l
      · left
        exact ⟨port, List.mem_cons_self, hname, if_pos (hiff.mpr hname)⟩
      · dsimp only
        rw [if_neg (hiff.not.mpr hname)]
        obtain ⟨port', hmem, hpre, hrun⟩ | ⟨hnone, hrun⟩ := ih
        · left
          exact ⟨port', List.mem_cons_of_mem port hmem, hpre, hrun⟩
        · right
          exact ⟨List.forall_mem_cons.mpr ⟨hname, hnone⟩, hrun⟩

/-- `_check_scheme` compares the whole scheme. -/
theorem checkScheme_eq {scheme : List UInt8} (hzero : 0 ∉ scheme) (hne : scheme ≠ [])
    (s w : List UInt8) :
    checkScheme scheme (s ++ w) s.length = some (decide (EqIgnoreCase scheme s)) := by
  rw [checkScheme]
  by_cases hlen : s.length = scheme.length
  · obtain ⟨d, hd, hiff⟩ := strncasecmp_eq hzero hne hlen.symm [0] w
    rw [if_pos hlen, hd, Option.map_some, decide_eq_decide.mpr hiff]
  · rw [if_neg hlen, decide_eq_false fun h => hlen (length_of_eqIgnoreCase h)]

theorem protocolType_eq (s w : List UInt8) : protocolType (s ++ w) s.length =
    some (if EqIgnoreCase urischemeXmodem s then .xmodem
      else if EqIgnoreCase urischemeYmodem s then .ymodem else .none) := by
  have hxmodem := @checkScheme_eq urischemeXmodem (by decide) (List.cons_ne_nil _ _) s w
  have hymodem := @checkScheme_eq urischemeYmodem (by decide) (List.cons_ne_nil _ _) s w
  rw [protocolType, hxmodem, hymodem]
  by_cases hx : EqIgnoreCase urischemeXmodem s
  · rw [if_pos hx, decide_eq_true hx]
  · rw [if_neg hx, decide_eq_false hx]
    by_cases hy : EqIgnoreCase urischemeYmodem s
    · rw [if_pos hy, decide_eq_true hy]
      rfl
    · rw [if_neg hy, decide_eq_false hy]
      rfl

/-- Behind a scheme of letters. -/
theorem protocolXmodemInit_eq (config : ProtocolConfig) (rxMem txMem w : List UInt8)
    (proto : ProtocolHand) (st : SerialPorts) (hs : 0x2f ∉ s) (hzero : 0 ∉ s ++ 0x3a :: tail) :
    (∃ com text rest, FirstOccurrence slashes tail text (comName com ++ rest) ∧
      protocolXmodemInit config rxMem txMem ((s ++ 0x3a :: tail) ++ 0 :: w) proto st =
        xmodemOpen config rxMem txMem proto st com) ∨
    (∀ (com : Fin 4) (text rest : List UInt8),
        ¬ FirstOccurrence slashes tail text (comName com ++ rest)) ∧
      ∃ e, protocolXmodemInit config rxMem txMem ((s ++ 0x3a :: tail) ++ 0 :: w) proto st =
        .error e := by
  have hfront : 0x2f ∉ s ++ [0x3a] := by
    rw [List.mem_append, List.mem_singleton, not_or]
    exact ⟨hs, by decide⟩
  have hiff : ∀ {l r : List UInt8}, FirstOccurrence slashes (s ++ 0x3a :: tail) l r ↔
      ∃ text, l = s ++ [0x3a] ++ text ∧ FirstOccurrence slashes tail text r := by
    intro l r
    rw [List.append_cons]
    exact firstOccurrence_append_iff hfront
  rw [protocolXmodemInit]
  obtain ⟨l, r, hocc, hsep⟩ | ⟨hnone, hsep⟩ :=
    @strstr_eq (s ++ 0x3a :: tail) slashes (List.cons_ne_nil _ _) (by decide) hzero w []
  · have hport : (s ++ 0x3a :: tail ++ 0 :: w).drop (l.length + 2) = r ++ 0 :: w := by
      rw [hocc.split, ← List.append_assoc l]
      have hlen : l.length + 2 = (l ++ slashes).length := (@List.length_append _ l slashes).symm
      rw [hlen, List.append_assoc, List.drop_left]
    obtain ⟨text, rfl, htext⟩ := hiff.mp hocc
    rw [hsep]
    dsimp only
    rw [hport]
    obtain ⟨com, -, ⟨rest, rfl⟩, hrun⟩ | ⟨hbad, hrun⟩ := xmodemPort_eq r w (List.finRange 4)
    · left
      rw [hrun]
      exact ⟨com, text, rest, htext, rfl⟩
    · -- only the name behind the first `//` counts
      right
      rw [hrun]
      refine ⟨fun com text' rest htext' => ?_, _, rfl⟩
      obtain ⟨-, rfl⟩ := htext.unique htext'
      exact hbad com (List.mem_finRange com) (List.prefix_append _ _)
  · right
    rw [hsep]
    refine ⟨fun com text rest htext => hnone ?_, _, rfl⟩
    obtain ⟨hsplit, -⟩ := hiff.mpr ⟨text, rfl, htext⟩
    exact ⟨s ++ [0x3a] ++ text, comName com ++ rest, by rw [hsplit, List.append_assoc]⟩

/-- `protocol_init` takes the URIs of `TakenUri`. -/
theorem protocolInit_spec (config : ProtocolConfig) (rxMem txMem w : List UInt8)
    (st : SerialPorts) (hzero : 0 ∉ uri) :
    (∃ com, TakenUri uri com ∧ protocolInit config rxMem txMem (uri ++ 0 :: w) st =
      xmodemOpen config rxMem txMem ⟨.xmodem, none, none, false⟩ st com) ∨
    (∀ com, ¬ TakenUri uri com) ∧
      ∃ e, protocolInit config rxMem txMem (uri ++ 0 :: w) st = .error e := by
  rw [protocolInit]
  by_cases hcolon : 0x3a ∈ uri
  · -- the scheme stands in front of the first `:`
    obtain ⟨s, tail, rfl, hs⟩ := List.eq_append_cons_of_mem hcolon
    have hs0 : 0 ∉ s := fun h => hzero (List.mem_append_left _ h)
    have htype := protocolType_eq s (0x3a :: (tail ++ 0 :: w))
    have hmem : s ++ 0x3a :: tail ++ 0 :: w = s ++ 0x3a :: (tail ++ 0 :: w) :=
      List.append_assoc _ _ _
    simp only [takenUri_iff hs]
    rw [hmem, strchr_eq hs hs0 (by decide)]
    dsimp only
    rw [htype]
    by_cases hx : EqIgnoreCase urischemeXmodem s
    · -- so there is no `/` in it
      rw [if_pos hx, ← hmem]
      have hslash : 0x2f ∉ s := not_mem_of_eqIgnoreCase hx (by decide)
      obtain ⟨com, text, rest, hocc, hrun⟩ | ⟨hnone, e, hrun⟩ :=
        @protocolXmodemInit_eq s tail config rxMem txMem w ⟨.xmodem, none, none, false⟩ st hslash
          hzero
      · left
        exact ⟨com, ⟨hx, text, rest, hocc⟩, hrun⟩
      · right
        exact ⟨fun com ⟨_, text, rest, hocc⟩ => hnone com text rest hocc, e, hrun⟩
    · -- `ymodem` and all others end in the default case
      right
      refine ⟨fun com h => hx h.1, .unsupportedScheme, ?_⟩
      rw [if_neg hx]
      split_ifs <;> rfl
  · right
    rw [strchr_null hcolon hzero]
    refine ⟨fun com ⟨s, text, rest, _, _, huri⟩ => hcolon ?_, .notUri, rfl⟩
    rw [huri]
    exact List.mem_append_right _ List.mem_cons_self

theorem TakenUri.unique (h : TakenUri uri com) (h' : TakenUri uri com') : com = com' := by
  obtain ⟨s, text, rest, hscheme, hfirst, rfl⟩ := h
  have hs : 0x3a ∉ s := not_mem_of_eqIgnoreCase hscheme (by decide)
  obtain ⟨-, text', rest', hocc⟩ := (takenUri_iff hs).mp h'
  obtain ⟨-, hrest⟩ := hocc.unique ⟨rfl, hfirst⟩
  exact comName_unique ⟨rest, hrest.symm⟩ (List.prefix_append _ _)

end

end LBoot.Storage
