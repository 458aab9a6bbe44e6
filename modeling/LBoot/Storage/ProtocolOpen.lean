/-
  LBoot.Storage.ProtocolOpen

  The port a transfer URI opens, and the URIs that are accepted exactly.

  The result of `serial_init` is not looked at: with a baud rate it refuses,
  0 is returned and no port is open.  A third port ends in a `panic`, so there
  are at most two in use, the one that is opened among them.
-/

import LBoot.Storage.Protocol
import Mathlib.Data.Finset.Card

namespace LBoot.Storage

open LBoot.Io LBoot.Lib LBoot.Stdlib

/-! ## Opening a port -/

/-- The port of a name. -/
def comBase : Fin 4 → Nat
  | 0 => 0x03f8
  | 1 => 0x02f8
  | 2 => 0x03e8
  | 3 => 0x02e8

/-- The ports in use. -/
def portsInUse (st : SerialPorts) : Finset Nat :=
  (st.portData.filterMap fun e => e.map PortData.port).toFinset

/-- Both handles are those of the port. -/
def PortOpened (proto : ProtocolHand) (st : SerialPorts) (port : Nat) : Prop :=
  ∃ k pd, proto.inData = some k ∧ proto.outData = some k ∧
    st.portData[k]? = some (some pd) ∧ pd.port = port

theorem serialPort_com {cfg : Nat} {com : Fin 4} (h : cfg &&& 0x03 = com) :
    (serialPort cfg).map Prod.fst = some (comBase com) := by
  rw [serialPort, h]
  clear h
  revert com
  decide

/-- The other options leave the bits of the port alone. -/
theorem serialCfg_port (config : ProtocolConfig) (com : Fin 4) :
    serialCfg config com &&& 0x03 = com := by
  have hshift : ∀ n k, 2 ≤ k → n <<< k &&& 0x03 = 0 := by
    intro n k hk
    obtain ⟨k, rfl⟩ := Nat.exists_eq_add_of_le hk
    show n <<< (2 + k) &&& 2 ^ 2 - 1 = 0
    rw [Nat.and_two_pow_sub_one_eq_mod, Nat.shiftLeft_eq, Nat.pow_add, ← Nat.mul_assoc,
      Nat.mul_right_comm, Nat.mul_mod_left]
  have hflag : ∀ (b : Bool) k, 2 ≤ k → (if b then 1 <<< k else 0) &&& 0x03 = 0 := by
    intro b k hk
    cases b
    · exact Nat.zero_and _
    · exact hshift 1 k hk
  rw [serialCfg]
  simp only [Nat.and_or_distrib_right, hshift _ 2 (by decide), hshift _ 6 (by decide),
    hflag _ 10 (by decide), hflag _ 11 (by decide), Nat.or_zero]
  revert com
  decide

/-- What `serial_init` needs of the ports: a port has one entry, and there is
    no room for more than two. -/
structure PortsReady (st : SerialPorts) : Prop where
  oneEntry : OneEntry st
  length : st.portData.length = maxPortCount

/-- It is so after any calls. -/
theorem portsReady_of_run {es : List InitCall} {st : SerialPorts}
    (h : initMachine.run serialPorts es = some st) : PortsReady st := by
  refine Machine.run_invariant (fun s c t hs hstep => ?_) ⟨serialPorts_inv.1, rfl⟩ h
  have hinit := initMachine_step.mp hstep
  refine ⟨serialInit_oneEntry hs.oneEntry hinit, ?_⟩
  obtain ⟨-, _, _, k, pd, -, -, hdata, -⟩ := serialInit_ok hinit
  rw [hdata, List.length_set, hs.length]

section

variable {st : SerialPorts} {port : Nat}

theorem mem_portsInUse {k : Nat} {pd : PortData} (h : st.portData[k]? = some (some pd)) :
    pd.port ∈ portsInUse st := by
  rw [portsInUse, List.mem_toFinset, List.mem_filterMap]
  exact ⟨some pd, List.mem_of_getElem? h, rfl⟩

/-- There is an entry, or room for one, unless this would be a third port. -/
theorem exists_serialFindPortdata (hst : PortsReady st)
    (hports : (insert port (portsInUse st)).card ≤ 2) :
    ∃ found, serialFindPortdata st.portData port = some found := by
  apply Option.ne_none_iff_exists'.mp
  intro hnone
  rw [serialFindPortdata] at hnone
  cases hfind : st.portData.findIdx? fun e => e.any (·.port = port) with
  | some k =>
      rw [hfind] at hnone
      cases hnone
  | none =>
      rw [hfind] at hnone
      have hother := List.findIdx?_eq_none_iff.mp hfind
      have hfull := List.findIdx?_eq_none_iff.mp (Option.map_eq_none_iff.mp hnone)
      -- both places are taken, by two other ports
      have hentry : ∀ k < 2, ∃ pd, st.portData[k]? = some (some pd) ∧ pd.port ≠ port := by
        intro k hk
        have hlt : k < st.portData.length := by rw [hst.length]; exact hk
        have hmem := List.getElem_mem hlt
        cases hslot : st.portData[k] with
        | none => simpa [hslot] using hfull _ hmem
        | some pd =>
            refine ⟨pd, by rw [List.getElem?_eq_getElem hlt, hslot], ?_⟩
            simpa [hslot] using hother _ hmem
      obtain ⟨pd, hpd, hne⟩ := hentry 0 (by omega)
      obtain ⟨pd', hpd', hne'⟩ := hentry 1 (by omega)
      have hdiff : pd.port ≠ pd'.port := fun h =>
        absurd (hst.oneEntry 0 1 pd pd' hpd hpd' h) Nat.zero_ne_one
      have hsub : {port, pd.port, pd'.port} ⊆ insert port (portsInUse st) := by
        refine Finset.insert_subset_insert port (Finset.insert_subset (mem_portsInUse hpd) ?_)
        exact Finset.singleton_subset_iff.mpr (mem_portsInUse hpd')
      have hcard := Finset.card_le_card hsub
      have hthree : ({port, pd.port, pd'.port} : Finset Nat).card = 3 :=
        Finset.card_eq_three.mpr ⟨port, pd.port, pd'.port, hne.symm, hne'.symm, hdiff, rfl⟩
      omega

variable {config : ProtocolConfig} {rxMem txMem : List UInt8} {proto : ProtocolHand} {com : Fin 4}

/-- The port is opened, if the baud rate is one; in any case 0 is returned. -/
theorem xmodemOpen_eq (hst : PortsReady st)
    (hports : (insert (comBase com) (portsInUse st)).card ≤ 2) (hproto : proto.inData = none) :
    ∃ proto' st', xmodemOpen config rxMem txMem proto st com = .ok (proto', st') ∧
      (PortOpened proto' st' (comBase com) ↔
        50 ≤ config.serialBaudrate ∧ config.serialBaudrate ≤ 115200) := by
  obtain ⟨⟨port, intId⟩, hcfg, hbase⟩ :=
    Option.map_eq_some_iff.mp (serialPort_com (serialCfg_port config com))
  obtain rfl : port = comBase com := hbase
  rw [xmodemOpen]
  dsimp only
  by_cases hbaud : 50 ≤ config.serialBaudrate ∧ config.serialBaudrate ≤ 115200
  · -- the handles get the entry that `serial_init` has found
    obtain ⟨found, hfind⟩ := exists_serialFindPortdata hst hports
    obtain ⟨st', hok⟩ := @serialInit_of_found st
      ⟨true, true, config.serialBaudrate, serialCfg config com, rxMem, txMem⟩ hbaud _ _ _ hcfg hfind
    have hhandle : serialHandle st (serialCfg config com) = some found.1 := by
      rw [serialHandle, hcfg, Option.bind_some, hfind, Option.map_some]
    rw [hok]
    dsimp only
    refine ⟨_, st', rfl, iff_of_true ?_ hbaud⟩
    obtain ⟨-, port, intId', k, pd, hcfg', hfind', hdata, -⟩ := serialInit_ok hok
    obtain ⟨rfl, -⟩ := Prod.mk.inj (Option.some.inj (hcfg.symm.trans hcfg'))
    obtain rfl : found = (k, pd) := Option.some.inj (hfind.symm.trans hfind')
    obtain ⟨hport, hslot⟩ := serialFindPortdata_cases hfind
    have hk : k < st.portData.length := by
      obtain hslot | ⟨hslot, -⟩ := hslot
      · exact (List.getElem?_eq_some_iff.mp hslot).1
      · exact (List.getElem?_eq_some_iff.mp hslot).1
    refine ⟨k, _, hhandle, hhandle, by rw [hdata, List.getElem?_set_self hk], ?_⟩
    rw [initPort_port, hport]
  · -- -1 is not looked at, and the handles stay empty
    rw [@serialInit_failed st
      ⟨true, true, config.serialBaudrate, serialCfg config com, rxMem, txMem⟩ hbaud]
    dsimp only
    refine ⟨_, st, rfl, iff_of_false ?_ hbaud⟩
    rintro ⟨k, pd, hin, -⟩
    rw [hproto] at hin
    cases hin

end

/-! ## Which URIs are accepted -/

/-- 0 is returned for the documented URIs and no others, and the port opened is
    the one named. -/
structure AcceptsExactly (FileName : List UInt8 → Prop) (uri : List UInt8)
    (result : Except ProtocolError (ProtocolHand × SerialPorts)) : Prop where
  returns_iff : (∃ proto st, result = .ok (proto, st)) ↔ ∃ com, DocumentedUri FileName uri com
  opens : ∀ proto st, result = .ok (proto, st) →
    ∀ com, DocumentedUri FileName uri com → PortOpened proto st (comBase com)

section

variable {FileName : List UInt8 → Prop} {uri : List UInt8} {com : Fin 4}

theorem DocumentedWith.taken (h : DocumentedWith FileName urischemeXmodem uri com) :
    TakenUri uri com := by
  obtain ⟨s, rest, hscheme, -, rfl⟩ := h
  refine ⟨s, [], rest, hscheme, fun hinfix => ?_, rfl⟩
  exact absurd hinfix.length_le (by decide)

/-- No URI has both schemes. -/
theorem DocumentedWith.not_taken (h : DocumentedWith FileName urischemeYmodem uri com)
    (com' : Fin 4) : ¬ TakenUri uri com' := by
  obtain ⟨s, rest, hscheme, -, rfl⟩ := h
  have hs : 0x3a ∉ s := not_mem_of_eqIgnoreCase hscheme (by decide)
  intro htaken
  obtain ⟨hscheme', -⟩ := (takenUri_iff hs).mp htaken
  have heq : EqIgnoreCase urischemeXmodem urischemeYmodem :=
    Eq.trans hscheme' (Eq.symm hscheme)
  revert heq
  decide

/-- The code meets the documentation on a URI if and only if this is not one
    with the scheme `ymodem`, and has nothing else between its parts if it is
    taken. -/
theorem protocolInit_acceptsExactly_iff (FileName : List UInt8 → Prop) (config : ProtocolConfig)
    (rxMem txMem uri w : List UInt8) (es : List InitCall) (st : SerialPorts) (hzero : 0 ∉ uri)
    (hrun : initMachine.run serialPorts es = some st)
    (hports : ∀ com, TakenUri uri com → (insert (comBase com) (portsInUse st)).card ≤ 2) :
    AcceptsExactly FileName uri (protocolInit config rxMem txMem (uri ++ 0 :: w) st) ↔
      (∀ com, ¬ DocumentedWith FileName urischemeYmodem uri com) ∧
      ∀ com, TakenUri uri com → DocumentedWith FileName urischemeXmodem uri com ∧
        50 ≤ config.serialBaudrate ∧ config.serialBaudrate ≤ 115200 := by
  obtain ⟨com, htaken, hresult⟩ | ⟨hnone, e, hresult⟩ :=
    @protocolInit_spec uri config rxMem txMem w st hzero
  · -- the URI is taken, and a port is opened unless the baud rate is refused
    obtain ⟨proto, st', hopen, hopened⟩ :=
      @xmodemOpen_eq st config rxMem txMem ⟨.xmodem, none, none, false⟩ com (portsReady_of_run hrun)
        (hports com htaken) rfl
    rw [hresult, hopen]
    constructor
    · rintro ⟨hreturns, hopens⟩
      obtain ⟨com', hdoc⟩ := hreturns.mp ⟨proto, st', rfl⟩
      have hxmodem : DocumentedWith FileName urischemeXmodem uri com' :=
        hdoc.resolve_right fun h => h.not_taken com htaken
      obtain rfl := htaken.unique hxmodem.taken
      refine ⟨fun com' h => h.not_taken com htaken, fun com' htaken' => ?_⟩
      obtain rfl := htaken.unique htaken'
      exact ⟨hxmodem, hopened.mp (hopens proto st' rfl com hdoc)⟩
    · rintro ⟨-, hall⟩
      obtain ⟨hdoc, hbaud⟩ := hall com htaken
      refine ⟨iff_of_true ⟨proto, st', rfl⟩ ⟨com, Or.inl hdoc⟩, ?_⟩
      rintro proto' st'' heq com' hdoc'
      obtain ⟨rfl, rfl⟩ := Prod.mk.inj (Except.ok.inj heq)
      have htaken' : TakenUri uri com' :=
        (hdoc'.resolve_right fun h => h.not_taken com htaken).taken
      obtain rfl := htaken.unique htaken'
      exact hopened.mpr hbaud
  · -- it is rejected, which is right unless it is documented
    rw [hresult]
    constructor
    · rintro ⟨hreturns, -⟩
      refine ⟨fun com h => ?_, fun com h => absurd h (hnone com)⟩
      obtain ⟨proto, st', h⟩ := hreturns.mpr ⟨com, Or.inr h⟩
      cases h
    · rintro ⟨hymodem, -⟩
      refine ⟨iff_of_false (fun ⟨_, _, h⟩ => ?_) ?_, fun _ _ h => ?_⟩
      · cases h
      · rintro ⟨com, h | h⟩
        · exact hnone com h.taken
        · exact hymodem com h
      · cases h

end

/-- `xmodem://COM2/k`, at the first call of `serial_init`. -/
theorem protocolInit_acceptsExactly_com2 :
    AcceptsExactly (· ≠ []) (urischemeXmodem ++ 0x3a :: (slashes ++ (comName 1 ++ [0x2f, 0x6b])))
      (protocolInit ⟨115200, 6, true, false⟩ (List.replicate 64 0) (List.replicate 64 0)
        (urischemeXmodem ++ 0x3a :: (slashes ++ (comName 1 ++ [0x2f, 0x6b])) ++ 0 :: [])
        serialPorts) := by
  have hdoc : DocumentedWith (· ≠ []) urischemeXmodem
      (urischemeXmodem ++ 0x3a :: (slashes ++ (comName 1 ++ [0x2f, 0x6b]))) 1 :=
    ⟨urischemeXmodem, [0x2f, 0x6b], rfl, Or.inr ⟨[0x6b], List.cons_ne_nil _ _, rfl⟩, rfl⟩
  refine (protocolInit_acceptsExactly_iff (· ≠ []) ⟨115200, 6, true, false⟩ _ _ _ [] [] serialPorts
    (by decide) rfl (fun com _ => ?_)).mpr ⟨fun com h => h.not_taken 1 hdoc.taken,
      fun com htaken => ?_⟩
  · have hcard : ∀ com, (insert (comBase com) (portsInUse serialPorts)).card ≤ 2 := by decide
    exact hcard com
  · obtain rfl := htaken.unique hdoc.taken
    exact ⟨hdoc, by decide⟩

/-- `ymodem://COM1` is rejected, and `xmodem://COM12` is accepted. -/
theorem protocolInit_not_acceptsExactly :
    ¬ AcceptsExactly (· ≠ []) (urischemeYmodem ++ 0x3a :: (slashes ++ comName 0))
      (protocolInit ⟨115200, 6, true, false⟩ (List.replicate 64 0) (List.replicate 64 0)
        (urischemeYmodem ++ 0x3a :: (slashes ++ comName 0) ++ [0]) serialPorts) ∧
    ¬ AcceptsExactly (· ≠ []) (urischemeXmodem ++ 0x3a :: (slashes ++ (comName 0 ++ [0x32])))
      (protocolInit ⟨115200, 6, true, false⟩ (List.replicate 64 0) (List.replicate 64 0)
        (urischemeXmodem ++ 0x3a :: (slashes ++ (comName 0 ++ [0x32])) ++ [0]) serialPorts) := by
  constructor
  · rintro ⟨hreturns, -⟩
    obtain ⟨proto, st, h⟩ := hreturns.mpr ⟨0, Or.inr ⟨urischemeYmodem, [], rfl, Or.inl rfl, rfl⟩⟩
    have hreject : protocolInit ⟨115200, 6, true, false⟩ (List.replicate 64 0)
        (List.replicate 64 0) (urischemeYmodem ++ 0x3a :: (slashes ++ comName 0) ++ [0])
        serialPorts = .error .unsupportedScheme := rfl
    rw [hreject] at h
    cases h
  · rintro ⟨hreturns, -⟩
    obtain ⟨com, ⟨s, rest, hscheme, hrest, huri⟩ | hdoc⟩ := hreturns.mp ⟨_, _, rfl⟩
    · obtain ⟨-, htail⟩ := List.append_inj huri (length_of_eqIgnoreCase hscheme).symm
      have hport := List.append_cancel_left (List.cons.inj htail).2
      obtain rfl : [0x32] = rest := (List.append_inj hport rfl).2
      obtain hnil | ⟨name, -, hname⟩ := hrest
      · cases hnil
      · cases hname
    · exact hdoc.not_taken 0 ⟨urischemeXmodem, [], [0x32], rfl, by decide, rfl⟩

end LBoot.Storage
