/-
  LBoot.Io.Output

  The current output, and the console's status bar (src/io/output.c,
  src/io/vga.c).

  Texts go to the device that is set; status lines and the working icon go to
  the row below the screen, where the device has one, and are printed
  otherwise.  Whatever is called in whatever order, the screen shows the text
  printed to it, and the row below it the last status line and the last icon;
  neither disturbs the other (`outputRun_shows`).
-/

import LBoot.Io.PrintCalls
import LBoot.Io.Vga

namespace LBoot.Io

open LBoot.Lib LBoot.Stdlib

/-! ## The status bar -/

/-- `working_status_e`. -/
inductive WorkingStatus where
  | notworking
  | working
  | error
  deriving DecidableEq, Repr

/-- `&vidmem[res_x * res_y + pos]`. -/
def VgaConfig.barAddr (g : VgaConfig) (pos : Nat) : Nat :=
  g.cellAddr (g.resX.toNat * g.resY.toNat + pos)

/-- `bar[pos] = VCHAR(ch, fg, 0x7)`. -/
def putBar (ch fg : UInt8) (pos : Nat) (s : VgaState) : VgaState :=
  { s with mem := storeAt s.mem (s.barAddr pos) (toLe 2 (vchar ch fg 0x7).toNat) }

/-- The first loop of `_vga_status`. -/
def vgaStatusText : List UInt8 → Nat → VgaState → VgaState × Nat
  | [], pos, s => (s, pos)
  | ch :: str, pos, s =>
      if pos < s.resX.toNat then vgaStatusText str (pos + 1) (putBar ch 0x0 pos s) else (s, pos)

/-- The second one. -/
def vgaStatusFill : Nat → Nat → VgaState → VgaState
  | 0, _, s => s
  | n + 1, pos, s =>
      if pos < s.resX.toNat then vgaStatusFill n (pos + 1) (putBar 0x20 0x0 pos s) else s

/-- `_vga_status`. -/
def vgaStatus (str : List UInt8) (s : VgaState) : VgaState :=
  let s := putBar 0x20 0x0 1 s
  let (s, pos) := vgaStatusText str 2 s
  vgaStatusFill s.resX.toNat pos s

/-- `spinner`, a line that turns. -/
def spinner : List UInt8 := [0x7c, 0x2f, 0x2d, 0x5c]

/-- `_vga_working`, with `spinner_pos`. -/
def vgaWorking (status : WorkingStatus) (s : VgaState) (spinnerPos : Nat) : VgaState × Nat :=
  let spinnerPos := if spinnerPos ≥ spinner.length then 0 else spinnerPos
  match status with
  | .notworking => (putBar 0x20 0x0 0 s, spinnerPos)
  | .working => (putBar (spinner.getD spinnerPos 0) 0x0 0 s, spinnerPos + 1)
  | .error => (putBar 0x21 0x4 0 s, spinnerPos)

/-! ## The current output -/

/-- The output drivers. -/
inductive Device where
  | vga
  | serial
  deriving DecidableEq, Repr

/-- The options, and what the serial driver does with a buffer. -/
structure OutputConfig (δ : Type*) where
  /-- `CONFIG_STATUSBAR` -/
  statusbar : Bool
  /-- `CONFIG_WORKINGSTATUS` -/
  workingstatus : Bool
  serialWrite : List UInt8 → δ → δ

/-- `_current_output`, and the devices. -/
structure OutputState (δ : Type*) where
  current : Option Device
  vga : VgaState
  spinnerPos : Nat
  serial : δ

section

variable {δ : Type*} (cfg : OutputConfig δ) (strings : UInt32 → List Char)

/-- `_current_output->write`. -/
def outputWrite (data : List UInt8) (s : OutputState δ) : OutputState δ :=
  match s.current with
  | none => s
  | some .vga => { s with vga := (vgaWrite data s.vga).1 }
  | some .serial => { s with serial := cfg.serialWrite data s.serial }

/-- `output_set`. -/
def outputSet (output : Option Device) (s : OutputState δ) : OutputState δ :=
  { s with current := output }

/-- `putchar`. -/
def putchar (ch : UInt8) (s : OutputState δ) : OutputState δ := outputWrite cfg [ch] s

/-- What `strlen` takes for the string. -/
def cString (str : List UInt8) : List UInt8 := str.takeWhile (· ≠ 0)

/-- `puts`. -/
def puts (str : List UInt8) (s : OutputState δ) : OutputState δ := outputWrite cfg (cString str) s

/-- `_printf_buff`, behind `_print`; `none` is the text that does not fit. -/
def printfBuff (format : List Char) (varg : List UInt32) : Option (List UInt8) :=
  (print strings format varg).bind fun (out, _) =>
    if out.length < printfBuffSize then some (out.map fun c => UInt8.ofNat c.toNat) else none

/-- `printf`. -/
def printf (format : List Char) (varg : List UInt32) (s : OutputState δ) : Option (OutputState δ) :=
  (printfBuff strings format varg).map fun buff => puts cfg buff s

/-- The current output has a status bar. -/
def OutputState.hasBar (s : OutputState δ) : Bool := cfg.statusbar && s.current == some .vga

/-- `print_status`. -/
def printStatus (format : List Char) (varg : List UInt32) (s : OutputState δ) :
    Option (OutputState δ) :=
  (printfBuff strings format varg).map fun buff =>
    if s.hasBar cfg then { s with vga := vgaStatus (cString buff) s.vga }
    else putchar cfg 0x0a (puts cfg buff s)

/-- `status_working`. -/
def statusWorking (status : WorkingStatus) (s : OutputState δ) : OutputState δ :=
  if cfg.workingstatus then
    if s.hasBar cfg then
      let (vga, spinnerPos) := vgaWorking status s.vga s.spinnerPos
      { s with vga, spinnerPos }
    else if status = .working then putchar cfg 0x2e s
    else s
  else s

/-- The calls of output.h. -/
inductive OutputCall where
  | outputSet (output : Option Device)
  | putchar (ch : UInt8)
  | puts (str : List UInt8)
  | printf (format : List Char) (varg : List UInt32)
  | printStatus (format : List Char) (varg : List UInt32)
  | statusWorking (status : WorkingStatus)

def outputCall (s : OutputState δ) : OutputCall → Option (OutputState δ)
  | .outputSet output => some (outputSet output s)
  | .putchar ch => some (putchar cfg ch s)
  | .puts str => some (puts cfg str s)
  | .printf format varg => printf cfg strings format varg s
  | .printStatus format varg => printStatus cfg strings format varg s
  | .statusWorking status => some (statusWorking cfg status s)

/-- Calls in their order. -/
def outputRun (calls : List OutputCall) (s : OutputState δ) : Option (OutputState δ) :=
  calls.foldlM (outputCall cfg strings) s

/-- Behind `vga_init`. -/
def outputStart (m : Int → UInt8) (serial : δ) : OutputState δ :=
  ⟨none, vgaInit (vgaState cfg.statusbar m), 0, serial⟩

/-! ## What is seen -/

/-- What has been printed, and what the status bar was told last. -/
structure Console where
  current : Option Device
  /-- on the screen -/
  text : List UInt8
  status : Option (List UInt8)
  icon : Option WorkingStatus
  /-- how often the icon was told of work -/
  ticks : Nat
  /-- the buffers sent to the serial line -/
  sent : List (List UInt8)

namespace Console

def empty : Console := ⟨none, [], none, none, 0, []⟩

/-- A text is printed. -/
def say (c : Console) (text : List UInt8) : Console :=
  match c.current with
  | none => c
  | some .vga => { c with text := c.text ++ text }
  | some .serial => { c with sent := c.sent ++ [text] }

def hasBar (c : Console) : Bool := cfg.statusbar && c.current == some .vga

def call (c : Console) : OutputCall → Option Console
  | .outputSet output => some { c with current := output }
  | .putchar ch => some (c.say [ch])
  | .puts str => some (c.say (cString str))
  | .printf format varg => (printfBuff strings format varg).map fun buff => c.say (cString buff)
  | .printStatus format varg => (printfBuff strings format varg).map fun buff =>
      if c.hasBar cfg then { c with status := some (cString buff) }
      else (c.say (cString buff)).say [0x0a]
  | .statusWorking status => some <|
      if ¬ cfg.workingstatus then c
      else if c.hasBar cfg then
        { c with icon := some status, ticks := c.ticks + if status = .working then 1 else 0 }
      else if status = .working then c.say [0x2e]
      else c

def run (calls : List OutputCall) (c : Console) : Option Console := calls.foldlM (call cfg strings) c

/-- The cell of the icon. -/
def iconCell (ticks : Nat) : WorkingStatus → List UInt8
  | .notworking => toLe 2 (vchar 0x20 0x0 0x7).toNat
  | .working => toLe 2 (vchar (spinner.getD ((ticks - 1) % 4) 0) 0x0 0x7).toNat
  | .error => toLe 2 (vchar 0x21 0x4 0x7).toNat

/-- The cells behind it: as much of the line as there is room for, a blank in
    front of it and blanks behind it. -/
def statusCells (w : Nat) (line : List UInt8) : List UInt8 :=
  let text := (0x20 :: line).take (w - 1)
  (text ++ List.replicate (w - 1 - text.length) 0x20).flatMap fun ch =>
    toLe 2 (vchar ch 0x0 0x7).toNat

/-- The memory, with the status bar. -/
def barMem (c : Console) (g : VgaConfig) (m : Int → UInt8) : Int → UInt8 :=
  let m := match c.icon with
    | none => m
    | some status => storeAt m (g.barAddr 0) (iconCell c.ticks status)
  match c.status with
  | none => m
  | some line => storeAt m (g.barAddr 1) (statusCells g.resX.toNat line)

end Console

end

/-! ## The memory of the bar -/

/-- The bytes of a cell of the bar. -/
def barCell (ch : UInt8) : List UInt8 := toLe 2 (vchar ch 0x0 0x7).toNat

theorem length_barCell (ch : UInt8) : (barCell ch).length = 2 := length_toLe 2 _

theorem length_flatMap_barCell (text : List UInt8) : (text.flatMap barCell).length = 2 * text.length := by
  induction text with
  | nil => rfl
  | cons ch text ih =>
      rw [List.flatMap_cons, List.length_append, ih, List.length_cons, length_barCell]
      omega

/-- One cell, and those behind it. -/
theorem putBar_behind (ch : UInt8) (pos : Nat) (text : List UInt8) (s : VgaState) :
    storeAt (putBar ch 0x0 pos s).mem (s.barAddr (pos + 1)) (text.flatMap barCell) =
      storeAt s.mem (s.barAddr pos) ((ch :: text).flatMap barCell) := by
  rw [List.flatMap_cons]
  refine storeAt_behind s.mem ?_ (text.flatMap barCell)
  rw [length_toLe, VgaConfig.barAddr, VgaConfig.barAddr, VgaConfig.cellAddr, VgaConfig.cellAddr]
  omega

theorem vgaStatusText_eq (str : List UInt8) : ∀ (pos : Nat) (s : VgaState),
    vgaStatusText str pos s =
      ({ s with
          mem := storeAt s.mem (s.barAddr pos) ((str.take (s.resX.toNat - pos)).flatMap barCell) },
        pos + (str.take (s.resX.toNat - pos)).length) := by
  induction str with
  | nil =>
      intro pos s
      rw [List.take_nil, List.flatMap_nil, storeAt_nil]
      rfl
  | cons ch str ih =>
      intro pos s
      rw [vgaStatusText]
      split_ifs with hpos
      · have hroom : s.resX.toNat - pos = s.resX.toNat - (pos + 1) + 1 := by omega
        rw [ih]
        show ((⟨s.toVgaConfig, s.posX, s.posY, storeAt (putBar ch 0x0 pos s).mem
          (s.barAddr (pos + 1)) ((str.take (s.resX.toNat - (pos + 1))).flatMap barCell)⟩ : VgaState),
          pos + 1 + (str.take (s.resX.toNat - (pos + 1))).length) = _
        rw [putBar_behind, hroom, List.take_succ_cons, List.length_cons]
        congr 1
        omega
      · have hroom : s.resX.toNat - pos = 0 := by omega
        rw [hroom, List.take_zero, List.flatMap_nil, storeAt_nil]
        rfl

theorem vgaStatusFill_eq (n : Nat) : ∀ (pos : Nat) (s : VgaState), s.resX.toNat - pos ≤ n →
    vgaStatusFill n pos s = { s with
      mem := storeAt s.mem (s.barAddr pos)
        ((List.replicate (s.resX.toNat - pos) 0x20).flatMap barCell) } := by
  induction n with
  | zero =>
      intro pos s hn
      rw [Nat.le_zero.mp hn, List.replicate_zero, List.flatMap_nil, storeAt_nil]
      rfl
  | succ n ih =>
      intro pos s hn
      rw [vgaStatusFill]
      split_ifs with hpos
      · have hroom : s.resX.toNat - pos = s.resX.toNat - (pos + 1) + 1 := by omega
        rw [ih (pos + 1) (putBar 0x20 0x0 pos s) (by show s.resX.toNat - (pos + 1) ≤ n; omega)]
        show (⟨s.toVgaConfig, s.posX, s.posY, storeAt (putBar 0x20 0x0 pos s).mem
          (s.barAddr (pos + 1)) ((List.replicate (s.resX.toNat - (pos + 1)) 0x20).flatMap barCell)⟩
          : VgaState) = _
        rw [putBar_behind, hroom, List.replicate_succ]
      · have hroom : s.resX.toNat - pos = 0 := by omega
        rw [hroom, List.replicate_zero, List.flatMap_nil, storeAt_nil]

/-- `_vga_status` fills the bar, but for the cell of the icon. -/
theorem vgaStatus_eq (str : List UInt8) (s : VgaState) (hw : 2 ≤ s.resX.toNat) :
    vgaStatus str s = { s with
      mem := storeAt s.mem (s.barAddr 1) (Console.statusCells s.resX.toNat str) } := by
  obtain ⟨w, hw⟩ := Nat.exists_eq_add_of_le hw
  have htext : (0x20 :: str).take (s.resX.toNat - 1) = 0x20 :: str.take w := by
    have hpred : s.resX.toNat - 1 = w + 1 := by omega
    rw [hpred, List.take_succ_cons]
  have hroom : s.resX.toNat - 2 = w := by omega
  have hfill : s.resX.toNat - (2 + (str.take w).length) =
      s.resX.toNat - 1 - (0x20 :: str.take w).length := by
    rw [List.length_cons]
    omega
  have hbehind : s.barAddr (2 + (str.take w).length) =
      s.barAddr 1 + ((0x20 :: str.take w).flatMap barCell).length := by
    rw [length_flatMap_barCell, List.length_cons, VgaConfig.barAddr, VgaConfig.barAddr,
      VgaConfig.cellAddr, VgaConfig.cellAddr]
    omega
  let t : VgaState := { s with
    mem := storeAt s.mem (s.barAddr 1) ((0x20 :: str.take w).flatMap barCell) }
  have hrun : vgaStatus str s = vgaStatusFill s.resX.toNat (2 + (str.take w).length) t := by
    rw [vgaStatus, vgaStatusText_eq]
    show vgaStatusFill s.resX.toNat (2 + (str.take (s.resX.toNat - 2)).length)
      ⟨s.toVgaConfig, s.posX, s.posY, storeAt (putBar 0x20 0x0 1 s).mem (s.barAddr (1 + 1))
        ((str.take (s.resX.toNat - 2)).flatMap barCell)⟩ = _
    rw [putBar_behind, hroom]
  refine hrun.trans ((vgaStatusFill_eq s.resX.toNat _ t (Nat.sub_le _ _)).trans ?_)
  show (⟨s.toVgaConfig, s.posX, s.posY, storeAt (storeAt s.mem (s.barAddr 1) _)
    (s.barAddr (2 + (str.take w).length)) ((List.replicate (s.resX.toNat - (2 + (str.take w).length))
      0x20).flatMap barCell)⟩ : VgaState) = _
  rw [storeAt_behind s.mem hbehind, hfill, ← List.flatMap_append, Console.statusCells, htext]
  rfl

/-! ## The screen and the bar -/

/-- The screen behind this text. -/
def screenOf (g : VgaConfig) (text : List UInt8) : Screen (List UInt8) :=
  text.foldl (fun scr ch => scr.put 0x0a g.resX.toNat g.resY.toNat g.drawn [0, 0] ch)
    ⟨fun _ _ => [0, 0], 0, 0⟩

theorem screenOf_append (g : VgaConfig) (text data : List UInt8) :
    screenOf g (text ++ data) =
      data.foldl (fun scr ch => scr.put 0x0a g.resX.toNat g.resY.toNat g.drawn [0, 0] ch)
        (screenOf g text) := List.foldl_append

theorem screenOf_shows (g : VgaConfig) (text : List UInt8) :
    (screenOf g text).Shows g.resX.toNat g.resY.toNat g.drawn [0, 0]
      (layout 0x0a g.resX.toNat text) := by
  have hblank := @Screen.shows_blank UInt8 _ g.resX.toNat g.resY.toNat g.drawn [0, 0]
    ⟨fun _ _ => [0, 0], 0, 0⟩ g.resY_pos (fun _ _ _ _ => rfl) rfl rfl
  exact @Screen.Shows.run _ _ _ _ _ _ _ [] [] _ 0x0a hblank text

section

variable {m : Int → UInt8} {s : VgaState} {scr : Screen (List UInt8)}

/-- A store below the rows is none to the screen. -/
theorem Draws.storeBelow (hs : Draws m s scr) {k : Nat} (hk : s.barAddr 0 ≤ k) (bs : List UInt8) :
    Draws (storeAt m k bs) { s with mem := storeAt s.mem k bs } scr := by
  have hbar : s.barAddr 0 = s.vidmem + 2 * (s.resX.toNat * s.resY.toNat) := rfl
  refine ⟨hs.x, hs.y, hs.x_lt, hs.y_lt, fun y hy x hx => ?_, fun a ha => ?_⟩
  · have hidx : y * s.resX.toNat + x < s.resX.toNat * s.resY.toNat := index_lt hx hy
    refine (loadAt_storeAt_disjoint (Or.inl ?_)).trans (hs.cells y hy x hx)
    show ((s.vidmem + 2 * (y * s.resX.toNat + x) : Nat) : Int) + (2 : Nat) ≤ k
    omega
  · show storeAt s.mem k bs a = storeAt m k bs a
    rw [storeAt, storeAt, hs.frame a ha]

end

/-- The cells of the bar, but for the icon's. -/
theorem length_statusCells {w : Nat} (line : List UInt8) :
    (Console.statusCells w line).length = 2 * (w - 1) := by
  have htake : ((0x20 :: line).take (w - 1)).length ≤ w - 1 := by
    rw [List.length_take]
    omega
  refine (length_flatMap_barCell _).trans ?_
  rw [List.length_append, List.length_replicate]
  omega

theorem length_iconCell (ticks : Nat) (status : WorkingStatus) :
    (Console.iconCell ticks status).length = 2 := by
  cases status <;> exact length_toLe 2 _

namespace Console

variable (c : Console) (g : VgaConfig) (m : Int → UInt8)

/-- A new status line takes the place of the one before. -/
theorem barMem_status (line : List UInt8) :
    { c with status := some line }.barMem g m =
      storeAt (c.barMem g m) (g.barAddr 1) (statusCells g.resX.toNat line) := by
  rw [barMem, barMem]
  cases c.status with
  | none => rfl
  | some old =>
      have hlen : (statusCells g.resX.toNat old).length = (statusCells g.resX.toNat line).length := by
        rw [length_statusCells, length_statusCells]
      have hover := storeAt_front (match c.icon with
        | none => m
        | some status => storeAt m (g.barAddr 0) (iconCell c.ticks status)) (g.barAddr 1) hlen []
      rw [List.append_nil, List.append_nil] at hover
      exact hover.symm

/-- So does a new icon. -/
theorem barMem_icon (ticks : Nat) (status : WorkingStatus) :
    { c with icon := some status, ticks := ticks }.barMem g m =
      storeAt (c.barMem g m) (g.barAddr 0) (iconCell ticks status) := by
  have hover : storeAt (match c.icon with
      | none => m
      | some status => storeAt m (g.barAddr 0) (iconCell c.ticks status)) (g.barAddr 0)
        (iconCell ticks status) = storeAt m (g.barAddr 0) (iconCell ticks status) := by
    cases c.icon with
    | none => rfl
    | some old =>
        have hlen : (iconCell c.ticks old).length = (iconCell ticks status).length := by
          rw [length_iconCell, length_iconCell]
        have hfront := storeAt_front m (g.barAddr 0) hlen []
        rwa [List.append_nil, List.append_nil] at hfront
  rw [barMem, barMem]
  cases c.status with
  | none => exact hover.symm
  | some line =>
      have hcomm := @storeAt_comm UInt8 (match c.icon with
        | none => m
        | some status => storeAt m (g.barAddr 0) (iconCell c.ticks status))
        (g.barAddr 1) (g.barAddr 0) (statusCells g.resX.toNat line) (iconCell ticks status)
        (Or.inr (by
          rw [length_iconCell]
          show ((g.vidmem + 2 * (g.resX.toNat * g.resY.toNat + 0) : Nat) : Int) + (2 : Nat) ≤
            ((g.vidmem + 2 * (g.resX.toNat * g.resY.toNat + 1) : Nat) : Int)
          omega))
      exact (hcomm.trans (congrArg (storeAt · _ _) hover)).symm

end Console

/-! ## Runs -/

section

variable {δ : Type*} {cfg : OutputConfig δ} {strings : UInt32 → List Char} {m : Int → UInt8}
  {serial : δ} {s : OutputState δ} {c : Console}

/-- The devices are as the console says. -/
structure Refines (cfg : OutputConfig δ) (m : Int → UInt8) (serial : δ) (s : OutputState δ)
    (c : Console) : Prop where
  current : s.current = c.current
  config : s.vga.toVgaConfig = (vgaState cfg.statusbar m).toVgaConfig
  draws : Draws (c.barMem s.vga.toVgaConfig m) s.vga (screenOf s.vga.toVgaConfig c.text)
  turn : s.spinnerPos ≤ 4 ∧ s.spinnerPos % 4 = c.ticks % 4
  serial : s.serial = c.sent.foldl (fun d data => cfg.serialWrite data d) serial

theorem refines_start (cfg : OutputConfig δ) (m : Int → UInt8) (serial : δ) :
    Refines cfg m serial (outputStart cfg m serial) Console.empty where
  current := rfl
  config := rfl
  draws := @draws_vgaInit (vgaState cfg.statusbar m) rfl rfl
  turn := ⟨Nat.zero_le 4, rfl⟩
  serial := rfl

/-- A text that is handed on. -/
theorem Refines.write (h : Refines cfg m serial s c) (data : List UInt8) :
    Refines cfg m serial (outputWrite cfg data s) (c.say data) := by
  have hcurrent := h.current
  cases hdev : c.current with
  | none =>
      have hs : outputWrite cfg data s = s := by rw [outputWrite, hcurrent, hdev]
      have hc : c.say data = c := by rw [Console.say, hdev]
      rw [hs, hc]
      exact h
  | some device =>
      cases device with
      | vga =>
          obtain ⟨hconfig, hdraws⟩ := h.draws.write data
          have hs : outputWrite cfg data s = { s with vga := (vgaWrite data s.vga).1 } := by
            rw [outputWrite, hcurrent, hdev]
          have hc : c.say data = { c with text := c.text ++ data } := by rw [Console.say, hdev]
          rw [hs, hc]
          refine ⟨hcurrent, hconfig.trans h.config, ?_, h.turn, h.serial⟩
          show Draws (c.barMem (vgaWrite data s.vga).1.toVgaConfig m) (vgaWrite data s.vga).1
            (screenOf (vgaWrite data s.vga).1.toVgaConfig (c.text ++ data))
          rw [hconfig, screenOf_append]
          exact hdraws
      | serial =>
          have hs : outputWrite cfg data s = { s with serial := cfg.serialWrite data s.serial } := by
            rw [outputWrite, hcurrent, hdev]
          have hc : c.say data = { c with sent := c.sent ++ [data] } := by rw [Console.say, hdev]
          rw [hs, hc]
          refine ⟨hcurrent, h.config, h.draws, h.turn, ?_⟩
          show cfg.serialWrite data s.serial = (c.sent ++ [data]).foldl _ serial
          rw [List.foldl_append, ← h.serial]
          rfl

/-- A status line for the bar. -/
theorem Refines.status (h : Refines cfg m serial s c) (line : List UInt8) :
    Refines cfg m serial { s with vga := vgaStatus line s.vga } { c with status := some line } := by
  have hw : 2 ≤ s.vga.resX.toNat := by
    rw [h.config]
    show 2 ≤ (80 : UInt8).toNat
    decide
  have hbelow : s.vga.barAddr 0 ≤ s.vga.barAddr 1 := by
    rw [VgaConfig.barAddr, VgaConfig.barAddr, VgaConfig.cellAddr, VgaConfig.cellAddr]
    omega
  rw [vgaStatus_eq line s.vga hw]
  refine ⟨h.current, h.config, ?_, h.turn, h.serial⟩
  show Draws ({ c with status := some line }.barMem s.vga.toVgaConfig m) _ _
  rw [Console.barMem_status]
  exact h.draws.storeBelow hbelow _

/-- An icon. -/
theorem Refines.working (h : Refines cfg m serial s c) (status : WorkingStatus) :
    Refines cfg m serial
      { s with
        vga := (vgaWorking status s.vga s.spinnerPos).1
        spinnerPos := (vgaWorking status s.vga s.spinnerPos).2 }
      { c with icon := some status, ticks := c.ticks + if status = .working then 1 else 0 } := by
  obtain ⟨hle, hmod⟩ := h.turn
  -- the position wraps around when it is used next
  have hwrap : (if s.spinnerPos ≥ spinner.length then 0 else s.spinnerPos) = c.ticks % 4 := by
    have hlen : spinner.length = 4 := rfl
    rw [hlen]
    split_ifs with hfour <;> omega
  have hcell : vgaWorking status s.vga s.spinnerPos =
      ({ s.vga with
          mem := storeAt s.vga.mem (s.vga.barAddr 0)
            (Console.iconCell (c.ticks + if status = .working then 1 else 0) status) },
        c.ticks % 4 + if status = .working then 1 else 0) := by
    cases status with
    | notworking =>
        rw [vgaWorking.eq_def, hwrap]
        rfl
    | error =>
        rw [vgaWorking.eq_def, hwrap]
        rfl
    | working =>
        rw [vgaWorking.eq_def, hwrap]
        rfl
  rw [hcell]
  refine ⟨h.current, h.config, ?_, ⟨?_, ?_⟩, h.serial⟩
  · show Draws ({ c with
      icon := some status
      ticks := c.ticks + if status = WorkingStatus.working then 1 else 0 }.barMem
        s.vga.toVgaConfig m) _ _
    rw [Console.barMem_icon]
    exact h.draws.storeBelow (Nat.le_refl _) _
  · show c.ticks % 4 + (if status = .working then 1 else 0) ≤ 4
    split_ifs <;> omega
  · show (c.ticks % 4 + if status = .working then 1 else 0) % 4 =
      (c.ticks + if status = .working then 1 else 0) % 4
    omega

theorem Refines.hasBar (h : Refines cfg m serial s c) : s.hasBar cfg = c.hasBar cfg := by
  rw [OutputState.hasBar, Console.hasBar, h.current]

/-- One call. -/
theorem Refines.call (h : Refines cfg m serial s c) (k : OutputCall) :
    Option.Rel (Refines cfg m serial) (outputCall cfg strings s k) (c.call cfg strings k) := by
  cases k with
  | outputSet output =>
      exact .some ⟨rfl, h.config, h.draws, h.turn, h.serial⟩
  | putchar ch => exact .some (h.write [ch])
  | puts str => exact .some (h.write (cString str))
  | printf format varg =>
      rw [outputCall, Console.call, printf]
      cases printfBuff strings format varg with
      | none => exact .none
      | some buff => exact .some (h.write (cString buff))
  | printStatus format varg =>
      rw [outputCall, Console.call, printStatus]
      cases printfBuff strings format varg with
      | none => exact .none
      | some buff =>
          rw [Option.map_some, Option.map_some, h.hasBar]
          refine .some ?_
          split_ifs with hbar
          · exact h.status (cString buff)
          · exact (h.write (cString buff)).write [0x0a]
  | statusWorking status =>
      refine .some ?_
      rw [statusWorking, h.hasBar, ite_not]
      by_cases hopt : cfg.workingstatus = true
      · rw [if_pos hopt, if_pos hopt]
        by_cases hbar : c.hasBar cfg = true
        · rw [if_pos hbar, if_pos hbar]
          exact h.working status
        · rw [if_neg hbar, if_neg hbar]
          by_cases hwork : status = .working
          · rw [if_pos hwork, if_pos hwork]
            exact h.write [0x2e]
          · rw [if_neg hwork, if_neg hwork]
            exact h
      · rw [if_neg hopt, if_neg hopt]
        exact h

/-- Any calls. -/
theorem Refines.run (calls : List OutputCall) : ∀ {s : OutputState δ} {c : Console},
    Refines cfg m serial s c →
    Option.Rel (Refines cfg m serial) (outputRun cfg strings calls s) (c.run cfg strings calls) := by
  induction calls with
  | nil => exact fun h => .some h
  | cons k calls ih =>
      intro s c h
      have hcall := @Refines.call _ _ strings _ _ _ _ h k
      rw [outputRun, Console.run, List.foldlM_cons, List.foldlM_cons]
      cases hs : outputCall cfg strings s k with
      | none =>
          rw [hs] at hcall
          cases hc : c.call cfg strings k with
          | none => exact .none
          | some c' =>
              rw [hc] at hcall
              cases hcall
      | some s' =>
          rw [hs] at hcall
          cases hc : c.call cfg strings k with
          | none =>
              rw [hc] at hcall
              cases hcall
          | some c' =>
              rw [hc] at hcall
              cases hcall with
              | some h' => exact ih h'

/-- What is in the video memory, and what the serial line got. -/
structure Seen (cfg : OutputConfig δ) (m : Int → UInt8) (serial : δ) (s : OutputState δ)
    (c : Console) : Prop where
  /-- the end of the text, on the rows of the screen -/
  cells : ∀ y < s.vga.resY.toNat, ∀ x < 80, s.vga.cell s.vga.mem y x =
    cellOf s.vga.drawn [0, 0] ((layout 0x0a 80 c.text).rtake s.vga.resY.toNat) y x
  config : s.vga.toVgaConfig = (vgaState cfg.statusbar m).toVgaConfig
  /-- the cursor is behind the text -/
  column : (layout 0x0a 80 c.text).getLast?.map List.length = some s.vga.posX.toNat
  row : ((layout 0x0a 80 c.text).rtake s.vga.resY.toNat).length = s.vga.posY.toNat + 1
  /-- the bar, and nothing else, is changed besides -/
  frame : ∀ a, s.vga.Outside a → s.vga.mem a = c.barMem s.vga.toVgaConfig m a
  serial : s.serial = c.sent.foldl (fun d data => cfg.serialWrite data d) serial

theorem Refines.seen (h : Refines cfg m serial s c) : Seen cfg m serial s c := by
  have hshows := screenOf_shows s.vga.toVgaConfig c.text
  have hresX : s.vga.resX.toNat = 80 := by
    rw [h.config]
    rfl
  have hdraws := h.draws
  rw [hresX] at hshows
  refine ⟨fun y hy x hx => ?_, h.config, ?_, ?_, hdraws.frame, h.serial⟩
  · rw [hdraws.cells y hy x (by rw [hresX]; exact hx)]
    exact hshows.cells y hy x hx
  · rw [hshows.column, hdraws.x]
  · rw [hshows.row, hdraws.y]

end

/-- **The console**: after `vga_init` and any calls, the screen shows the end
    of the text that was printed to it, with the cursor behind it; the row
    below it, where there is one, shows the last icon, its spinner as far
    turned as it was told, and the last status line, as much as there is room
    for; no other memory is touched.  The serial line got the other texts,
    status lines and dots among them. -/
theorem outputRun_shows {δ : Type*} (cfg : OutputConfig δ) (strings : UInt32 → List Char)
    (m : Int → UInt8) (serial : δ) (calls : List OutputCall) :
    Option.Rel (Seen cfg m serial) (outputRun cfg strings calls (outputStart cfg m serial))
      (Console.empty.run cfg strings calls) := by
  have hrun := @Refines.run _ cfg strings m serial calls _ _ (refines_start cfg m serial)
  generalize outputRun cfg strings calls (outputStart cfg m serial) = s at hrun
  generalize Console.empty.run cfg strings calls = c at hrun
  cases hrun with
  | some h => exact .some h.seen
  | none => exact .none

end LBoot.Io
