/-
  LBoot.Config.Config

  Loading the configuration (src/config/config.c).

  The parser cuts the text in place, from `line` on; it never looks back.  So
  the memory is what lies from `line` on, and `next` is an offset into it:
  zero where it still points to the line itself.  A read behind the last byte
  of that memory is a fault.

  The strings and the array of modules are areas that `alloc` hands out: it
  finds room for them, and they lie elsewhere.
-/

import LBoot.Stdlib.Strings

namespace LBoot.Config

open LBoot.Lib LBoot.Stdlib

/-- `config_data_module_t`; a string pointer is what it points to, `none` for
    `NULL`. -/
structure ConfigModule where
  modulePath : Option (List UInt8)
  moduleName : Option (List UInt8)
  moduleAddr : Nat
  moduleSize : Nat
  deriving DecidableEq, Repr

/-- `config_data_t`. -/
structure ConfigData where
  configVersion : Nat
  kernelPath : Option (List UInt8)
  kernelCmdline : Option (List UInt8)
  moduleCount : Nat
  modules : List ConfigModule
  deriving DecidableEq, Repr

/-- `config_data_t` after `memset`. -/
def zeroConfig : ConfigData := ⟨0, none, none, 0, []⟩

/-- `config_data_module_t` after `memset`. -/
def zeroModule : ConfigModule := ⟨none, none, 0, 0⟩

/-- `MAX_MODULES`. -/
abbrev maxModules : Nat := 4

def cr : UInt8 := 0x0d

def lf : UInt8 := 0x0a

/-- `'='`. -/
def equals : UInt8 := 0x3d

/-- `"CFGVER"`. -/
def keyCfgver : List UInt8 := [0x43, 0x46, 0x47, 0x56, 0x45, 0x52]

/-- `"KERNEL"`. -/
def keyKernel : List UInt8 := [0x4b, 0x45, 0x52, 0x4e, 0x45, 0x4c]

/-- `"CMDLINE"`. -/
def keyCmdline : List UInt8 := [0x43, 0x4d, 0x44, 0x4c, 0x49, 0x4e, 0x45]

/-- `"MODULE"`. -/
def keyModule : List UInt8 := [0x4d, 0x4f, 0x44, 0x55, 0x4c, 0x45]

/-! ## Lines -/

/-- Where `_get_line` ends the line.  No pointer is below `NULL`. -/
def lineEnd : Option Nat → Option Nat → Option Nat
  | some endCr, some endLf => if endCr < endLf then some endCr else some endLf
  | _, endLf => endLf

/-- The loop of `_get_line`, from `end` on: the bytes it cleared, and what
    lies behind them. -/
def clearNewlines : List UInt8 → Option (List UInt8 × List UInt8)
  | [] => none
  | b :: m =>
      if b = cr ∨ b = lf then (clearNewlines m).map fun (zs, rest) => (0 :: zs, rest)
      else some ([], b :: m)

/-- `_get_line`: the memory, and `next`. -/
def getLine (m : List UInt8) (next : Option Nat) : Option (List UInt8 × Option Nat) := do
  let endCr ← strchr m cr
  let endLf ← strchr m lf
  match lineEnd endCr endLf with
  | none => return (m, none)
  | some stop =>
      let (zs, rest) ← clearNewlines (m.drop stop)
      let b ← rest.head?
      return (m.take stop ++ zs ++ rest, if b ≠ 0 then some (stop + zs.length) else next)

/-- What `_config_parse` does with a line behind `_get_line`: the memory, and
    the configuration; an error is the return of -1. -/
def parseLine (cfg : ConfigData) (m : List UInt8) :
    Option (List UInt8 × Except ConfigData ConfigData) := do
  match ← strchr m equals with
  | none => return (m, .ok cfg)
  | some eq =>
      let m := m.set eq 0
      let val := m.drop (eq + 1)
      let _ ← strlen val
      if (← strcmp m (keyCfgver ++ [0])) = 0 then
        let cfg := { cfg with configVersion := (← strtoul val 10) % 2 ^ 8 }
        return (m, if cfg.configVersion ≠ 1 then .error cfg else .ok cfg)
      else if (← strcmp m (keyKernel ++ [0])) = 0 then
        return (m, .ok { cfg with kernelPath := some (← strcpy val) })
      else if (← strcmp m (keyCmdline ++ [0])) = 0 then
        return (m, .ok { cfg with kernelCmdline := some (← strcpy val) })
      else if (← strcmp m (keyModule ++ [0])) = 0 then
        if cfg.moduleCount = maxModules then return (m, .error cfg)
        else
          let path ← strcpy val
          let modules := cfg.modules.modify cfg.moduleCount fun md =>
            { md with modulePath := some path, moduleName := some path }
          return (m, .ok { cfg with modules := modules, moduleCount := cfg.moduleCount + 1 })
      else return (m, .ok cfg)

/-- How `_config_parse` ends. -/
inductive ParseRet where
  /-- a read behind the last byte -/
  | fault
  /-- not within the iterations allowed -/
  | stuck
  | ret (r : Int) (cfg : ConfigData)
  deriving DecidableEq, Repr

/-- The loop of `_config_parse`. -/
def configParseLoop : Nat → ConfigData → List UInt8 → Option Nat → ParseRet
  | 0, _, _, _ => .stuck
  | fuel + 1, cfg, m, next =>
      match getLine m next with
      | none => .fault
      | some (m, next) =>
          match parseLine cfg m with
          | none => .fault
          | some (_, .error cfg) => .ret (-1) cfg
          | some (m, .ok cfg) =>
              match next with
              | none => .ret 0 cfg
              | some line => configParseLoop fuel cfg (m.drop line) (some 0)

/-- `_config_parse`.  A line is taken at most once for each byte, and once
    more at the end. -/
def configParse (cfg : ConfigData) (cfgdata : List UInt8) : ParseRet :=
  configParseLoop (cfgdata.length + 2)
    { cfg with modules := List.replicate maxModules zeroModule } cfgdata none

/-! ## Files -/

/-- What `config_load` uses of a `file_hand_t`: `read`, of so many bytes from
    an offset on, returns a count and fills the buffer. -/
structure ConfigFile where
  size : Nat
  read : Nat → Nat → Int × List UInt8

/-- How `config_load` ends. -/
inductive LoadRet where
  | panic
  | fault
  | stuck
  | ret (r : Int) (cfg : ConfigData)
  deriving DecidableEq, Repr

/-- What `config_load` makes of the end of `_config_parse`. -/
def loadRet : ParseRet → LoadRet
  | .fault => .fault
  | .stuck => .stuck
  | .ret r cfg => if r ≠ 0 then .ret (-1) cfg else .ret 0 cfg

/-- `config_load`: the file as `file_open` found it, and the memory behind the
    buffer it is read into. -/
def configLoad (cfgfile : Option ConfigFile) (after : List UInt8) (cfg : ConfigData) : LoadRet :=
  match cfgfile with
  | none => .ret (-1) cfg
  | some cfgfile =>
      -- there is no area of size zero
      if cfgfile.size = 0 then .panic
      else if (cfgfile.read cfgfile.size 0).1 ≠ s32 cfgfile.size then .ret (-1) cfg
      else loadRet (configParse zeroConfig ((cfgfile.read cfgfile.size 0).2 ++ after))

end LBoot.Config
