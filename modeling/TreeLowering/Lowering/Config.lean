import TreeLowering.Diagnostic.Queue
import TreeLowering.Lowering.Support
import TreeLowering.Text.Blank
set_option autoImplicit false

/-!
# Lowering: settings

The settings of one compilation, and the two ways in which they can be wrong.
-/

namespace TreeLowering

/-- Why settings are refused. -/
inductive ConfigError where
  /-- The output would have to link against another runtime. -/
  | unsupportedAbi (found : Support.Abi)
  /-- The error limit is not written as a number. -/
  | invalidErrorLimit (written : String)
  deriving DecidableEq, Repr, Inhabited

namespace ConfigError

/-- The name of the setting for the error limit. -/
def errorLimitSetting : String := "VELA_ERROR_LIMIT"

/-- The written form of a version. -/
def abiText (a : Support.Abi) : String := toString a.major ++ "." ++ toString a.minor

/-- The text of an error. -/
def message : ConfigError → String
  | unsupportedAbi found =>
    "unsupported runtime ABI " ++ abiText found ++ "; this backend emits " ++ abiText Support.abi
  | invalidErrorLimit written =>
    "invalid value `" ++ written ++ "` for " ++ errorLimitSetting
      ++ ": expected a non-negative integer"

end ConfigError

/-- The settings of one compilation. -/
structure Config where
  /-- The runtime that the output links against. -/
  abi : Support.Abi
  /-- Numbers are small primitives unless hinted otherwise. -/
  smallIntegers : Bool
  limits : QueueLimits
  deriving DecidableEq, Repr

namespace Config

/-- The ordinary settings. -/
def standard : Config := ⟨Support.abi, false, .standard⟩

/-- The ordinary settings, with every diagnostic kept. -/
def keepAll : Config := { standard with limits := .unlimited }

instance : Inhabited Config := ⟨standard⟩

/-- The value of decimal digits, most significant first. -/
def digitsValue (ds : List Char) : Nat := ds.foldl (fun n d => 10 * n + (d.toNat - '0'.toNat)) 0

/-- Reads a number below `2^64`: ASCII digits, after one plus sign at most. -/
def readLimit? (cs : List Char) : Option Nat :=
  let ds := match cs with
    | '+' :: rest => rest
    | all => all
  if ds.isEmpty || !ds.all Char.isDigit then none
  else if digitsValue ds < 0x10000000000000000 then some (digitsValue ds)
  else none

/-- Takes the error limit from its written form, if there is one; blanks around
it do not count. -/
def withErrorLimit (c : Config) : Option String → Except ConfigError Config
  | none => .ok c
  | some written =>
    match readLimit? (Text.trim written.toList) with
    | some n => .ok { c with limits := { c.limits with errorLimit := n } }
    | none => .error (.invalidErrorLimit written)

/-- Accepts the settings that code can be emitted for. -/
def validate (c : Config) : Except ConfigError Unit :=
  if c.abi = Support.abi then .ok () else .error (.unsupportedAbi c.abi)

end Config

end TreeLowering
