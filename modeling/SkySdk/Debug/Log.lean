import SkySdk.Debug.Defs
import SkySdk.Str.Search

/-!
# `sky_debug.c`: levels

`sky_debug_init`, the log functions and the macros in front of them. `Logging` is what they keep:
`sky_log_level`, the mask of `syslog`, which has a bit for each priority, and whether the process
runs in the background. A message is its text, formatted; in the foreground the time stands before
it, which `stamp` is, nothing if there is no local time.
-/

set_option autoImplicit false

namespace Sky.Debug

open Base

/-- `SKY_LOG_LEVEL_FATAL` to `SKY_LOG_LEVEL_DEBUG` -/
inductive Level
  | fatal
  | error
  | warn
  | trace
  | debug
deriving DecidableEq, Repr

def Level.code : Level → Nat
  | .fatal => 2
  | .error => 3
  | .warn => 4
  | .trace => 5
  | .debug => 6

structure Logging where
  skyLogLevel : Level
  mask : Nat
  background : Bool
deriving DecidableEq, Repr

/-- Before the first call every priority passes the mask. -/
def Logging.start : Logging := ⟨.warn, 255, false⟩

/-- `tolower` -/
def toLower (c : UInt8) : UInt8 := if 65 ≤ c ∧ c ≤ 90 then c + 32 else c

/-- `sky_str_casecmp` -/
def skyStrCasecmp (str1 str2 : CStr) : Int :=
  strcmp (str1.bytes.map toLower) (str2.bytes.map toLower)

theorem noNul_fatal : (0 : UInt8) ∉ [70, 65, 84, 65, 76] := by decide

theorem noNul_error : (0 : UInt8) ∉ [69, 82, 82, 79, 82] := by decide

theorem noNul_warn : (0 : UInt8) ∉ [87, 65, 82, 78] := by decide

theorem noNul_trace : (0 : UInt8) ∉ [84, 82, 65, 67, 69] := by decide

theorem noNul_debug : (0 : UInt8) ∉ [68, 69, 66, 85, 71] := by decide

/-- `"FATAL"`, `"ERROR"`, `"WARN"`, `"TRACE"` and `"DEBUG"` -/
def Level.name : Level → CStr
  | .fatal => ⟨_, noNul_fatal⟩
  | .error => ⟨_, noNul_error⟩
  | .warn => ⟨_, noNul_warn⟩
  | .trace => ⟨_, noNul_trace⟩
  | .debug => ⟨_, noNul_debug⟩

/-- `LOG_UPTO` -/
def logUpto (priority : Nat) : Nat := (1 <<< (priority + 1)) - 1

/-- The level that the environment variable sets. -/
def levelFrom (logLevel : Option CStr) (skyLogLevel : Level) : Level :=
  match logLevel with
  | none => skyLogLevel
  | some logLevel =>
    if skyStrCasecmp logLevel Level.fatal.name = 0 then .fatal
    else if skyStrCasecmp logLevel Level.error.name = 0 then .error
    else if skyStrCasecmp logLevel Level.warn.name = 0 then .warn
    else if skyStrCasecmp logLevel Level.trace.name = 0 then .trace
    else if skyStrCasecmp logLevel Level.debug.name = 0 then .debug
    else skyLogLevel

/-- `logLevel` is what `getenv` gives. -/
def skyDebugInit (logLevel : Option CStr) (s : Logging) : Logging :=
  let skyLogLevel := levelFrom logLevel s.skyLogLevel
  { s with skyLogLevel, mask := logUpto skyLogLevel.code }

/-- `vsyslog` with a priority, which the mask may drop. -/
def vsyslog (s : Logging) (priority : Nat) (text : List UInt8) : Option Printed :=
  if s.mask.testBit priority then some (.syslog text) else none

/-- `sky_log_debug` and the others: `SYSLOG` with the function's level. -/
def skyLog (level : Level) (s : Logging) (stamp text : List UInt8) : Option Printed :=
  if s.background then vsyslog s level.code text else some (.stdout (stamp ++ text))

/-- `SKY_LOG_DEBUG` and the others. -/
def skyLogMacro (level : Level) (s : Logging) (stamp text : List UInt8) : Option Printed :=
  if s.skyLogLevel.code < level.code then none else skyLog level s stamp text

/-! ## Runs -/

/-- `sky_debug_uninit` changes nothing of this, and `daemon` may fail. -/
inductive LogOp
  | init (logLevel : Option CStr)
  | uninit
  | setRunInBackground (succeeds : Bool)
  | log (level : Level) (stamp text : List UInt8)

def LogOp.apply (s : Logging) : LogOp → Logging
  | .init logLevel => skyDebugInit logLevel s
  | .uninit => s
  | .setRunInBackground succeeds => { s with background := s.background || succeeds }
  | .log _ _ _ => s

def run (ops : List LogOp) : Logging := ops.foldl LogOp.apply .start

end Sky.Debug
