import SkySdk.Base.Buf
import SkySdk.Base.CStr
import SkySdk.Base.HexText

/-!
# `sky_debug.c`: the dump of a buffer

`sky_log_print_buf`. Its array `output` is a list of cells, `none` as long as a cell was not
written, and a write behind its end is a fault. `sky_process_is_run_in_background` only says where
the text goes.
-/

set_option autoImplicit false

namespace Sky.Debug

open Base

/-- `sizeof( output )` -/
def outputSize : Nat := 1024

/-- What `sky_str_printf( d, 10, "%02x ", *s )` writes: at most 9 characters and a NUL. -/
def printedByte (c : UInt8) : List (Option UInt8) :=
  (((print02x c.toUInt32 ++ [32]).take 9) ++ [0]).map some

/-- The rounds of the loop, at most `len`, with what is left of the buffer at `s`; `d` is an offset
into `output`. -/
def printLoop : Nat → List UInt8 → Nat → List (Option UInt8) →
    Except Fault (Nat × List (Option UInt8))
  | 0, _, d, output => .ok (d, output)
  | len + 1, s, d, output =>
    if d < outputSize then do
      let output ← writeRun output d (printedByte (← readAt s 0))
      printLoop len s.tail (d + 3) output
    else .ok (d, output)

/-- Where a text has gone. -/
inductive Printed
  | syslog (text : List UInt8)
  | stdout (text : List UInt8)
deriving DecidableEq, Repr

/-- `"%s\n"` -/
def line (s : CStr) : List UInt8 := s.bytes ++ [10]

def skyLogPrintBuf (background : Bool) (buf : List UInt8) (len : UInt32) :
    Except Fault (Int × Printed) := do
  let (d, output) ← printLoop len.toNat buf 0 (.replicate outputSize none)
  let output ← writeAt output d (some 0)
  let text ← CStr.read output
  if background then pure (0, .syslog (line text)) else pure (0, .stdout (line text))

end Sky.Debug
