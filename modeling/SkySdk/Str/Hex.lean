import SkySdk.Base.Buf
import SkySdk.Base.HexText

/-!
# `sky_str.c`: `sky_str_to_hex` and `sky_str_from_hex`

A `char` is a byte and signed where it is promoted to `int`. A pointer argument is the object it
points into, from there on, `none` for NULL. Each function gives its return value and what it has
written. `uint32_t` arithmetic wraps; an `int` that overflows and an access outside of an object are
faults. A variable that is used before it is assigned holds anything.
-/

set_option autoImplicit false

namespace Sky.Str

open Base

/-- A `char` as the `unsigned int` that `"%x"` makes of it. -/
def promoteChar (c : UInt8) : UInt32 := c.toInt8.toInt32.toUInt32

/-- `sprintf( buf, "%02x", c )` with `char buf[ 4 ]` -/
def sprintfBuf (c : UInt8) : Except Fault (List UInt8) :=
  let text := print02x (promoteChar c)
  if text.length + 1 ≤ 4 then .ok (text ++ [0]) else .error .outOfBounds

/-- The rounds of the loop of `sky_str_to_hex` that are left, at `i`. -/
def toHexFrom (str : List UInt8) (i : UInt32) : Nat → List UInt8 → Except Fault (List UInt8)
  | 0, hex => .ok hex
  | n + 1, hex => do
    let buf ← sprintfBuf (← readAt str i.toNat)
    let hex ← writeAt hex (i * 2).toNat (← readAt buf 0)
    let hex ← writeAt hex ((i * 2).toNat + 1) (← readAt buf 1)
    toHexFrom str (i + 1) n hex

def skyStrToHex (str : Option (List UInt8)) (strLen : UInt32) (hex : Option (List UInt8))
    (hexLen : UInt32) : Except Fault (Int × Option (List UInt8)) :=
  match str, hex with
  | none, hex => .ok (-1, hex)
  | some _, none => .ok (-2, none)
  | some str, some hex =>
    if strLen * 2 ≤ hexLen then do
      pure (0, some (← toHexFrom str 0 strLen.toNat hex))
    else .ok (-2, some hex)

/-- The rounds of the loop of `sky_str_from_hex`, of which at most the given number are run. -/
def fromHexLoop (hex : List UInt8) (hexLen : UInt32) :
    Nat → Nat → UInt32 → List UInt8 → Except Fault (List UInt8)
  | 0, _, _, _ => .error .endless
  | n + 1, i, value, str =>
    if i < hexLen.toNat then do
      let scanned ← scan02x (hex.drop i)
      let value := scanned.getD value
      let str ← writeAt str (i / 2) (value &&& 0xff).toUInt8
      fromHexLoop hex hexLen n (← addInt i 2) value str
    else .ok str

/-- `value` is what the variable happens to hold before it is first assigned. -/
def skyStrFromHex (value : UInt32) (hex : Option (List UInt8)) (hexLen : UInt32)
    (str : Option (List UInt8)) (strLen : UInt32) : Except Fault (Int × Option (List UInt8)) :=
  match str, hex with
  | none, _ => .ok (-1, none)
  | some str, none => .ok (-2, some str)
  | some str, some hex =>
    if strLen * 2 ≤ hexLen then do
      -- each round advances by two
      pure (0, some (← fromHexLoop hex hexLen (hexLen.toNat + 1) 0 value str))
    else .ok (-2, some str)

end Sky.Str
