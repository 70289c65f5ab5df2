import SkySdk.Base.Buf
import SkySdk.Base.CStr

/-!
# `sky_sys.c`: the name and the directory of the process

`sky_sys_get_process_name` and `sky_sys_get_process_directory`, for an executable at `path` and any
`SKY_PATH_MAX`. They differ in the part of the link's target that they copy. A length that does not
fit into the `int rc` is taken for an overflow.
-/

set_option autoImplicit false

namespace Sky

open Base

/-- `readlink( "/proc/self/exe", link_target, size )`: the target cut to `size` characters. A size
that is not positive is an error. -/
def readlink (path : CStr) (size : Nat) : Option (List UInt8) :=
  if size = 0 then none else some (path.bytes.take size)

/-- The offset of the last `c`. -/
def strrchr (c : UInt8) : List UInt8 → Option Nat
  | [] => none
  | x :: s =>
    match strrchr c s with
    | some i => some (i + 1)
    | none => if x = c then some 0 else none

/-- A length as an `int`. -/
def intOf (n : Nat) : Except Fault Nat := if n ≤ intMax then .ok n else .error .overflow

/-- What both functions do. `part` is the start and the length of the part to copy, given the offset
of the last slash and `rc`. -/
def copyPart (part : Nat → Nat → Nat × Nat) (pathMax : Nat) (path : CStr)
    (buf : Option (List UInt8)) (len : UInt32) : Except Fault (Int × Option (List UInt8)) :=
  match buf with
  | none => .ok (-1, none)
  | some buf =>
    if len > 1 then
      match readlink path pathMax with
      | none => .ok (-3, some buf)
      | some linkTarget => do
        let rc ← intOf linkTarget.length
        match strrchr 47 linkTarget with
        | none => pure (-4, some buf)
        | some lastSlash =>
          if lastSlash = 0 then pure (-4, some buf)
          else do
            let (start, pathLen) := part lastSlash rc
            if pathLen + 1 > len.toNat then pure (-5, some buf)
            else do
              let buf ← writeRun buf 0 ((linkTarget.drop start).take pathLen)
              let buf ← writeAt buf pathLen 0
              pure (pathLen, some buf)
    else .ok (-2, some buf)

def skySysGetProcessName (pathMax : Nat) (path : CStr) (buf : Option (List UInt8)) (len : UInt32) :
    Except Fault (Int × Option (List UInt8)) :=
  copyPart (fun lastSlash rc => (lastSlash + 1, rc - (lastSlash + 1))) pathMax path buf len

def skySysGetProcessDirectory (pathMax : Nat) (path : CStr) (buf : Option (List UInt8))
    (len : UInt32) : Except Fault (Int × Option (List UInt8)) :=
  copyPart (fun lastSlash _ => (0, lastSlash)) pathMax path buf len

end Sky
