import SkySdk.Base.Buf
import SkySdk.Base.CStr

/-!
# `sky_str.c`: lengths and formatted names

`sky_str_len` and `sky_str_printf` as the other files use them, the latter with a format that is
some text before one `%s`.
-/

set_option autoImplicit false

namespace Sky

open Base

/-- `strlen`, as a `uint32_t`. -/
def skyStrLen (str : CStr) : UInt32 := .ofNat str.length

/-- What `vsnprintf` writes to a buffer of `size` characters. -/
def formatted (size : Nat) (before : List UInt8) (arg : CStr) : List UInt8 :=
  (before ++ arg.bytes).take (size - 1)

/-- The result and the text of `sky_str_printf`. A length beyond `int` fails, with whatever text
`left` that leaves in the buffer. -/
def skyStrPrintf (size : Nat) (before : List UInt8) (arg : CStr) (left : List UInt8) :
    Int × List UInt8 :=
  if before.length + arg.length ≤ intMax then
    (before.length + arg.length, formatted size before arg)
  else (-1, left)

/-- A text is printed, or the result is not positive. -/
theorem skyStrPrintf_pos {size : Nat} {before : List UInt8} {arg : CStr} {left : List UInt8}
    (h : 0 < (skyStrPrintf size before arg left).1) :
    (skyStrPrintf size before arg left).2 = formatted size before arg := by
  unfold skyStrPrintf at h ⊢
  by_cases hfit : before.length + arg.length ≤ intMax
  · rw [if_pos hfit]
  · rw [if_neg hfit] at h
    cases h

end Sky
