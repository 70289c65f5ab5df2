import SkySdk.Base.Prog
import Mathlib.Algebra.Group.Nat.Defs

/-!
# The formats `"%02x"` of `sprintf` and of `sscanf`

`print02x` is the text of an `unsigned int`: lower-case hexadecimal digits, at least two. `scan02x`
reads a text as `sscanf` does: white space is skipped before the width of 2 is counted, and the item
is an optionally signed number, with or without `0x`; `none` is an input or a matching failure. A
scan that needs a character behind the end of the text's object is a fault.
-/

set_option autoImplicit false

namespace Base

/-- The character of a digit. -/
def hexChar (d : Nat) : UInt8 := d.digitChar.toUInt8

def print02x (v : UInt32) : List UInt8 :=
  ((Nat.toDigits 16 v.toNat).leftpad 2 '0').map Char.toUInt8

/-- The value of a hexadecimal digit of either case. -/
def hexValue? (c : UInt8) : Option UInt32 :=
  if 48 ≤ c ∧ c ≤ 57 then some (c.toUInt32 - 48)
  else if 97 ≤ c ∧ c ≤ 102 then some (c.toUInt32 - 87)
  else if 65 ≤ c ∧ c ≤ 70 then some (c.toUInt32 - 55)
  else none

/-- Space, `\t`, `\n`, `\v`, `\f`, `\r`. -/
def isSpace (c : UInt8) : Bool := c = 32 ∨ 9 ≤ c ∧ c ≤ 13

/-- The item that starts with `c`, in a text that goes on with `rest`. -/
def scanItem (c : UInt8) (rest : List UInt8) : Except Fault (Option UInt32) :=
  match rest, hexValue? c with
  | [], some _ => .error .outOfBounds
  | [], none => if c = 43 ∨ c = 45 then .error .outOfBounds else .ok none
  | c' :: _, some d =>
    match hexValue? c' with
    | some d' => .ok (some (16 * d + d'))
    -- `0x` is the start of a number, but no number
    | none => if c = 48 ∧ (c' = 120 ∨ c' = 88) then .ok none else .ok (some d)
  | c' :: _, none =>
    match hexValue? c' with
    | some d' => if c = 43 then .ok (some d') else if c = 45 then .ok (some (-d')) else .ok none
    | none => .ok none

def scan02x (text : List UInt8) : Except Fault (Option UInt32) :=
  match text.dropWhile isSpace with
  | [] => .error .outOfBounds
  | c :: rest => scanItem c rest

variable {v : UInt32} {c : UInt8} {text rest : List UInt8}

theorem print02x_of_lt (hv : v.toNat < 256) :
    print02x v = [hexChar (v.toNat / 16), hexChar (v.toNat % 16)] := by
  unfold print02x
  rcases Nat.lt_or_ge v.toNat 16 with hlt | hge
  · rw [Nat.toDigits_of_lt_base hlt, Nat.div_eq_of_lt hlt, Nat.mod_eq_of_lt hlt]
    rfl
  · have hdiv : v.toNat / 16 < 16 := Nat.div_lt_of_lt_mul hv
    rw [Nat.toDigits_of_base_le (by decide) hge, Nat.toDigits_of_lt_base hdiv]
    rfl

theorem length_print02x {k : Nat} (hk : 0 < k) (hv : 16 ^ k ≤ v.toNat) :
    k < (print02x v).length := by
  have hlen : k < (Nat.toDigits 16 v.toNat).length := by
    apply Nat.lt_of_not_le
    intro hle
    have hlt := (Nat.length_toDigits_le_iff (by decide) hk).1 hle
    exact absurd hlt (Nat.not_lt.2 hv)
  unfold print02x
  rw [List.length_map, List.length_leftpad]
  omega

theorem not_isSpace_of_hexValue? (h : hexValue? c ≠ none) : isSpace c = false := by
  unfold hexValue? at h
  unfold isSpace
  grind

/-- Every digit that is printed is read as its value, and is no space. -/
theorem hexValue?_hexChar {d : Nat} (hd : d < 16) :
    hexValue? (hexChar d) = some (.ofNat d) ∧ isSpace (hexChar d) = false := by
  revert d
  decide

theorem scan02x_hexChar {a b : Nat} (ha : a < 16) (hb : b < 16) :
    scan02x (hexChar a :: hexChar b :: rest) = .ok (some (.ofNat (16 * a + b))) := by
  obtain ⟨hva, hsp⟩ := hexValue?_hexChar ha
  obtain ⟨hvb, -⟩ := hexValue?_hexChar hb
  have hval : (16 * UInt32.ofNat a + UInt32.ofNat b : UInt32) = .ofNat (16 * a + b) := by
    rw [UInt32.ofNat_add, UInt32.ofNat_mul]
    rfl
  rw [scan02x, List.dropWhile_cons_of_neg (by rw [hsp]; decide)]
  simp only [scanItem, hva, hvb, hval]

end Base
