import SkySdk.Base.Prog
import Mathlib.Algebra.Group.Nat.Defs

/-!
# The bytes of a struct

On a little-endian 64-bit target: `leBytes w n` are the `w` bytes of `n`, a `Field` is an alignment
and the bytes of a member, and `place` lays the members out one after the other, each at the next
multiple of its alignment. What is read back at the offset of a leading member is its value
(`readU16_place`); the halves of a wider one are digits of its value (`readU16_leBytes`).
-/

set_option autoImplicit false

namespace Base

/-- The `w` bytes of `n`, least significant first. -/
def leBytes : Nat → Nat → List UInt8
  | 0, _ => []
  | w + 1, n => .ofNat n :: leBytes w (n / 256)

/-- A member of a struct. -/
structure Field where
  align : Nat
  bytes : List UInt8

namespace Field

def u8 (n : UInt8) : Field := ⟨1, [n]⟩

def u16 (n : UInt16) : Field := ⟨2, leBytes 2 n.toNat⟩

def u32 (n : UInt32) : Field := ⟨4, leBytes 4 n.toNat⟩

def i32 (n : Int32) : Field := u32 n.toUInt32

/-- A pointer or a `size_t`. -/
def word (n : Nat) : Field := ⟨8, leBytes 8 n⟩

end Field

/-- The padding bytes between the offset `off` and the next multiple of `align`. -/
def padding (off align : Nat) : Nat := (align - off % align) % align

/-- The members from the offset `off` on. -/
def place : Nat → List Field → List UInt8
  | _, [] => []
  | off, f :: fs =>
    List.replicate (padding off f.align) 0 ++ f.bytes ++
      place (off + padding off f.align + f.bytes.length) fs

/-- A `uint16_t` read at the offset `off`. -/
def readU16 (bytes : List UInt8) (off : Nat) : Except Fault UInt16 :=
  match bytes.drop off with
  | a :: b :: _ => .ok (a.toUInt16 + b.toUInt16 * 256)
  | _ => .error .outOfBounds

/-- A `uint32_t` read at the offset `off`. -/
def readU32 (bytes : List UInt8) (off : Nat) : Except Fault UInt32 :=
  match bytes.drop off with
  | a :: b :: c :: d :: _ =>
    .ok (a.toUInt32 + b.toUInt32 * 256 + c.toUInt32 * 65536 + d.toUInt32 * 16777216)
  | _ => .error .outOfBounds

theorem leBytes_value (n : Nat) :
    (UInt8.ofNat n).toUInt16 + (UInt8.ofNat (n / 256)).toUInt16 * 256 = .ofNat n := by
  apply UInt16.toNat_inj.1
  simp only [UInt16.toNat_add, UInt16.toNat_mul, UInt8.toNat_toUInt16, UInt8.toNat_ofNat',
    UInt16.toNat_ofNat', UInt16.reduceToNat]
  omega

theorem leBytes_value32 (n : Nat) : (UInt8.ofNat n).toUInt32 +
    (UInt8.ofNat (n / 256)).toUInt32 * 256 + (UInt8.ofNat (n / 256 / 256)).toUInt32 * 65536 +
    (UInt8.ofNat (n / 256 / 256 / 256)).toUInt32 * 16777216 = .ofNat n := by
  apply UInt32.toNat_inj.1
  simp only [UInt32.toNat_add, UInt32.toNat_mul, UInt8.toNat_toUInt32, UInt8.toNat_ofNat',
    UInt32.toNat_ofNat', UInt32.reduceToNat]
  omega

theorem readU16_leBytes (off w n : Nat) (rest : List UInt8) :
    readU16 (leBytes (off + 2 + w) n ++ rest) off = .ok (.ofNat (n / 256 ^ off)) := by
  induction off generalizing n with
  | zero =>
    rw [Nat.zero_add, Nat.add_comm 2 w, Nat.pow_zero, Nat.div_one]
    exact congrArg Except.ok (leBytes_value n)
  | succ off ih =>
    have hsucc : off + 1 + 2 + w = off + 2 + w + 1 := by omega
    have ih := ih (n / 256)
    rw [Nat.div_div_eq_div_mul, Nat.mul_comm, ← Nat.pow_succ] at ih
    rw [hsucc, leBytes, List.cons_append]
    exact ih

theorem place_aligned {off : Nat} (f : Field) (fs : List Field) (h : off % f.align = 0) :
    place off (f :: fs) = f.bytes ++ place (off + f.bytes.length) fs := by
  have hpad : padding off f.align = 0 := by simp [padding, h]
  rw [place, hpad, List.replicate_zero, List.nil_append, Nat.add_zero]

theorem readU16_place (a b : UInt16) (fs : List Field) :
    readU16 (place 0 (.u16 a :: .u16 b :: fs)) 2 = .ok b := by
  have hb := leBytes_value b.toNat
  rw [UInt16.ofNat_toNat] at hb
  rw [place_aligned _ _ (Nat.zero_mod _), place_aligned _ _ (by simp [Field.u16, leBytes])]
  exact congrArg Except.ok hb

theorem readU16_append (pre bytes : List UInt8) (off : Nat) :
    readU16 (pre ++ bytes) (pre.length + off) = readU16 bytes off := by
  rw [readU16, readU16, List.drop_length_add_append]

theorem readU32_append (pre bytes : List UInt8) (off : Nat) :
    readU32 (pre ++ bytes) (pre.length + off) = readU32 bytes off := by
  rw [readU32, readU32, List.drop_length_add_append]

end Base
