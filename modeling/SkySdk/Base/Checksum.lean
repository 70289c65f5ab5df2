import SkySdk.Base.Layout

/-!
# The Internet checksum

`onesSum word bytes`: the ones' complement sum of 16-bit words, a carry out of the highest bit added
to the lowest, where `word` says which byte of a word is the higher one; a last odd byte has a zero
behind it. A checksum is its complement (`Completes`), on a little-endian machine. The sum is 65535
exactly when the plain sum is a multiple of 65535 but not 0, and that is so for both byte orders or
for neither (`onesSum_eq_max`), so that what one machine has summed can be verified on another
(`Completes.verifies`).
-/

set_option autoImplicit false

namespace Base

/-- A word of a little-endian machine. -/
def leWord (a b : UInt8) : Nat := a.toNat + 256 * b.toNat

/-- A word in network byte order. -/
def beWord (a b : UInt8) : Nat := 256 * a.toNat + b.toNat

def wordSum (word : UInt8 → UInt8 → Nat) : List UInt8 → Nat
  | [] => 0
  | [a] => word a 0
  | a :: b :: rest => word a b + wordSum word rest

/-- Addition with an end-around carry. -/
def onesAdd (m n : Nat) : Nat := if m + n < 65536 then m + n else m + n - 65535

def onesSum (word : UInt8 → UInt8 → Nat) : List UInt8 → Nat
  | [] => 0
  | [a] => word a 0
  | a :: b :: rest => onesAdd (word a b) (onesSum word rest)

/-- `check` is the Internet checksum of the bytes. -/
def Completes (check : UInt16) (bytes : List UInt8) : Prop :=
  onesSum leWord bytes + check.toNat = 65535

theorem leWord_lt (a b : UInt8) : leWord a b < 65536 := by
  have ha := a.toNat_lt
  have hb := b.toNat_lt
  unfold leWord
  omega

theorem beWord_lt (a b : UInt8) : beWord a b < 65536 := by
  have ha := a.toNat_lt
  have hb := b.toNat_lt
  unfold beWord
  omega

/-! ## The sum and the plain sum -/

section
variable {word : UInt8 → UInt8 → Nat} (hword : ∀ a b, word a b < 65536)
include hword

/-- The sum is a remainder of the plain sum, and 0 only where that is. -/
theorem onesSum_spec : ∀ bytes : List UInt8, onesSum word bytes < 65536 ∧
    onesSum word bytes % 65535 = wordSum word bytes % 65535 ∧
    (onesSum word bytes = 0 ↔ wordSum word bytes = 0)
  | [] => ⟨Nat.zero_lt_succ _, rfl, Iff.rfl⟩
  | [a] => ⟨hword a 0, rfl, Iff.rfl⟩
  | a :: b :: rest => by
    obtain ⟨hlt, hmod, hzero⟩ := onesSum_spec rest
    have hw := hword a b
    rw [onesSum, wordSum, onesAdd]
    split <;> omega

theorem onesSum_eq_max_iff (bytes : List UInt8) : onesSum word bytes = 65535 ↔
    wordSum word bytes ≠ 0 ∧ wordSum word bytes % 65535 = 0 := by
  obtain ⟨hlt, hmod, hzero⟩ := onesSum_spec hword bytes
  omega

end

theorem wordSum_append (word : UInt8 → UInt8 → Nat) : ∀ xs ys : List UInt8, xs.length % 2 = 0 →
    wordSum word (xs ++ ys) = wordSum word xs + wordSum word ys
  | [], _, _ => (Nat.zero_add _).symm
  | [_], _, h => absurd h Nat.one_ne_zero
  | a :: b :: xs, ys, h => by
    have hxs : xs.length % 2 = 0 := by
      rw [List.length_cons, List.length_cons] at h
      omega
    have ih := wordSum_append word xs ys hxs
    simp only [List.cons_append, wordSum, ih, Nat.add_assoc]

/-! ## Byte orders -/

/-- To change the byte order is to multiply by 256. -/
theorem beSum_mod : ∀ bytes : List UInt8,
    wordSum beWord bytes % 65535 = 256 * wordSum leWord bytes % 65535
  | [] => rfl
  | [a] => by simp [wordSum, beWord, leWord]
  | a :: b :: rest => by
    have ih := beSum_mod rest
    simp only [wordSum, beWord, leWord]
    omega

theorem beSum_eq_zero_iff : ∀ bytes : List UInt8,
    wordSum beWord bytes = 0 ↔ wordSum leWord bytes = 0
  | [] => Iff.rfl
  | [a] => by
    simp only [wordSum, beWord, leWord]
    omega
  | a :: b :: rest => by
    have ih := beSum_eq_zero_iff rest
    simp only [wordSum, beWord, leWord]
    omega

theorem onesSum_eq_max (bytes : List UInt8) :
    onesSum beWord bytes = 65535 ↔ onesSum leWord bytes = 65535 := by
  have hmod := beSum_mod bytes
  rw [onesSum_eq_max_iff beWord_lt, onesSum_eq_max_iff leWord_lt]
  exact and_congr (beSum_eq_zero_iff bytes).not (by omega)

/-! ## Verification -/

/-- Bytes that the checksum of others was added to. -/
theorem Completes.verifies {check : UInt16} {bytes checked : List UInt8}
    (hc : Completes check bytes) (h : wordSum leWord checked = wordSum leWord bytes + check.toNat) :
    onesSum beWord checked = 65535 := by
  obtain ⟨hlt, hmod, hzero⟩ := onesSum_spec leWord_lt bytes
  unfold Completes at hc
  rw [onesSum_eq_max, onesSum_eq_max_iff leWord_lt, h]
  omega

theorem leWord_ofNat (n : UInt16) : leWord (.ofNat n.toNat) (.ofNat (n.toNat / 256)) = n.toNat := by
  have hlt := n.toNat_lt
  simp only [leWord, UInt8.toNat_ofNat']
  omega

end Base
