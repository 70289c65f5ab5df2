import SkySdk.Str.Hex

/-!
# `sky_str_to_hex`

A byte below 0x80 is printed as two digits, any other one, sign-extended, as eight, which do not fit
into the scratch buffer (`sprintfBuf_eq`, `sprintfBuf_fault`). So the texts whose bytes are all
below 0x80 are printed (`skyStrToHex_low`), and no others (`skyStrToHex_high`).
-/

set_option autoImplicit false

namespace Sky.Str

open Base

variable {c : UInt8} {str hex pre rest xs zs : List UInt8} {n : Nat}

/-! ## One byte -/

def hexPair (c : UInt8) : List UInt8 := [hexChar (c.toNat / 16), hexChar (c.toNat % 16)]

/-- The two digits of each byte. -/
def hexOf (xs : List UInt8) : List UInt8 := xs.flatMap hexPair

theorem length_hexOf (xs : List UInt8) : (hexOf xs).length = 2 * xs.length := by
  induction xs with
  | nil => rfl
  | cons x xs ih =>
    rw [hexOf, List.flatMap_cons, List.length_append, ← hexOf, ih, List.length_cons]
    change 2 + _ = _
    omega

theorem hexOf_append (xs ys : List UInt8) : hexOf (xs ++ ys) = hexOf xs ++ hexOf ys :=
  List.flatMap_append

theorem promoteChar_toNat (c : UInt8) : (promoteChar c).toNat =
    if c.toNat < 128 then c.toNat else 2 ^ 32 - 256 + c.toNat := by
  have hall : ∀ n < 256, (promoteChar (.ofNat n)).toNat =
      if n < 128 then n else 2 ^ 32 - 256 + n := by
    decide +kernel
  have hc := hall c.toNat c.toNat_lt
  rw [UInt8.ofNat_toNat] at hc
  exact hc

theorem sprintfBuf_eq (hc : c < 0x80) : sprintfBuf c = .ok (hexPair c ++ [0]) := by
  have hlt : c.toNat < 128 := hc
  have hp := promoteChar_toNat c
  rw [if_pos hlt] at hp
  have htext := print02x_of_lt (v := promoteChar c) (by omega)
  rw [hp] at htext
  rw [sprintfBuf, htext]
  rfl

theorem sprintfBuf_fault (hc : 0x80 ≤ c) : sprintfBuf c = .error .outOfBounds := by
  have hle : 128 ≤ c.toNat := hc
  have hp := promoteChar_toNat c
  rw [if_neg (by omega)] at hp
  have htext := length_print02x (v := promoteChar c) (k := 7) (by decide) (by rw [hp]; omega)
  rw [sprintfBuf]
  exact if_neg (by omega)

/-! ## To hex -/

theorem toHexFrom_round {z0 z1 : UInt8} (hs : str = pre ++ c :: rest) (hlen : str.length < 2 ^ 30)
    (hc : c < 0x80) :
    toHexFrom str (.ofNat pre.length) (n + 1) (hexOf pre ++ z0 :: z1 :: zs) =
      toHexFrom str (.ofNat (pre ++ [c]).length) n (hexOf (pre ++ [c]) ++ zs) := by
  have hpre : pre.length < 2 ^ 30 := by
    rw [hs, List.length_append] at hlen
    omega
  have hi : (UInt32.ofNat pre.length).toNat = pre.length := toNat_ofNat_of_lt (by omega)
  have hi2 : (UInt32.ofNat pre.length * 2).toNat = (hexOf pre).length := by
    rw [UInt32.toNat_mul, hi, length_hexOf]
    change pre.length * 2 % 2 ^ 32 = _
    omega
  have hnext : UInt32.ofNat pre.length + 1 = .ofNat (pre ++ [c]).length := by
    rw [List.length_append, UInt32.ofNat_add]
    rfl
  have hread : readAt str pre.length = .ok c := by
    rw [hs, readAt_append]
  have hw1 : writeAt (hexOf pre ++ hexChar (c.toNat / 16) :: z1 :: zs) ((hexOf pre).length + 1)
      (hexChar (c.toNat % 16)) = .ok (hexOf pre ++ hexPair c ++ zs) := by
    have hw := writeAt_append (hexOf pre ++ [hexChar (c.toNat / 16)]) zs z1 (hexChar (c.toNat % 16))
    rw [List.length_append, List.append_assoc, List.append_assoc] at hw
    rw [List.append_assoc]
    exact hw
  rw [toHexFrom, hi, hread, ok_bind, sprintfBuf_eq hc, ok_bind, hi2]
  change (writeAt _ _ (hexChar (c.toNat / 16)) >>= _) = _
  rw [writeAt_append, ok_bind]
  change (writeAt _ _ (hexChar (c.toNat % 16)) >>= _) = _
  rw [hw1, ok_bind, hnext, hexOf_append]
  simp [hexOf]

/-- The place of the next two digits. -/
theorem exists_pair {zs : List UInt8} (hz : zs.length = 2 * (n + 1)) :
    ∃ z0 z1 zs', zs = z0 :: z1 :: zs' ∧ zs'.length = 2 * n := by
  match zs, hz with
  | z0 :: z1 :: zs', hz =>
    simp only [List.length_cons] at hz
    exact ⟨z0, z1, zs', rfl, by omega⟩
  | [], hz | [_], hz =>
    simp only [List.length_cons, List.length_nil] at hz
    omega

theorem toHexFrom_eq (hlen : str.length < 2 ^ 30) (behind : List UInt8) :
    ∀ (rest pre zs : List UInt8), str = pre ++ rest → zs.length = 2 * rest.length →
    (∀ c ∈ rest, c < 0x80) →
    toHexFrom str (.ofNat pre.length) rest.length (hexOf pre ++ (zs ++ behind)) =
      .ok (hexOf str ++ behind)
  | [], pre, zs, hs, hz, _ => by
    have hz : zs = [] := List.length_eq_zero_iff.1 hz
    rw [hs, hz, List.append_nil, List.nil_append]
    rfl
  | c :: rest, pre, zs, hs, hz, hc => by
    obtain ⟨z0, z1, zs, rfl, hz⟩ := exists_pair hz
    rw [List.length_cons, List.cons_append, List.cons_append,
      toHexFrom_round hs hlen (hc c List.mem_cons_self)]
    exact toHexFrom_eq hlen behind rest (pre ++ [c]) zs (by rw [hs, List.append_assoc]; rfl)
      (by omega) fun d hd => hc d (List.mem_cons_of_mem c hd)

/-- The first byte from 0x80 on overflows the scratch buffer. -/
theorem toHexFrom_fault (hlen : str.length < 2 ^ 30) (behind : List UInt8) :
    ∀ (rest pre zs : List UInt8), str = pre ++ rest → zs.length = 2 * rest.length →
    (∃ c ∈ rest, 0x80 ≤ c) →
    toHexFrom str (.ofNat pre.length) rest.length (hexOf pre ++ (zs ++ behind)) =
      .error .outOfBounds
  | [], _, _, _, _, ⟨_, hc, _⟩ => by cases hc
  | c :: rest, pre, zs, hs, hz, hex => by
    obtain ⟨z0, z1, zs, rfl, hz⟩ := exists_pair hz
    rw [List.cons_append, List.cons_append]
    rcases UInt8.lt_or_le c 0x80 with hc | hc
    · obtain ⟨d, hd, hd8⟩ := hex
      have hd : d ∈ rest := by
        rcases List.mem_cons.1 hd with rfl | hd
        · exact absurd hc (UInt8.not_lt.2 hd8)
        · exact hd
      rw [List.length_cons, toHexFrom_round hs hlen hc]
      exact toHexFrom_fault hlen behind rest (pre ++ [c]) zs (by rw [hs, List.append_assoc]; rfl)
        (by omega) ⟨d, hd, hd8⟩
    · have hpre : pre.length < 2 ^ 32 := by
        rw [hs, List.length_append] at hlen
        omega
      have hi : (UInt32.ofNat pre.length).toNat = pre.length := toNat_ofNat_of_lt hpre
      have hread : readAt str pre.length = .ok c := by
        rw [hs, readAt_append]
      rw [List.length_cons, toHexFrom, hi, hread, ok_bind, sprintfBuf_fault hc]
      rfl

/-! ## Lengths -/

theorem toNat_ofNat {k : Nat} (hk : k < 2 ^ 32) : (UInt32.ofNat k).toNat = k :=
  toNat_ofNat_of_lt hk

theorem guard_passes {k : Nat} (hk : k < 2 ^ 30) :
    UInt32.ofNat k * 2 ≤ UInt32.ofNat (2 * k) := by
  rw [UInt32.le_iff_toNat_le, UInt32.toNat_mul, toNat_ofNat (by omega), toNat_ofNat (by omega)]
  change k * 2 % 2 ^ 32 ≤ _
  omega

theorem take_room (hroom : 2 * str.length ≤ hex.length) :
    (hex.take (2 * str.length)).length = 2 * str.length := by
  rw [List.length_take, Nat.min_eq_left hroom]

/-- A call with room for the two digits of each byte of a text of less than 2^30. -/
theorem skyStrToHex_loop (hlen : str.length < 2 ^ 30) :
    skyStrToHex (some str) (.ofNat str.length) (some hex) (.ofNat (2 * str.length)) =
      toHexFrom str 0 str.length (hex.take (2 * str.length) ++ hex.drop (2 * str.length)) >>=
        fun hex' => pure (0, some hex') := by
  have hn : (UInt32.ofNat str.length).toNat = str.length := toNat_ofNat (by omega)
  rw [skyStrToHex, if_pos (guard_passes hlen), hn, List.take_append_drop]

theorem skyStrToHex_low (hlen : str.length < 2 ^ 30) (hroom : 2 * str.length ≤ hex.length)
    (hlow : ∀ c ∈ str, c < 0x80) :
    skyStrToHex (some str) (.ofNat str.length) (some hex) (.ofNat (2 * str.length)) =
      .ok (0, some (hexOf str ++ hex.drop (2 * str.length))) := by
  have hloop := toHexFrom_eq hlen (hex.drop (2 * str.length)) str [] _ rfl (take_room hroom) hlow
  exact (skyStrToHex_loop hlen).trans (congrArg (· >>= _) hloop)

theorem skyStrToHex_high (hlen : str.length < 2 ^ 30) (hroom : 2 * str.length ≤ hex.length)
    (hhigh : ∃ c ∈ str, 0x80 ≤ c) :
    skyStrToHex (some str) (.ofNat str.length) (some hex) (.ofNat (2 * str.length)) =
      .error .outOfBounds := by
  have hloop :=
    toHexFrom_fault hlen (hex.drop (2 * str.length)) str [] _ rfl (take_room hroom) hhigh
  exact (skyStrToHex_loop hlen).trans (congrArg (· >>= _) hloop)

end Sky.Str
