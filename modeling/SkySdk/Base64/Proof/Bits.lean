import SkySdk.Base.Bits
import SkySdk.Base64.Proof.Encode

/-!
# Base64 as bit streams

The characters spell the bits of the octets, six at a time, zeros filling up the last character
(`skyBase64Encode_bits`), and the octets those of the characters' values, eight at a time
(`decodeGroups_get`).
-/

set_option autoImplicit false

namespace Sky.Base64

open Base Base.Bits

variable {xs cs : List UInt8} {k : Nat}

/-- The alphabet of RFC 4648: `A`–`Z`, `a`–`z`, `0`–`9`, `+`, `/`. -/
def rfcChar (v : Nat) : UInt8 :=
  if v < 26 then .ofNat (65 + v)
  else if v < 52 then .ofNat (97 + (v - 26))
  else if v < 62 then .ofNat (48 + (v - 52))
  else if v = 62 then 43
  else 47

theorem charOf_eq_rfcChar {v : Nat} (hv : v < 64) : charOf v = rfcChar v := by
  revert v
  decide

/-- The octets as digits. -/
def octets (xs : List UInt8) : List Nat := xs.map UInt8.toNat

theorem octets_lt : ∀ d ∈ octets xs, d < 2 ^ 8 := by
  intro d hd
  obtain ⟨x, -, rfl⟩ := List.mem_map.1 hd
  exact x.toNat_lt

/-- The values of the characters as digits. -/
def sextets (cs : List UInt8) : List Nat := cs.map valueOf

theorem sextets_lt : ∀ d ∈ sextets cs, d < 2 ^ 6 := by
  intro d hd
  obtain ⟨c, -, rfl⟩ := List.mem_map.1 hd
  exact valueOf_lt c

/-! ## Encoding -/

theorem sextetOf_eq (a b c : UInt8) (hk : k < 4) :
    sextetOf (ofOctets a b c) (3 - k) = bitsAt 8 (octets [a, b, c]) (6 * k) 6 := by
  have hval : value 8 (octets [a, b, c]) = ofOctets a b c := by
    simp only [value, octets, List.map_cons, List.map_nil, List.length_cons, List.length_nil,
      ofOctets]
    omega
  have hexp : 8 * (octets [a, b, c]).length - 6 * k - 6 = 6 * (3 - k) := by
    simp only [octets, List.length_map, List.length_cons, List.length_nil]
    omega
  have hlen : 6 * k + 6 ≤ 8 * (octets [a, b, c]).length := by
    simp only [octets, List.length_map, List.length_cons, List.length_nil]
    omega
  rw [bitsAt_eq (by decide) octets_lt hlen, hval, hexp]
  rfl

theorem quad_get (t : Nat) (hk : k < 4) : (quad t)[k]? = some (charOf (sextetOf t (3 - k))) := by
  match k, hk with
  | 0, _ => rfl
  | 1, _ => rfl
  | 2, _ => rfl
  | 3, _ => rfl

theorem encodeGroups_get (xs : List UInt8)
    (hk : k + padCount xs.length < (encodeGroups xs).length) :
    (encodeGroups xs)[k]? = some (charOf (bitsAt 8 (octets xs) (6 * k) 6)) := by
  induction xs using encodeGroups.induct generalizing k with
  | case1 => exact absurd hk (Nat.not_lt_zero _)
  | case2 a =>
    have hk2 : k < 2 := by
      simp only [encodeGroups, quad, padCount, List.length_cons, List.length_nil,
        List.length_append, List.take_succ_cons, List.take_zero] at hk
      omega
    have hzeros : bitsAt 8 (octets [a, 0, 0]) (6 * k) 6 = bitsAt 8 (octets [a]) (6 * k) 6 :=
      bitsAt_append_zeros 8 (octets [a]) 2 (6 * k) 6
    have hget : (encodeGroups [a])[k]? = (quad (ofOctets a 0 0))[k]? := by
      rw [encodeGroups, List.getElem?_append_left (by simpa [quad] using hk2),
        List.getElem?_take_of_lt hk2]
    rw [hget, quad_get _ (by omega), sextetOf_eq a 0 0 (by omega), hzeros]
  | case3 a b =>
    have hk3 : k < 3 := by
      simp only [encodeGroups, quad, padCount, List.length_cons, List.length_nil,
        List.length_append, List.take_succ_cons, List.take_zero] at hk
      omega
    have hzeros : bitsAt 8 (octets [a, b, 0]) (6 * k) 6 = bitsAt 8 (octets [a, b]) (6 * k) 6 :=
      bitsAt_append_zeros 8 (octets [a, b]) 1 (6 * k) 6
    have hget : (encodeGroups [a, b])[k]? = (quad (ofOctets a b 0))[k]? := by
      rw [encodeGroups, List.getElem?_append_left (by simpa [quad] using hk3),
        List.getElem?_take_of_lt hk3]
    rw [hget, quad_get _ (by omega), sextetOf_eq a b 0 (by omega), hzeros]
  | case4 a b c xs ih =>
    have hcons : octets (a :: b :: c :: xs) = octets [a, b, c] ++ octets xs := rfl
    have hlen : 8 * (octets [a, b, c]).length = 24 := rfl
    rw [encodeGroups, hcons]
    rcases Nat.lt_or_ge k 4 with hk4 | hk4
    · rw [List.getElem?_append_left (by rw [length_quad]; exact hk4), quad_get _ hk4,
        sextetOf_eq a b c hk4, bitsAt_append_left (by omega)]
    · obtain ⟨j, rfl⟩ := Nat.exists_eq_add_of_le hk4
      have hj : j + padCount xs.length < (encodeGroups xs).length := by
        simp only [encodeGroups, List.length_append, length_quad, List.length_cons, padCount_add]
          at hk
        omega
      have hoff : 6 * (4 + j) = 8 * (octets [a, b, c]).length + 6 * j := by omega
      rw [List.getElem?_append_right (by rw [length_quad]; omega), length_quad,
        Nat.add_sub_cancel_left, ih hj, hoff, bitsAt_append_right (by decide)]

theorem encodeGroups_get_pad (hk : k < (encodeGroups xs).length)
    (hpad : (encodeGroups xs).length ≤ k + padCount xs.length) :
    (encodeGroups xs)[k]? = some padChar := by
  have hlen := length_encodeGroups xs
  have hraw := length_rawGroups xs
  have hle : ((rawGroups xs).take ((rawGroups xs).length - padCount xs.length)).length ≤ k := by
    rw [List.length_take]
    omega
  rw [encodeGroups_eq, List.getElem?_append_right hle, List.getElem?_replicate]
  refine if_pos ?_
  rw [List.length_take]
  omega

/-- For every sequence of octets with an encoding shorter than 2^31 characters, `sky_base64_encode`
gives its encoding: character `k` is that of the bits 6`k` to 6`k` + 5, and the last (3 − n mod 3)
mod 3 characters, and no others, are `=`. -/
theorem skyBase64Encode_bits (x : List UInt8) (hlen : 4 * ((x.length + 2) / 3) < 2 ^ 31)
    (o : UInt32) : ∃ (s : List UInt8) (n : UInt32),
      skyBase64Encode true x (.ofNat x.length) (some o) = .ok (some s, some n) ∧
      n.toNat = 4 * ((x.length + 2) / 3) ∧ s.length = n.toNat ∧
      (∀ k, k + (3 - x.length % 3) % 3 < s.length →
        s[k]? = some (rfcChar (bitsAt 8 (octets x) (6 * k) 6))) ∧
      ∀ k, s[k]? = some padChar ↔ k < s.length ∧ s.length ≤ k + (3 - x.length % 3) % 3 := by
  obtain ⟨n, hn, henc⟩ := skyBase64Encode_eq o hlen
  refine ⟨encodeGroups x, n, henc, hn, by rw [hn, length_encodeGroups], fun k hk => ?_,
    fun k => ⟨fun hc => ?_, fun hk => encodeGroups_get_pad hk.1 hk.2⟩⟩
  · rw [encodeGroups_get x hk, charOf_eq_rfcChar (bitsAt_lt 8 (octets x) (6 * k) 6)]
  · have hlt : k < (encodeGroups x).length := (List.getElem?_eq_some_iff.1 hc).1
    refine ⟨hlt, Nat.le_of_not_lt fun hk => ?_⟩
    rw [encodeGroups_get x hk] at hc
    exact charOf_ne_padChar _ (Option.some.inj hc)

/-- `"M"` is `"TQ=="`. -/
theorem skyBase64Encode_bits_M : ∃ (s : List UInt8) (n : UInt32),
    skyBase64Encode true [77] 1 (some 0) = .ok (some s, some n) ∧ n.toNat = 4 ∧ s.length = n.toNat ∧
      s[1]? = some (rfcChar (bitsAt 8 [77] 6 6)) ∧ s[2]? = some padChar := by
  obtain ⟨s, n, henc, hn, hs, hbits, hpad⟩ := skyBase64Encode_bits [77] (by decide) 0
  have hlen : s.length = 4 := hs.trans hn
  exact ⟨s, n, henc, hn, hs, hbits 1 (by rw [hlen]; decide), (hpad 2).2 (by rw [hlen]; decide)⟩

/-! ## Decoding -/

theorem octetOf_eq (a b c d : UInt8) (hk : k < 3) :
    octetOf (ofSextets (valueOf a) (valueOf b) (valueOf c) (valueOf d)) (2 - k) =
      .ofNat (bitsAt 6 (sextets [a, b, c, d]) (8 * k) 8) := by
  have hval : value 6 (sextets [a, b, c, d]) =
      ofSextets (valueOf a) (valueOf b) (valueOf c) (valueOf d) := by
    simp only [value, sextets, List.map_cons, List.map_nil, List.length_cons, List.length_nil,
      ofSextets]
    omega
  have hexp : 6 * (sextets [a, b, c, d]).length - 8 * k - 8 = 8 * (2 - k) := by
    simp only [sextets, List.length_map, List.length_cons, List.length_nil]
    omega
  have hlen : 8 * k + 8 ≤ 6 * (sextets [a, b, c, d]).length := by
    simp only [sextets, List.length_map, List.length_cons, List.length_nil]
    omega
  rw [bitsAt_eq (by decide) sextets_lt hlen, hval, hexp]
  rfl

theorem decodeGroups_get (cs : List UInt8) (h4 : cs.length % 4 = 0) (hk : k < 3 * (cs.length / 4)) :
    (decodeGroups cs)[k]? = some (.ofNat (bitsAt 6 (sextets cs) (8 * k) 8)) := by
  induction cs using decodeGroups.induct generalizing k with
  | case1 a b c d cs ih =>
    have hcons : sextets (a :: b :: c :: d :: cs) = sextets [a, b, c, d] ++ sextets cs := rfl
    have hlen : 6 * (sextets [a, b, c, d]).length = 24 := rfl
    simp only [List.length_cons] at h4 hk
    rw [decodeGroups, hcons]
    rcases Nat.lt_or_ge k 3 with hk3 | hk3
    · rw [List.getElem?_append_left (by exact hk3), bitsAt_append_left (by omega),
        ← octetOf_eq a b c d hk3]
      obtain rfl | rfl | rfl : k = 0 ∨ k = 1 ∨ k = 2 := by omega
      · rfl
      · rfl
      · rfl
    · obtain ⟨j, rfl⟩ := Nat.exists_eq_add_of_le hk3
      have hoff : 8 * (3 + j) = 6 * (sextets [a, b, c, d]).length + 8 * j := by omega
      rw [List.getElem?_append_right (by exact hk3), List.length_cons, List.length_cons,
        List.length_cons, List.length_nil, Nat.add_sub_cancel_left, ih (by omega) (by omega), hoff,
        bitsAt_append_right (by decide)]
  | case2 cs hcs =>
    have hlen := length_lt_four cs hcs
    omega

end Sky.Base64
