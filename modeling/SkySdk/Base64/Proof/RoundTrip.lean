import SkySdk.Base64.Proof.Encode
import SkySdk.Base64.Proof.Decode

/-!
# Decoding what was encoded, and encoding what was decoded

The encoder writes the padded groups, the decoder reads them back and cuts off the octets that the
padding stands for. The padded groups are all the canonical strings (`Canonical.exists_groups`), so
the two are inverse to each other.
-/

set_option autoImplicit false

namespace Sky.Base64

open Base

theorem eq_ofNat {n : UInt32} {k : Nat} (h : n.toNat = k) : n = .ofNat k := by
  rw [← h, UInt32.ofNat_toNat]

/-- The decoder, after `sky_base64_init`, gives the octets of an encoding back and their number,
whatever the two length arguments pointed to before. -/
theorem decode_encode (x : List UInt8) (hne : x ≠ []) (hlen : 4 * ((x.length + 2) / 3) < 2 ^ 31)
    (o o' : UInt32) : ∃ (s : List UInt8) (n n' : UInt32),
      skyBase64Encode true x (.ofNat x.length) (some o) = .ok (some s, some n) ∧
      n.toNat = s.length ∧ n'.toNat = x.length ∧
      (do skyBase64Decode true (← skyBase64Init) s n (some o')) = .ok (some x, some n') := by
  obtain ⟨n, hn, henc⟩ := skyBase64Encode_eq o hlen
  obtain ⟨table, hinit, ht⟩ := skyBase64Init_decodes
  have hs := length_encodeGroups x
  have hxs := List.length_pos_iff.2 hne
  have hcs : encodeGroups x ≠ [] := by
    intro h0
    rw [h0, List.length_nil] at hs
    omega
  obtain ⟨n', hn', hdec⟩ := skyBase64Decode_eq ht o' hcs (by omega) (by omega)
  rw [decodedLength_encodeGroups x hne] at hn' hdec
  rw [decodeGroups_encodeGroups, List.take_left] at hdec
  refine ⟨encodeGroups x, n, n', henc, by rw [hn, hs], hn', ?_⟩
  rw [hinit, ok_bind, eq_ofNat hn, ← hs]
  exact hdec

theorem decode_encode_man : ∃ (s : List UInt8) (n n' : UInt32),
    skyBase64Encode true [77, 97, 110, 33] 4 (some 0) = .ok (some s, some n) ∧
      n.toNat = s.length ∧ n'.toNat = 4 ∧
      (do skyBase64Decode true (← skyBase64Init) s n (some 0)) =
        .ok (some [77, 97, 110, 33], some n') :=
  decode_encode [77, 97, 110, 33] (by decide) (by decide) 0 0

/-! ## Canonical strings -/

/-- The strings of the grammar: whole groups of characters of the alphabet, of which the last two
may be padding; with `pads` of them the last 2`pads` bits before are not used, and 0. -/
structure Canonical (s : List UInt8) : Prop where
  nonempty : s ≠ []
  whole : s.length % 4 = 0
  short : s.length < 2 ^ 31
  grammar : ∃ (body : List UInt8) (pads : Nat), s = body ++ List.replicate pads padChar ∧
    pads ≤ 2 ∧ (∀ c ∈ body, c ∈ base64EncodingTable) ∧
    ∀ c ∈ body.getLast?, valueOf c % 2 ^ (2 * pads) = 0

/-- Every body with the padding it needs is the encoding of some octets. -/
theorem exists_groups {pads : Nat} (hp : pads ≤ 2) : ∀ body : List UInt8,
    (body.length + pads) % 4 = 0 → (∀ c ∈ body, c ∈ base64EncodingTable) →
    (∀ c ∈ body.getLast?, valueOf c % 2 ^ (2 * pads) = 0) →
    ∃ xs, encodeGroups xs = body ++ List.replicate pads padChar
  | [], h4, _, _ => by
    simp only [List.length_nil] at h4
    obtain rfl : pads = 0 := by omega
    exact ⟨[], rfl⟩
  | [_], h4, _, _ => by
    simp only [List.length_cons, List.length_nil] at h4
    omega
  | [a, b], h4, hmem, hlast => by
    simp only [List.length_cons, List.length_nil] at h4
    obtain rfl : pads = 2 := by omega
    have hb : valueOf b % 2 ^ (2 * 2) = 0 := hlast b rfl
    obtain ⟨t, ht⟩ : ∃ t, t = ofSextets (valueOf a) (valueOf b) 0 0 := ⟨_, rfl⟩
    have h1 : octetOf t 1 = 0 := by
      refine octetOf_eq_zero ?_
      unfold ofSextets at ht
      omega
    have h0 : octetOf t 0 = 0 := by
      refine octetOf_eq_zero ?_
      unfold ofSextets at ht
      omega
    have hquad := quad_octets (valueOf_lt a) (valueOf_lt b) (by decide) (by decide) ht
    rw [h1, h0, charOf_valueOf (hmem a (by simp)), charOf_valueOf (hmem b (by simp))] at hquad
    refine ⟨[octetOf t 2], ?_⟩
    rw [encodeGroups, hquad]
    rfl
  | [a, b, c], h4, hmem, hlast => by
    simp only [List.length_cons, List.length_nil] at h4
    obtain rfl : pads = 1 := by omega
    have hc : valueOf c % 2 ^ (2 * 1) = 0 := hlast c rfl
    obtain ⟨t, ht⟩ : ∃ t, t = ofSextets (valueOf a) (valueOf b) (valueOf c) 0 := ⟨_, rfl⟩
    have h0 : octetOf t 0 = 0 := by
      refine octetOf_eq_zero ?_
      unfold ofSextets at ht
      omega
    have hquad := quad_octets (valueOf_lt a) (valueOf_lt b) (valueOf_lt c) (by decide) ht
    rw [h0, charOf_valueOf (hmem a (by simp)), charOf_valueOf (hmem b (by simp)),
      charOf_valueOf (hmem c (by simp))] at hquad
    refine ⟨[octetOf t 2, octetOf t 1], ?_⟩
    rw [encodeGroups, hquad]
    rfl
  | a :: b :: c :: d :: body, h4, hmem, hlast => by
    simp only [List.length_cons] at h4
    have hrest : ∀ x ∈ body.getLast?, valueOf x % 2 ^ (2 * pads) = 0 := by
      intro x hx
      refine hlast x ?_
      simp only [List.getLast?_cons, Option.mem_def, Option.some.injEq] at hx ⊢
      rw [Option.mem_def.1 hx]
      rfl
    obtain ⟨xs, hxs⟩ := exists_groups hp body (by omega)
      (fun x hx => hmem x (by simp [hx])) hrest
    obtain ⟨t, ht⟩ : ∃ t, t = ofSextets (valueOf a) (valueOf b) (valueOf c) (valueOf d) :=
      ⟨_, rfl⟩
    have hquad := quad_octets (valueOf_lt a) (valueOf_lt b) (valueOf_lt c) (valueOf_lt d) ht
    rw [charOf_valueOf (hmem a (by simp)), charOf_valueOf (hmem b (by simp)),
      charOf_valueOf (hmem c (by simp)), charOf_valueOf (hmem d (by simp))] at hquad
    refine ⟨octetOf t 2 :: octetOf t 1 :: octetOf t 0 :: xs, ?_⟩
    rw [encodeGroups, hquad, hxs]
    rfl

/-- The encoder gives a canonical string back from the octets and the length that the decoder makes
of it, whatever the two length arguments pointed to before. -/
theorem encode_decode (s : List UInt8) (hs : Canonical s) (o o' : UInt32) :
    ∃ (xs : List UInt8) (n n' : UInt32),
      (do skyBase64Decode true (← skyBase64Init) s (.ofNat s.length) (some o)) =
        .ok (some xs, some n) ∧
      n.toNat = xs.length ∧ n'.toNat = s.length ∧
      skyBase64Encode true xs n (some o') = .ok (some s, some n') := by
  obtain ⟨hne, h4, hshort, body, pads, hbody, hp, hmem, hlast⟩ := hs
  have hlen : s.length = body.length + pads := by
    rw [hbody, List.length_append, List.length_replicate]
  obtain ⟨xs, hxs⟩ := exists_groups hp body (hlen ▸ h4) hmem hlast
  rw [← hbody] at hxs
  have hxslen := length_encodeGroups xs
  rw [hxs] at hxslen
  have hxsne : xs ≠ [] := by
    intro h0
    rw [h0] at hxs
    exact hne hxs.symm
  obtain ⟨table, hinit, ht⟩ := skyBase64Init_decodes
  obtain ⟨n, hn, hdec⟩ := skyBase64Decode_eq ht o hne h4 hshort
  have hgroups : 4 * ((xs.length + 2) / 3) < 2 ^ 31 := hxslen ▸ hshort
  obtain ⟨n', hn', henc⟩ := skyBase64Encode_eq o' hgroups
  rw [← hxs, decodedLength_encodeGroups xs hxsne] at hn
  rw [← hxs, decodedLength_encodeGroups xs hxsne, decodeGroups_encodeGroups, List.take_left,
    hxs] at hdec
  refine ⟨xs, n, n', ?_, hn, by rw [hn', hxslen], ?_⟩
  · rw [hinit, ok_bind]
    exact hdec
  · rw [eq_ofNat hn, henc, hxs]

/-- `"TQ=="` -/
theorem encode_decode_pad : Canonical [84, 81, 61, 61] ∧ ∃ (xs : List UInt8) (n n' : UInt32),
    (do skyBase64Decode true (← skyBase64Init) [84, 81, 61, 61] 4 (some 0)) =
        .ok (some xs, some n) ∧
      n.toNat = xs.length ∧ n'.toNat = 4 ∧
      skyBase64Encode true xs n (some 0) = .ok (some [84, 81, 61, 61], some n') := by
  have hs : Canonical [84, 81, 61, 61] := by
    refine ⟨by decide, rfl, by decide, [84, 81], 2, rfl, Nat.le_refl 2, ?_, ?_⟩
    · decide +kernel
    · decide +kernel
  exact ⟨hs, encode_decode [84, 81, 61, 61] hs 0 0⟩

end Sky.Base64
