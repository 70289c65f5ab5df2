import SkySdk.Base64.Spec

/-!
# The encoder

A round of the encoding loop turns the next group of octets into its four characters; the padding
loop overwrites the last ones. `skyBase64Encode_eq`: the result is `encodeGroups`.
-/

set_option autoImplicit false

namespace Sky.Base64

open Base

variable {data out done zs : List UInt8} {inputLength : UInt32} {i j n : Nat}

/-! ## The bits of a triple -/

theorem triple_toNat (a b c : UInt8) :
    ((a.toUInt32 <<< 0x10) + (b.toUInt32 <<< 0x08) + c.toUInt32).toNat = ofOctets a b c := by
  have ha := a.toNat_lt
  have hb := b.toNat_lt
  have hc := c.toNat_lt
  simp only [UInt32.toNat_add, UInt32.toNat_shiftLeft, UInt8.toNat_toUInt32, Nat.shiftLeft_eq]
  unfold ofOctets
  simp
  omega

theorem sextet_toNat {t s : UInt32} {k : Nat} (hs : s.toNat % 32 = 6 * k) :
    ((t >>> s) &&& 0x3F).toNat = sextetOf t.toNat k := by
  have hand := Nat.and_two_pow_sub_one_eq_mod (t.toNat >>> (6 * k)) 6
  rw [UInt32.toNat_and, UInt32.toNat_shiftRight, hs]
  rw [Nat.shiftRight_eq_div_pow] at hand ⊢
  exact hand

/-! ## The encoding loop -/

/-- The octet at `i`, 0 behind the end. -/
def octetAt (data : List UInt8) (i : Nat) : UInt8 := data[i]?.getD 0

theorem nextOctet_eq (hn : inputLength.toNat = data.length) (hmax : data.length ≤ intMax)
    (hi : i ≤ data.length) :
    nextOctet data inputLength i = .ok ((octetAt data i).toUInt32, min (i + 1) data.length) := by
  rw [nextOctet, hn]
  by_cases hlt : i < data.length
  · have hget : data[i]? = some (octetAt data i) := by
      rw [octetAt, List.getElem?_eq_getElem hlt]
      rfl
    rw [if_pos hlt, readAt_of_get? hget, ok_bind, succInt_of_lt (by omega), ok_bind,
      Nat.min_eq_left hlt]
    rfl
  · have hzero : octetAt data i = 0 := by
      rw [octetAt, List.getElem?_eq_none (Nat.not_lt.1 hlt)]
      rfl
    rw [if_neg hlt, hzero, Nat.min_eq_right (by omega), Nat.le_antisymm hi (Nat.not_lt.1 hlt)]
    rfl

theorem putSextet_eq {t s : UInt32} {k : Nat} (hs : s.toNat % 32 = 6 * k) (hj : j < out.length)
    (hmax : j < intMax) :
    putSextet out j (t >>> s) = .ok (out.set j (charOf (sextetOf t.toNat k)), j + 1) := by
  have hlt : sextetOf t.toNat k < base64EncodingTable.length := Nat.mod_lt _ (by decide)
  have hmod : sextetOf t.toNat k % 64 = sextetOf t.toNat k := Nat.mod_mod _ _
  have hchar : base64EncodingTable[sextetOf t.toNat k]? = some (charOf (sextetOf t.toNat k)) := by
    rw [charOf, hmod, List.getElem?_eq_getElem hlt]
    rfl
  rw [putSextet, sextet_toNat hs, readAt_of_get? hchar, ok_bind, writeAt, if_pos hj, ok_bind,
    succInt_of_lt hmax, ok_bind]
  rfl

/-- The end of a round, once the octets are read. -/
theorem putQuad_eq {β : Type} {z0 z1 z2 z3 : UInt8} (t : UInt32)
    (k : List UInt8 → Nat → Except Fault β) (hmax : done.length + 4 ≤ intMax) :
    (do
      let (out, j) ← putSextet (done ++ z0 :: z1 :: z2 :: z3 :: zs) done.length (t >>> (3 * 6))
      let (out, j) ← putSextet out j (t >>> (2 * 6))
      let (out, j) ← putSextet out j (t >>> (1 * 6))
      let (out, j) ← putSextet out j (t >>> (0 * 6))
      k out j) = k (done ++ quad t.toNat ++ zs) (done.length + 4) := by
  have h3 : (3 * 6 : UInt32).toNat % 32 = 6 * 3 := rfl
  have h2 : (2 * 6 : UInt32).toNat % 32 = 6 * 2 := rfl
  have h1 : (1 * 6 : UInt32).toNat % 32 = 6 * 1 := rfl
  have h0 : (0 * 6 : UInt32).toNat % 32 = 6 * 0 := rfl
  have hlen : (done ++ z0 :: z1 :: z2 :: z3 :: zs).length = done.length + 4 + zs.length := by
    simp only [List.length_append, List.length_cons]
    omega
  rw [putSextet_eq h3 (by omega) (by omega), ok_bind]
  dsimp only
  rw [putSextet_eq h2 (by rw [List.length_set]; omega) (by omega), ok_bind]
  dsimp only
  rw [putSextet_eq h1 (by rw [List.length_set, List.length_set]; omega) (by omega), ok_bind]
  dsimp only
  rw [putSextet_eq h0 (by rw [List.length_set, List.length_set, List.length_set]; omega)
    (by omega), ok_bind]
  dsimp only
  congr 1
  simp (disch := omega) [List.set_append_right, Nat.add_assoc, quad]

/-- The group of octets that starts at `i`. -/
def groupAt (data : List UInt8) (i : Nat) : Nat :=
  ofOctets (octetAt data i) (octetAt data (i + 1)) (octetAt data (i + 2))

theorem encodeLoop_round {z0 z1 z2 z3 : UInt8} (hn : inputLength.toNat = data.length)
    (hmax : data.length ≤ intMax) (hi : i < data.length) (hj : done.length + 4 ≤ intMax) :
    encodeLoop data inputLength (n + 1) i done.length (done ++ z0 :: z1 :: z2 :: z3 :: zs) =
      encodeLoop data inputLength n (min (i + 3) data.length) (done.length + 4)
        (done ++ quad (groupAt data i) ++ zs) := by
  have hb : octetAt data (min (i + 1) data.length) = octetAt data (i + 1) := by
    rw [Nat.min_eq_left hi]
  have hc : octetAt data (min (min (i + 1) data.length + 1) data.length) =
      octetAt data (i + 2) := by
    rw [Nat.min_eq_left hi]
    rcases Nat.le_total (i + 2) data.length with hle | hle
    · rw [Nat.min_eq_left hle]
    · rw [Nat.min_eq_right hle, octetAt, octetAt, List.getElem?_eq_none (Nat.le_refl _),
        List.getElem?_eq_none hle]
  have hnext : min (min (min (i + 1) data.length + 1) data.length + 1) data.length =
      min (i + 3) data.length := by
    omega
  rw [encodeLoop, if_pos (hn ▸ hi), nextOctet_eq hn hmax (Nat.le_of_lt hi), ok_bind]
  dsimp only
  rw [nextOctet_eq hn hmax (Nat.min_le_right _ _), ok_bind]
  dsimp only
  rw [nextOctet_eq hn hmax (Nat.min_le_right _ _), ok_bind]
  dsimp only
  rw [hnext, hb, hc]
  refine (putQuad_eq _ (fun out j => encodeLoop data inputLength n _ j out) hj).trans ?_
  rw [triple_toNat, groupAt]

theorem rawGroups_drop (hi : i < data.length) :
    rawGroups (data.drop i) = quad (groupAt data i) ++ rawGroups (data.drop (i + 3)) := by
  have hgroup : ∀ k, octetAt data (i + k) = octetAt (data.drop i) k := by
    intro k
    rw [octetAt, octetAt, List.getElem?_drop]
  have hdrop : data.drop (i + 3) = (data.drop i).drop 3 := by rw [List.drop_drop]
  have hne : data.drop i ≠ [] := by simpa using hi
  rw [groupAt, ← Nat.add_zero i, hgroup, Nat.add_zero, hgroup, hgroup, hdrop]
  match data.drop i, hne with
  | [a], _ => rfl
  | [a, b], _ => rfl
  | a :: b :: c :: xs, _ => rfl

/-- The rounds from `i` on write the groups from there on. -/
theorem encodeLoop_eq (hn : inputLength.toNat = data.length) (hmax : data.length ≤ intMax) :
    ∀ (n i : Nat) (done zs : List UInt8), i ≤ data.length → data.length - i < n →
      zs.length = (rawGroups (data.drop i)).length → done.length + zs.length ≤ intMax →
      encodeLoop data inputLength n i done.length (done ++ zs) =
        .ok (done ++ rawGroups (data.drop i))
  | 0, _, _, _, _, hfuel, _, _ => absurd hfuel (Nat.not_lt_zero _)
  | n + 1, i, done, zs, hi, hfuel, hz, hj => by
    by_cases hlt : i < data.length
    · rw [rawGroups_drop hlt] at hz ⊢
      simp only [List.length_append, length_quad] at hz
      obtain ⟨z0, z1, z2, z3, zs, rfl⟩ : ∃ z0 z1 z2 z3 zs', zs = z0 :: z1 :: z2 :: z3 :: zs' := by
        match zs, hz with
        | z0 :: z1 :: z2 :: z3 :: zs', _ => exact ⟨z0, z1, z2, z3, zs', rfl⟩
        | [], hz | [_], hz | [_, _], hz | [_, _, _], hz =>
          simp only [List.length_cons, List.length_nil] at hz
          omega
      simp only [List.length_cons] at hz hj
      have hdrop : data.drop (min (i + 3) data.length) = data.drop (i + 3) := by
        rcases Nat.le_total (i + 3) data.length with hle | hle
        · rw [Nat.min_eq_left hle]
        · rw [Nat.min_eq_right hle, List.drop_length, List.drop_of_length_le hle]
      have ih := encodeLoop_eq hn hmax n (min (i + 3) data.length) (done ++ quad (groupAt data i))
        zs (Nat.min_le_right _ _) (by omega) (by rw [hdrop]; omega)
        (by rw [List.length_append, length_quad]; omega)
      rw [encodeLoop_round hn hmax hlt (by omega)]
      rw [List.length_append, length_quad, hdrop] at ih
      rw [ih, List.append_assoc]
    · have hdrop : data.drop i = [] := List.drop_of_length_le (Nat.not_lt.1 hlt)
      rw [hdrop] at hz ⊢
      have hz : zs = [] := List.length_eq_zero_iff.1 hz
      rw [encodeLoop, if_neg (hn ▸ hlt), hz]
      rfl

/-! ## Padding -/

/-- The padding loop writes from the end. -/
theorem padFrom_eq (outputLength : UInt32) : ∀ (n i : Nat) (out tail : List UInt8),
    outputLength.toNat = out.length + i → tail.length = i → n ≤ out.length →
    padFrom outputLength i n (out ++ tail) =
      .ok (out.take (out.length - n) ++ List.replicate n padChar ++ tail)
  | 0, i, out, tail, _, _, _ => by simp [padFrom]
  | n + 1, i, out, tail, hlen, ht, hn => by
    rcases List.eq_nil_or_concat out with rfl | ⟨out, z, rfl⟩
    · simp at hn
    · rw [List.concat_eq_append] at hlen hn ⊢
      simp only [List.length_append, List.length_cons, List.length_nil] at hlen hn
      have hindex : (outputLength - 1 - .ofNat i).toNat = out.length := by
        have hlt := outputLength.toNat_lt
        have hi : (UInt32.ofNat i).toNat = i := toNat_ofNat_of_lt (by omega)
        have h1 : (outputLength - 1).toNat = outputLength.toNat - 1 :=
          UInt32.toNat_sub_of_le _ _ (UInt32.le_iff_toNat_le.2 (by
            rw [UInt32.toNat_one]
            omega))
        rw [UInt32.toNat_sub_of_le _ _ (UInt32.le_iff_toNat_le.2 (by omega)), h1, hi]
        omega
      have ih := padFrom_eq outputLength n (i + 1) out (padChar :: tail)
        (by omega) (by simp [ht]) (by omega)
      have htake : (out ++ [z]).length - (n + 1) = out.length - n := by simp
      rw [padFrom, hindex, List.append_assoc, List.singleton_append, writeAt_append, ok_bind, ih,
        htake, List.take_append_of_le_length (Nat.sub_le _ _), List.replicate_succ']
      simp

theorem readAt_modTable (k : Nat) : readAt base64ModTable (k % 3) = .ok (padCount k) := by
  have h3 : k % 3 < 3 := Nat.mod_lt _ (by decide)
  unfold padCount
  generalize k % 3 = r at h3
  match r, h3 with
  | 0, _ => rfl
  | 1, _ => rfl
  | 2, _ => rfl

/-- The encoder gives the padded groups. -/
theorem skyBase64Encode_eq (o : UInt32) (hlen : 4 * ((data.length + 2) / 3) < 2 ^ 31) :
    ∃ n : UInt32, n.toNat = 4 * ((data.length + 2) / 3) ∧
      skyBase64Encode true data (.ofNat data.length) (some o) =
        .ok (some (encodeGroups data), some n) := by
  have hin : (UInt32.ofNat data.length).toNat = data.length := toNat_ofNat_of_lt (by omega)
  have hout : (4 * ((UInt32.ofNat data.length + 2) / 3)).toNat = 4 * ((data.length + 2) / 3) := by
    have h1 : (data.length + 2) % 2 ^ 32 = data.length + 2 := Nat.mod_eq_of_lt (by omega)
    have h2 : 4 * ((data.length + 2) / 3) % 2 ^ 32 = 4 * ((data.length + 2) / 3) :=
      Nat.mod_eq_of_lt (by omega)
    simp only [UInt32.toNat_mul, UInt32.toNat_div, UInt32.toNat_add, hin, UInt32.reduceToNat,
      h1, h2]
  have hmod : (UInt32.ofNat data.length % 3).toNat = data.length % 3 := by
    rw [UInt32.toNat_mod, hin]
    rfl
  have hraw := length_rawGroups data
  have hloop := encodeLoop_eq hin (by unfold intMax; omega) (data.length + 1) 0 []
    (List.replicate (4 * ((data.length + 2) / 3)) 0) (Nat.zero_le _) (by omega)
    (by rw [List.length_replicate, List.drop_zero, hraw])
    (by rw [List.length_replicate, List.length_nil]; unfold intMax; omega)
  have hpad := padFrom_eq (4 * ((UInt32.ofNat data.length + 2) / 3))
    (padCount data.length) 0 (rawGroups data) [] (by rw [hout, hraw]; rfl) rfl
    (by rw [hraw]; unfold padCount; omega)
  rw [List.append_nil, List.append_nil, ← encodeGroups_eq] at hpad
  refine ⟨_, hout, ?_⟩
  simp only [skyBase64Encode, if_true, hin, hout, hmod]
  rw [List.nil_append, List.nil_append, List.drop_zero, List.length_nil] at hloop
  rw [hloop, ok_bind, readAt_modTable, ok_bind, hpad, ok_bind]
  rfl

end Sky.Base64
