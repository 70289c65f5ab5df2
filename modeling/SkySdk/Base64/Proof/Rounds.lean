import SkySdk.Base64.Rounds
import SkySdk.Base64.Proof.Bits
import SkySdk.Base64.Proof.Decode

/-!
# Every input of the decoder

The rounds of the decoding loop read four characters each and together write each octet of the
buffer once (`decodeRounds_eq`), whatever the characters and the table are. So the decoder stays
within its arrays on every length that its guards let through, but for 0, where the look at the last
character goes wrong, and lengths its `int` index cannot hold (`skyBase64Decode_returns_iff`).
-/

set_option autoImplicit false

namespace Sky.Base64

open Base Base.Bits

variable {table data out : List UInt8} {inputLength outputLength n : UInt32} {i j : Nat}

/-! ## The rounds -/

theorem nextSextet_returns (ht : table.length = 256) (hi : i < data.length) (hmax : i < intMax) :
    ∃ v, nextSextet table data i = .ok (v, i + 1) := by
  have hc : data[i]? = some data[i] := List.getElem?_eq_getElem hi
  have hlt : data[i].toNat < table.length := by
    rw [ht]
    exact data[i].toNat_lt
  have hv : table[data[i].toNat]? = some table[data[i].toNat] := List.getElem?_eq_getElem hlt
  rw [nextSextet, readAt_of_get? hc, ok_bind, succInt_of_lt hmax]
  by_cases hp : data[i] = padChar
  · rw [if_pos hp]
    exact ⟨0, rfl⟩
  · rw [if_neg hp, readAt_of_get? hv]
    exact ⟨_, rfl⟩

theorem recordOctet_returns (octet : UInt32) (hj : j ≤ outputLength.toNat)
    (hmax : outputLength.toNat ≤ intMax) :
    ∃ ws j', recordOctet outputLength j octet = .ok (ws, j') ∧
      j' = min (j + 1) outputLength.toNat ∧ List.range' j (outputLength.toNat - j) =
        ws.map Prod.fst ++ List.range' j' (outputLength.toNat - j') := by
  unfold recordOctet
  by_cases hlt : j < outputLength.toNat
  · rw [if_pos hlt, succInt_of_lt (by omega)]
    refine ⟨_, _, rfl, by omega, ?_⟩
    rw [show outputLength.toNat - j = outputLength.toNat - (j + 1) + 1 by omega, List.range'_succ]
    rfl
  · rw [if_neg hlt]
    exact ⟨_, _, rfl, by omega, rfl⟩

/-- The rounds from `i` and `j` on: four characters each, and the indices from `j` on in order. -/
theorem decodeRounds_eq (ht : table.length = 256) (hn : data.length = inputLength.toNat)
    (hmax : data.length ≤ intMax) (homax : outputLength.toNat ≤ intMax) :
    ∀ (n i j : Nat), (data.length - i) % 4 = 0 → data.length - i < n → j ≤ outputLength.toNat →
      outputLength.toNat - j ≤ 3 * ((data.length - i) / 4) →
      ∃ rounds, decodeRounds table data inputLength outputLength n i j = .ok rounds ∧
        rounds.map (fun r => (r.start, r.stop)) =
          (List.range ((data.length - i) / 4)).map (fun k => (i + 4 * k, i + 4 * k + 4)) ∧
        (rounds.flatMap Round.writes).map Prod.fst = List.range' j (outputLength.toNat - j)
  | 0, _, _, _, hfuel, _, _ => absurd hfuel (Nat.not_lt_zero _)
  | n + 1, i, j, h4, hfuel, hj, hroom => by
    by_cases hlt : i < data.length
    · obtain ⟨a, ha⟩ := nextSextet_returns ht hlt (by omega)
      obtain ⟨b, hb⟩ := nextSextet_returns ht (show i + 1 < data.length by omega) (by omega)
      obtain ⟨c, hc⟩ := nextSextet_returns ht (show i + 2 < data.length by omega) (by omega)
      obtain ⟨d, hd⟩ := nextSextet_returns ht (show i + 3 < data.length by omega) (by omega)
      generalize htriple : (a <<< (3 * 6)) + (b <<< (2 * 6)) + (c <<< (1 * 6)) + (d <<< (0 * 6)) = t
      obtain ⟨ws2, j2, h2, hj2, hr2⟩ := recordOctet_returns (t >>> (2 * 8)) hj homax
      obtain ⟨ws1, j1, h1, hj1, hr1⟩ :=
        recordOctet_returns (j := j2) (t >>> (1 * 8)) (by omega) homax
      obtain ⟨ws0, j0, h0, hj0, hr0⟩ :=
        recordOctet_returns (j := j1) (t >>> (0 * 8)) (by omega) homax
      obtain ⟨rounds, hx, hspan, hindex⟩ := decodeRounds_eq ht hn hmax homax n (i + 4) j0
        (by omega) (by omega) (by omega) (by omega)
      refine ⟨⟨i, i + 4, ws2 ++ (ws1 ++ ws0)⟩ :: rounds, ?_, ?_, ?_⟩
      · rw [decodeRounds, if_pos (by omega), ha, ok_bind]
        dsimp only
        rw [hb, ok_bind]
        dsimp only
        rw [hc, ok_bind]
        dsimp only
        rw [hd, ok_bind]
        dsimp only
        rw [htriple, h2, ok_bind]
        dsimp only
        rw [h1, ok_bind]
        dsimp only
        rw [h0, ok_bind]
        dsimp only
        rw [hx, ok_bind]
        rfl
      · have hcount : (data.length - i) / 4 = (data.length - (i + 4)) / 4 + 1 := by omega
        rw [List.map_cons, hspan, hcount, List.range_succ_eq_map, List.map_cons, List.map_map]
        refine congrArg _ (List.map_congr_left fun k _ => ?_)
        simp only [Function.comp, Nat.mul_succ]
        exact Prod.ext (by omega) (by omega)
      · rw [List.flatMap_cons, List.map_append, hindex, List.map_append, List.map_append,
          List.append_assoc, List.append_assoc, ← hr0, ← hr1, ← hr2]
    · have hcount : (data.length - i) / 4 = 0 := by omega
      have hfull : outputLength.toNat - j = 0 := by omega
      rw [decodeRounds, if_neg (by omega), hcount, hfull]
      exact ⟨[], rfl, rfl, rfl⟩

theorem writeAll_returns : ∀ (ws : List (Nat × UInt8)) (out : List UInt8),
    (∀ j ∈ ws.map Prod.fst, j < out.length) → ∃ out', writeAll out ws = .ok out'
  | [], out, _ => ⟨out, rfl⟩
  | (j, x) :: ws, out, h => by
    have hj : j < out.length := h j List.mem_cons_self
    have hws : ∀ k ∈ ws.map Prod.fst, k < (out.set j x).length := by
      intro k hk
      rw [List.length_set]
      exact h k (List.mem_cons_of_mem j hk)
    obtain ⟨out', hx⟩ := writeAll_returns ws (out.set j x) hws
    refine ⟨out', ?_⟩
    rw [writeAll, writeAt, if_pos hj, ok_bind]
    exact hx

/-! ## All guarded lengths -/

/-- A sextet is read only while the index can be counted up. -/
theorem nextSextet_le {v : UInt32} {i' : Nat} (h : nextSextet table data i = .ok (v, i')) :
    i' = i + 1 ∧ i' ≤ intMax := by
  have hsucc : ∀ {k}, succInt i = .ok k → k = i + 1 ∧ k ≤ intMax := by
    intro k hk
    unfold succInt addInt at hk
    split at hk
    · cases hk
      exact ⟨rfl, by assumption⟩
    · cases hk
  unfold nextSextet at h
  obtain ⟨c, -, h⟩ := bind_ok h
  by_cases hp : c = padChar
  · rw [if_pos hp] at h
    obtain ⟨k, hk, h⟩ := bind_ok h
    cases h
    exact hsucc hk
  · rw [if_neg hp] at h
    obtain ⟨s, -, h⟩ := bind_ok h
    obtain ⟨k, hk, h⟩ := bind_ok h
    cases h
    exact hsucc hk

/-- With 2^31 characters or more the loop never comes to its end. -/
theorem decodeLoop_stops (hn : intMax < inputLength.toNat) : ∀ (n i j : Nat) (out r : List UInt8),
    i % 4 = 0 → i ≤ intMax → decodeLoop table data inputLength outputLength n i j out ≠ .ok r
  | 0, _, _, _, _, _, _ => nofun
  | n + 1, i, j, out, r, h4, hi => by
    intro hr
    rw [decodeLoop, if_pos (by omega)] at hr
    obtain ⟨⟨a, i1⟩, ha, hr⟩ := bind_ok hr
    obtain ⟨⟨b, i2⟩, hb, hr⟩ := bind_ok hr
    obtain ⟨⟨c, i3⟩, hc, hr⟩ := bind_ok hr
    obtain ⟨⟨d, i4⟩, hd, hr⟩ := bind_ok hr
    obtain ⟨⟨out2, j2⟩, -, hr⟩ := bind_ok hr
    obtain ⟨⟨out1, j1⟩, -, hr⟩ := bind_ok hr
    obtain ⟨⟨out0, j0⟩, -, hr⟩ := bind_ok hr
    obtain ⟨h1, -⟩ := nextSextet_le ha
    obtain ⟨h2, -⟩ := nextSextet_le hb
    obtain ⟨h3, -⟩ := nextSextet_le hc
    obtain ⟨hi4, hle⟩ := nextSextet_le hd
    exact decodeLoop_stops hn n i4 j0 out0 r (by omega) hle hr

/-- For every length that passes the guards, and all characters: the decoder runs without an access
outside of `data` or of the buffer it reports, and without an overflow of its `int` indices, exactly
when there is a character and, unless the buffer is refused, there are less than 2^31. -/
theorem skyBase64Decode_returns_iff (granted : Bool) (o : UInt32) (ht : table.length = 256)
    (hlen : data.length = n.toNat) (h4 : n % 4 = 0) :
    (∃ r, skyBase64Decode granted table data n (some o) = .ok r) ↔
      n ≠ 0 ∧ (granted = true → n.toNat < 2 ^ 31) := by
  by_cases hne : n = 0
  · have hnil : data = [] := by
      rw [hne] at hlen
      exact List.length_eq_zero_iff.1 hlen
    refine iff_of_false ?_ fun h => h.1 hne
    rintro ⟨r, hr⟩
    rw [hne, hnil] at hr
    cases hr
  obtain ⟨m, hm, hdec⟩ := skyBase64Decode_guarded hlen hne h4
  have hmod : n.toNat % 4 = 0 := by
    have hmod := congrArg UInt32.toNat h4
    rwa [UInt32.toNat_mod] at hmod
  rw [hdec]
  by_cases hg : granted = true
  · rw [if_pos hg]
    by_cases hmax : n.toNat < 2 ^ 31
    · refine iff_of_true ?_ ⟨hne, fun _ => hmax⟩
      have hle := decodedLength_le data
      have hm31 : m.toNat ≤ intMax := by
        unfold intMax
        omega
      obtain ⟨rounds, hx, -, hindex⟩ := decodeRounds_eq ht hlen
        (by rw [hlen]; unfold intMax; omega) hm31 (n.toNat + 1) 0 0
        (by rw [hlen]; exact hmod) (by omega) (Nat.zero_le _) (by omega)
      have hin : ∀ j ∈ (rounds.flatMap Round.writes).map Prod.fst,
          j < (List.replicate m.toNat (0 : UInt8)).length := by
        intro j hj
        rw [hindex, List.mem_range'_1] at hj
        rw [List.length_replicate]
        omega
      obtain ⟨out, hout⟩ := writeAll_returns _ _ hin
      rw [decodeLoop_eq_writeAll _ _ _ _ _ hx, hout]
      exact ⟨_, rfl⟩
    · refine iff_of_false ?_ fun h => hmax (h.2 hg)
      rintro ⟨r, hr⟩
      obtain ⟨out, hout, -⟩ := bind_ok hr
      exact decodeLoop_stops (by unfold intMax; omega) _ 0 0 _ out rfl (Nat.zero_le _) hout
  · rw [if_neg hg]
    exact iff_of_true ⟨_, rfl⟩ ⟨hne, fun h => absurd h hg⟩

/-- Four characters, none of the alphabet. -/
theorem skyBase64Decode_returns_four : ∃ r,
    skyBase64Decode true (List.replicate 256 0) [0, 61, 255, 10] 4 (some 0) = .ok r :=
  (skyBase64Decode_returns_iff true 0 List.length_replicate rfl rfl).2
    ⟨by decide, fun _ => by decide⟩

/-- No character: the last one is looked for at the index 2^32 - 1. -/
theorem skyBase64Decode_empty :
    skyBase64Decode true (List.replicate 256 0) [] 0 (some 0) = .error .outOfBounds := rfl

/-! ## What it gives -/

theorem decodedLength_add (h4 : 4 ≤ data.length) : decodedLength data +
    padAt data (data.length - 1) + padAt data (data.length - 2) = data.length / 4 * 3 := by
  have h1 := padAt_le data (data.length - 1)
  have h2 := padAt_le data (data.length - 2)
  unfold decodedLength
  omega

/-- After `sky_base64_init`, for every input of a positive multiple of 4 characters, less than 2^31:
the length reported is 3/4 of theirs, less one for each of the last two that is `=`; octet `k` is
spelt by the bits 8`k` to 8`k` + 7 of the characters' values; round `k` of the loop takes `i` from
4`k` to 4`k` + 4, and together the rounds write each octet of the buffer once. -/
theorem skyBase64Decode_bits (hne : data ≠ []) (h4 : data.length % 4 = 0)
    (hmax : data.length < 2 ^ 31) (o : UInt32) :
    ∃ (table out : List UInt8) (n : UInt32) (rounds : List Round),
      skyBase64Init = .ok table ∧
      skyBase64Decode true table data (.ofNat data.length) (some o) = .ok (some out, some n) ∧
      n.toNat + padAt data (data.length - 1) + padAt data (data.length - 2) =
        3 * data.length / 4 ∧ out.length = n.toNat ∧
      (∀ k < out.length, out[k]? = some (.ofNat (bitsAt 6 (sextets data) (8 * k) 8))) ∧
      decodeRounds table data (.ofNat data.length) n (data.length + 1) 0 0 = .ok rounds ∧
      rounds.map (fun r => (r.start, r.stop)) =
        (List.range (data.length / 4)).map (fun k => (4 * k, 4 * k + 4)) ∧
      (rounds.flatMap Round.writes).map Prod.fst = List.range n.toNat ∧
      writeAll (List.replicate n.toNat 0) (rounds.flatMap Round.writes) = .ok out := by
  obtain ⟨table, hinit, ht⟩ := skyBase64Init_decodes
  obtain ⟨n, hn, hdec⟩ := skyBase64Decode_eq ht o hne h4 hmax
  have hpos := List.length_pos_iff.2 hne
  have hle := decodedLength_le data
  have hgroups := length_decodeGroups data
  have hin : (UInt32.ofNat data.length).toNat = data.length := toNat_ofNat_of_lt (by omega)
  have hmax' : data.length ≤ intMax := by
    unfold intMax
    omega
  have hn31 : n.toNat ≤ intMax := by omega
  obtain ⟨rounds, hx, hspan, hindex⟩ := decodeRounds_eq ht.1 hin.symm hmax'
    hn31 (data.length + 1) 0 0 h4 (by omega) (Nat.zero_le _) (by omega)
  refine ⟨table, (decodeGroups data).take (decodedLength data), n, rounds, hinit, hdec, ?_, ?_, ?_,
    hx, ?_, ?_, ?_⟩
  · rw [hn, decodedLength_add (by omega)]
    omega
  · rw [hn, List.length_take]
    omega
  · intro k hk
    rw [List.length_take] at hk
    rw [List.getElem?_take_of_lt (by omega), decodeGroups_get data h4 (by omega)]
  · rw [hspan]
    simp only [Nat.zero_add, Nat.sub_zero]
  · rw [hindex, List.range_eq_range', Nat.sub_zero]
  · have hloop := decodeLoop_eq ht hin hmax' hn31 (data.length + 1) 0 []
      (List.replicate n.toNat 0) h4 (by omega)
      (by rw [List.length_replicate, List.length_nil, Nat.zero_add])
      (by rw [List.length_replicate, List.drop_zero]; omega)
    rw [← decodeLoop_eq_writeAll _ _ _ _ _ hx, ← hn]
    rw [List.nil_append, List.nil_append, List.drop_zero, List.length_nil,
      List.length_replicate] at hloop
    exact hloop

/-- `"AA=A"`: one octet less for the `=`, which the last character does not follow from. -/
theorem skyBase64Decode_bits_pad : ∃ (table out : List UInt8) (n : UInt32),
    skyBase64Init = .ok table ∧
    skyBase64Decode true table [65, 65, 61, 65] 4 (some 0) = .ok (some out, some n) ∧
    out.length = 2 := by
  have hne : ([65, 65, 61, 65] : List UInt8) ≠ [] := by decide
  obtain ⟨table, out, n, -, hinit, hdec, hn, hout, -⟩ :=
    skyBase64Decode_bits hne rfl (by decide) 0
  refine ⟨table, out, n, hinit, hdec, ?_⟩
  have hn : n.toNat + 0 + 1 = 3 := hn
  omega

end Sky.Base64
