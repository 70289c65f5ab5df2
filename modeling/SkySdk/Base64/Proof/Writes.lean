import SkySdk.Base64.Rounds
import SkySdk.Base64.Proof.Encode

/-!
# The indices of the encoder

The encoding loop writes four characters for each group of octets, at the indices from 0 on in order
(`encodeWrites_eq`), as long as an `int` can hold the index behind the last one, and overflows after
that (`encodeWrites_overflow`). The length is computed in 32 bits, which hold more.
-/

set_option autoImplicit false

namespace Sky.Base64

open Base

variable {data : List UInt8} {inputLength : UInt32} {i j n : Nat}

/-! ## A round -/

theorem nextOctet_returns (hn : inputLength.toNat ≤ data.length) (hi : i ≤ inputLength.toNat)
    (hmax : i < intMax) :
    ∃ octet, nextOctet data inputLength i = .ok (octet, min (i + 1) inputLength.toNat) := by
  rw [nextOctet]
  by_cases hlt : i < inputLength.toNat
  · have hi : i < data.length := Nat.lt_of_lt_of_le hlt hn
    have hget : data[i]? = some data[i] := List.getElem?_eq_getElem hi
    rw [if_pos hlt, readAt_of_get? hget, ok_bind, succInt_of_lt hmax, Nat.min_eq_left hlt]
    exact ⟨_, rfl⟩
  · have hend : min (i + 1) inputLength.toNat = i := by omega
    rw [if_neg hlt, hend]
    exact ⟨0, rfl⟩

theorem recordSextet_eq (sextet : UInt32) : ∃ c, ∀ j, recordSextet j sextet = (do
    let j' ← succInt j
    pure ((j, c), j')) := by
  have hlt : (sextet &&& 0x3F).toNat < base64EncodingTable.length := by
    have hand := Nat.and_two_pow_sub_one_eq_mod sextet.toNat 6
    rw [UInt32.toNat_and]
    change sextet.toNat &&& (2 ^ 6 - 1) < 2 ^ 6
    omega
  have hget : base64EncodingTable[(sextet &&& 0x3F).toNat]? =
      some base64EncodingTable[(sextet &&& 0x3F).toNat] := List.getElem?_eq_getElem hlt
  refine ⟨base64EncodingTable[(sextet &&& 0x3F).toNat], fun j => ?_⟩
  rw [recordSextet, readAt_of_get? hget, ok_bind]

/-- The octets of a round are there, and the index of the last character decides. -/
theorem encodeWrites_round (hn : inputLength.toNat ≤ data.length) (hi : i < inputLength.toNat)
    (hj : j + 3 ≤ intMax) (hij : i ≤ j) :
    ∃ c3 c2 c1 c0, encodeWrites data inputLength (n + 1) i j = (do
      let j' ← succInt (j + 3)
      let ws ← encodeWrites data inputLength n (min (i + 3) inputLength.toNat) j'
      pure ((j, c3) :: (j + 1, c2) :: (j + 2, c1) :: (j + 3, c0) :: ws)) := by
  obtain ⟨a, ha⟩ := nextOctet_returns hn (Nat.le_of_lt hi) (by omega)
  obtain ⟨b, hb⟩ := nextOctet_returns hn (Nat.min_le_right (i + 1) _) (by omega)
  obtain ⟨c, hc⟩ := nextOctet_returns hn (Nat.min_le_right (min (i + 1) inputLength.toNat + 1) _)
    (by omega)
  have hi3 : min (min (min (i + 1) inputLength.toNat + 1) inputLength.toNat + 1)
      inputLength.toNat = min (i + 3) inputLength.toNat := by
    omega
  rw [hi3] at hc
  obtain ⟨t, ht⟩ : ∃ t, t = (a <<< 0x10) + (b <<< 0x08) + c := ⟨_, rfl⟩
  obtain ⟨c3, h3⟩ := recordSextet_eq (t >>> (3 * 6))
  obtain ⟨c2, h2⟩ := recordSextet_eq (t >>> (2 * 6))
  obtain ⟨c1, h1⟩ := recordSextet_eq (t >>> (1 * 6))
  obtain ⟨c0, h0⟩ := recordSextet_eq (t >>> (0 * 6))
  have h3 := (h3 j).trans (by rw [succInt_of_lt (by omega), ok_bind])
  have h2 := (h2 (j + 1)).trans (by rw [succInt_of_lt (by omega), ok_bind])
  have h1 := (h1 (j + 1 + 1)).trans (by rw [succInt_of_lt (by omega), ok_bind])
  refine ⟨c3, c2, c1, c0, ?_⟩
  rw [encodeWrites, if_pos hi]
  simp only [ha, hb, hc, ok_bind, ← ht, h3, h2, h1, h0, pure_bind, bind_assoc]

/-! ## The loops -/

/-- The indices from `i` and `j` on. -/
theorem encodeWrites_eq (hn : inputLength.toNat ≤ data.length) : ∀ n i j : Nat,
    i ≤ inputLength.toNat → inputLength.toNat - i < n → i ≤ j →
    j + 4 * ((inputLength.toNat - i + 2) / 3) ≤ intMax →
    ∃ ws, encodeWrites data inputLength n i j = .ok ws ∧
      ws.map Prod.fst = List.range' j (4 * ((inputLength.toNat - i + 2) / 3))
  | 0, _, _, _, hfuel, _, _ => absurd hfuel (Nat.not_lt_zero _)
  | n + 1, i, j, hi, hfuel, hij, hj => by
    by_cases hlt : i < inputLength.toNat
    · have hcount : 4 * ((inputLength.toNat - i + 2) / 3) =
          4 * ((inputLength.toNat - min (i + 3) inputLength.toNat + 2) / 3) + 1 + 1 + 1 + 1 := by
        omega
      obtain ⟨c3, c2, c1, c0, hround⟩ := encodeWrites_round (n := n) hn hlt (by omega) hij
      obtain ⟨ws, hws, hfst⟩ := encodeWrites_eq hn n (min (i + 3) inputLength.toNat) (j + 3 + 1)
        (Nat.min_le_right _ _) (by omega) (by omega) (by omega)
      rw [hround, succInt_of_lt (by omega), ok_bind, hws, ok_bind]
      refine ⟨_, rfl, ?_⟩
      rw [List.map_cons, List.map_cons, List.map_cons, List.map_cons, hfst, hcount,
        List.range'_succ, List.range'_succ, List.range'_succ, List.range'_succ]
    · have hcount : 4 * ((inputLength.toNat - i + 2) / 3) = 0 := by omega
      rw [encodeWrites, if_neg hlt, hcount]
      exact ⟨[], rfl, rfl⟩

/-- More characters than an `int` counts: `j++` overflows. -/
theorem encodeWrites_overflow (hn : inputLength.toNat ≤ data.length) : ∀ n i j : Nat,
    inputLength.toNat - i < n → i ≤ j → j % 4 = 0 → j ≤ intMax →
    intMax < j + 4 * ((inputLength.toNat - i + 2) / 3) →
    encodeWrites data inputLength n i j = .error .overflow
  | 0, _, _, hfuel, _, _, _, _ => absurd hfuel (Nat.not_lt_zero _)
  | n + 1, i, j, hfuel, hij, h4, hmax, hj => by
    have hlt : i < inputLength.toNat := by omega
    have hj3 : j + 3 ≤ intMax := by
      unfold intMax at hmax ⊢
      omega
    obtain ⟨c3, c2, c1, c0, hround⟩ := encodeWrites_round (n := n) hn hlt hj3 hij
    rw [hround]
    rcases Nat.lt_or_ge (j + 3) intMax with hlt3 | hge3
    · have hrest := encodeWrites_overflow hn n (min (i + 3) inputLength.toNat) (j + 3 + 1)
        (by omega) (by omega) (by omega) hlt3 (by omega)
      rw [succInt_of_lt hlt3, ok_bind, hrest]
      rfl
    · rw [succInt, addInt_overflow (by omega)]
      rfl

theorem padWrites_lt {outputLength : UInt32} {i n : Nat} (hn : i + n ≤ outputLength.toNat) :
    ∀ w ∈ padWrites outputLength i n, w.1 < outputLength.toNat := by
  induction n generalizing i with
  | zero => exact nofun
  | succ n ih =>
    intro w hw
    rcases List.mem_cons.1 hw with rfl | hw
    · have hlt := outputLength.toNat_lt
      have hi : (UInt32.ofNat i).toNat = i := toNat_ofNat_of_lt (by omega)
      have h1 : (outputLength - 1).toNat = outputLength.toNat - 1 :=
        UInt32.toNat_sub_of_le _ _ (UInt32.le_iff_toNat_le.2 (by
          rw [UInt32.toNat_one]
          omega))
      change (outputLength - 1 - .ofNat i).toNat < _
      rw [UInt32.toNat_sub_of_le _ _ (UInt32.le_iff_toNat_le.2 (by omega)), h1, hi]
      omega
    · exact ih (by omega) w hw

/-! ## The encoder -/

/-- For every `input_length` and data of that many octets at least: the encoder reports the true
length, `i` and `j` do not overflow and every character and every `=` goes to an index below the
length reported if and only if `input_length` is at most 3 (2^29 - 1). -/
theorem encodeRecord_inBounds_iff (hn : inputLength.toNat ≤ data.length) :
    (∃ m ws, encodeRecord data inputLength = .ok (m, ws) ∧
      m.toNat = 4 * ((inputLength.toNat + 2) / 3) ∧ ∀ w ∈ ws, w.1 < m.toNat) ↔
      inputLength.toNat ≤ 1610612733 := by
  constructor
  · rintro ⟨m, ws, hrec, -, -⟩
    refine Nat.le_of_not_lt fun hlt => ?_
    have hover := encodeWrites_overflow hn (inputLength.toNat + 1) 0 0 (by omega) (Nat.le_refl 0)
      rfl (Nat.zero_le _) (by unfold intMax; omega)
    rw [encodeRecord, hover] at hrec
    cases hrec
  · intro hmax
    have hout : (4 * ((inputLength + 2) / 3)).toNat = 4 * ((inputLength.toNat + 2) / 3) := by
      have h1 : (inputLength.toNat + 2) % 2 ^ 32 = inputLength.toNat + 2 :=
        Nat.mod_eq_of_lt (by omega)
      have h2 : 4 * ((inputLength.toNat + 2) / 3) % 2 ^ 32 = 4 * ((inputLength.toNat + 2) / 3) :=
        Nat.mod_eq_of_lt (by omega)
      simp only [UInt32.toNat_mul, UInt32.toNat_div, UInt32.toNat_add, UInt32.reduceToNat, h1, h2]
    obtain ⟨ws, hws, hfst⟩ := encodeWrites_eq hn (inputLength.toNat + 1) 0 0 (Nat.zero_le _)
      (by omega) (Nat.le_refl 0) (by unfold intMax; omega)
    have hpads : readAt base64ModTable (inputLength % 3).toNat =
        .ok (padCount inputLength.toNat) := by
      rw [UInt32.toNat_mod]
      exact readAt_modTable _
    refine ⟨_, ws ++ padWrites (4 * ((inputLength + 2) / 3)) 0 (padCount inputLength.toNat), ?_,
      hout, ?_⟩
    · rw [encodeRecord, hws, ok_bind, hpads]
      rfl
    · intro w hw
      rcases List.mem_append.1 hw with hw | hw
      · have hw := List.mem_map_of_mem (f := Prod.fst) hw
        rw [hfst, List.mem_range'_1] at hw
        omega
      · refine padWrites_lt ?_ w hw
        rw [hout]
        unfold padCount
        omega

theorem encodeRecord_inBounds_three : ∃ m ws, encodeRecord [77, 97, 110] 3 = .ok (m, ws) ∧
    m.toNat = 4 * ((3 + 2) / 3) ∧ ∀ w ∈ ws, w.1 < m.toNat :=
  have hn : (3 : UInt32).toNat ≤ ([77, 97, 110] : List UInt8).length := by decide
  (encodeRecord_inBounds_iff hn).2 (by decide)

/-- One octet too many: the `j++` behind the last character overflows, so the function does not
return. -/
theorem encodeRecord_overflows :
    ¬ (∃ m ws, encodeRecord (List.replicate 1610612734 0) 1610612734 = .ok (m, ws) ∧
      m.toNat = 4 * ((1610612734 + 2) / 3) ∧ ∀ w ∈ ws, w.1 < m.toNat) ∧
    encodeRecord (List.replicate 1610612734 0) 1610612734 = .error .overflow ∧
    ∀ out m, skyBase64Encode true (List.replicate 1610612734 0) 1610612734 (some 0) ≠
      .ok (some out, some m) := by
  have hn : (1610612734 : UInt32).toNat ≤ (List.replicate 1610612734 (0 : UInt8)).length := by
    rw [List.length_replicate]
    decide
  have hrec : encodeRecord (List.replicate 1610612734 0) 1610612734 = .error .overflow := by
    have hover := encodeWrites_overflow hn ((1610612734 : UInt32).toNat + 1) 0 0 (by decide)
      (Nat.le_refl 0) rfl (Nat.zero_le _) (by decide)
    rw [encodeRecord, hover]
    rfl
  refine ⟨?_, hrec, fun out m h => ?_⟩
  · rintro ⟨m, ws, h, -⟩
    rw [hrec] at h
    cases h
  · obtain ⟨ws, h, -⟩ := (skyBase64Encode_ok_iff 0).1 h
    rw [hrec] at h
    cases h

end Sky.Base64
