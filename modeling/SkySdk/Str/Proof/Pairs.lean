import SkySdk.Str.Proof.Hex

/-!
# What an output byte of `sky_str_from_hex` is determined by

`valueAfter` is the variable `value` after some rounds: it keeps what the last successful scan has
left there, or what it held before the first one. Byte `k` of the output is `valueAfter` of `k` + 1
rounds (`fromHexLoop_get`), so it depends on the characters before its pair where the pair is no
number, and on those behind it where the scan skips white space first (`fromHex_pair_iff`).
-/

set_option autoImplicit false

namespace Sky.Str

open Base

variable {hex str out tail : List UInt8} {hexLen value v : UInt32} {a b c : UInt8} {k j : Nat}

/-! ## The variable -/

/-- `value` after the first rounds; before them it holds anything. -/
def valueAfter (value : UInt32) (hex : List UInt8) : Nat → UInt32
  | 0 => value
  | k + 1 =>
    match scan02x (hex.drop (2 * k)) with
    | .ok (some v) => v
    | _ => valueAfter value hex k

theorem valueAfter_succ {scanned : Option UInt32} (h : scan02x (hex.drop (2 * k)) = .ok scanned) :
    valueAfter value hex (k + 1) = scanned.getD (valueAfter value hex k) := by
  rw [valueAfter, h]
  cases scanned <;> rfl

def lowByte (v : UInt32) : UInt8 := (v &&& 0xff).toUInt8

/-- A loop that ends has written the low byte of `value` after each of its rounds. -/
theorem fromHexLoop_get : ∀ (n j : Nat) (str : List UInt8),
    fromHexLoop hex hexLen n (2 * j) (valueAfter value hex j) str = .ok out →
    (∀ i < j, out[i]? = str[i]?) ∧ ∀ k, j ≤ k → 2 * k < hexLen.toNat → 2 * k + 2 ≤ intMax ∧
      out[k]? = some (lowByte (valueAfter value hex (k + 1)))
  | 0, _, _, h => by cases h
  | n + 1, j, str, h => by
    have hhalf : 2 * j / 2 = j := Nat.mul_div_cancel_left j (by decide)
    rw [fromHexLoop, hhalf] at h
    by_cases hlt : 2 * j < hexLen.toNat
    · rw [if_pos hlt] at h
      obtain ⟨scanned, hscan, h⟩ := bind_ok h
      rw [← valueAfter_succ hscan] at h
      obtain ⟨str', hstr, h⟩ := bind_ok h
      obtain ⟨i', hi', h⟩ := bind_ok h
      rw [writeAt] at hstr
      split at hstr
      · rename_i hj
        cases hstr
        rw [addInt] at hi'
        split at hi'
        · rename_i hmax
          cases hi'
          obtain ⟨hbefore, hfrom⟩ := fromHexLoop_get n (j + 1) _ h
          refine ⟨fun i hi => ?_, fun k hk hk' => ?_⟩
          · rw [hbefore i (by omega), List.getElem?_set_ne (by omega)]
          · rcases Nat.lt_or_ge j k with hjk | hjk
            · exact hfrom k hjk hk'
            · obtain rfl : k = j := by omega
              refine ⟨hmax, ?_⟩
              rw [hbefore k (by omega), List.getElem?_set_self hj]
              rfl
        · cases hi'
      · cases hstr
    · rw [if_neg hlt] at h
      cases h
      exact ⟨fun _ _ => rfl, fun k hk hk' => by omega⟩

/-- A loop whose scans find their items ends. -/
theorem fromHexLoop_returns {m : Nat} (hm : hexLen.toNat = 2 * m) (hmax : 2 * m ≤ intMax)
    (hscan : ∀ k < m, ∃ scanned, scan02x (hex.drop (2 * k)) = .ok scanned) :
    ∀ (n j : Nat) (value : UInt32) (str : List UInt8), m ≤ str.length → 2 * m - 2 * j < n →
    ∃ out, fromHexLoop hex hexLen n (2 * j) value str = .ok out
  | 0, _, _, _, _, hfuel => absurd hfuel (Nat.not_lt_zero _)
  | n + 1, j, value, str, hlen, hfuel => by
    have hhalf : 2 * j / 2 = j := Nat.mul_div_cancel_left j (by decide)
    rw [fromHexLoop, hhalf]
    by_cases hlt : 2 * j < hexLen.toNat
    · obtain ⟨scanned, hs⟩ := hscan j (by omega)
      obtain ⟨out, hout⟩ := fromHexLoop_returns hm hmax hscan n (j + 1) (scanned.getD value)
        (str.set j (scanned.getD value &&& 0xff).toUInt8) (by rw [List.length_set]; exact hlen)
        (by omega)
      rw [if_pos hlt, hs, ok_bind]
      dsimp only
      rw [writeAt, if_pos (by omega), ok_bind, addInt_of_le (by omega), ok_bind]
      exact ⟨out, hout⟩
    · rw [if_neg hlt]
      exact ⟨str, rfl⟩

/-! ## Pairs -/

/-- The two characters start a number, which `"%02x"` then reads from them alone. -/
def PairNumber (a b : UInt8) : Prop :=
  (hexValue? a ≠ none ∧ ¬ (a = 48 ∧ (b = 120 ∨ b = 88))) ∨
    ((a = 43 ∨ a = 45) ∧ hexValue? b ≠ none)

/-- White space is skipped, and the item goes on behind the pair. -/
def SpillsOver (a b : UInt8) : Prop :=
  isSpace a = true ∧ (isSpace b = true ∨ hexValue? b ≠ none ∨ b = 43 ∨ b = 45)

theorem scan02x_of_not_isSpace (ha : isSpace a = false) :
    scan02x (a :: tail) = scanItem a tail := by
  rw [scan02x, List.dropWhile_cons_of_neg (by rw [ha]; decide)]

theorem scan02x_of_isSpace (ha : isSpace a = true) : scan02x (a :: tail) = scan02x tail := by
  rw [scan02x, scan02x, List.dropWhile_cons_of_pos ha]

theorem scan02x_pairNumber (h : PairNumber a b) :
    ∃ v, ∀ tail, scan02x (a :: b :: tail) = .ok (some v) := by
  rcases h with ⟨hd, hx⟩ | ⟨hsign, hd⟩
  · obtain ⟨d, hd'⟩ := Option.ne_none_iff_exists'.1 hd
    have hitem : ∃ v, ∀ tail, scanItem a (b :: tail) = .ok (some v) := by
      cases hb : hexValue? b with
      | some d' => exact ⟨16 * d + d', fun tail => by simp only [scanItem, hd', hb]⟩
      | none => exact ⟨d, fun tail => by simp only [scanItem, hd', hb, if_neg hx]⟩
    obtain ⟨v, hv⟩ := hitem
    exact ⟨v, fun tail => (scan02x_of_not_isSpace (not_isSpace_of_hexValue? hd)).trans (hv tail)⟩
  · obtain ⟨d, hd'⟩ := Option.ne_none_iff_exists'.1 hd
    have hplus : hexValue? 43 = none := rfl
    have hminus : hexValue? 45 = none := rfl
    rcases hsign with rfl | rfl
    · refine ⟨d, fun tail => (scan02x_of_not_isSpace rfl).trans ?_⟩
      simp only [scanItem, hplus, hd']
      rfl
    · refine ⟨-d, fun tail => (scan02x_of_not_isSpace rfl).trans ?_⟩
      simp only [scanItem, hminus, hd']
      rfl

/-- Neither a number nor a way to the characters behind: a scan that starts here assigns nothing. -/
theorem scan02x_none (hp : ¬ PairNumber a b) (hs : ¬ SpillsOver a b) (tail : List UInt8) :
    scan02x (a :: b :: tail) = .ok none := by
  cases ha : isSpace a with
  | true =>
    have hstart : ¬ (isSpace b = true ∨ hexValue? b ≠ none ∨ b = 43 ∨ b = 45) :=
      fun h => hs ⟨ha, h⟩
    simp only [not_or, Bool.not_eq_true, Decidable.not_not] at hstart
    obtain ⟨hb, hd, hplus, hminus⟩ := hstart
    rw [scan02x_of_isSpace ha, scan02x_of_not_isSpace hb]
    cases tail with
    | nil => simp only [scanItem, hd, hplus, hminus, or_self, if_false]
    | cons c tail =>
      cases hc : hexValue? c with
      | none => simp only [scanItem, hd, hc]
      | some d => simp only [scanItem, hd, hc, if_neg hplus, if_neg hminus]
  | false =>
    rw [scan02x_of_not_isSpace ha]
    cases hd : hexValue? a with
    | some d =>
      have hx : a = 48 ∧ (b = 120 ∨ b = 88) := by
        refine Decidable.not_not.1 fun hx => hp (.inl ⟨?_, hx⟩)
        rw [hd]
        exact Option.some_ne_none d
      have hb : hexValue? b = none := by
        rcases hx.2 with rfl | rfl <;> rfl
      simp only [scanItem, hd, hb, if_pos hx]
    | none =>
      cases hb : hexValue? b with
      | none => simp only [scanItem, hd, hb]
      | some d' =>
        have hsign : ¬ (a = 43 ∨ a = 45) := by
          refine fun hsign => hp (.inr ⟨hsign, ?_⟩)
          rw [hb]
          exact Option.some_ne_none d'
        obtain ⟨hplus, hminus⟩ := not_or.1 hsign
        simp only [scanItem, hd, hb, if_neg hplus, if_neg hminus]

/-- The low byte of what a scan assigns. -/
def scannedByte (text : List UInt8) : Option UInt8 :=
  match scan02x text with
  | .ok (some v) => some (lowByte v)
  | _ => none

theorem scan_of_scannedByte (h : scannedByte hex ≠ none) :
    ∃ v, scan02x hex = .ok (some v) ∧ scannedByte hex = some (lowByte v) := by
  unfold scannedByte at h ⊢
  split at h
  · rename_i v hv
    exact ⟨v, hv, rfl⟩
  · exact absurd rfl h

/-- Two ends of a text that make a difference. -/
theorem scan02x_spillsOver (h : SpillsOver a b) : ∃ v v', lowByte v ≠ lowByte v' ∧
    scan02x [a, b, 48, 48] = .ok (some v) ∧ scan02x [a, b, 49, 48] = .ok (some v') := by
  obtain ⟨ha, hb⟩ := h
  have hall : ∀ n < 256, (isSpace (.ofNat n) = true ∨ hexValue? (.ofNat n) ≠ none ∨
      (.ofNat n : UInt8) = 43 ∨ (.ofNat n : UInt8) = 45) →
      scannedByte [.ofNat n, 48, 48] ≠ none ∧ scannedByte [.ofNat n, 49, 48] ≠ none ∧
        scannedByte [.ofNat n, 48, 48] ≠ scannedByte [.ofNat n, 49, 48] := by
    decide +kernel
  have hb' := hall b.toNat b.toNat_lt
  rw [UInt8.ofNat_toNat] at hb'
  obtain ⟨h0, h1, hne⟩ := hb' hb
  obtain ⟨v, hv, hbyte⟩ := scan_of_scannedByte h0
  obtain ⟨v', hv', hbyte'⟩ := scan_of_scannedByte h1
  rw [hbyte, hbyte'] at hne
  exact ⟨v, v', fun h => hne (congrArg some h), (scan02x_of_isSpace ha).trans hv,
    (scan02x_of_isSpace ha).trans hv'⟩

/-! ## Two runs -/

/-- A call that returns 0 has written the low byte of `value` after each pair. -/
theorem skyStrFromHex_get {strLen : UInt32}
    (h : skyStrFromHex value (some hex) hexLen (some str) strLen = .ok (0, some out))
    (hk : 2 * k < hexLen.toNat) :
    2 * k + 2 ≤ intMax ∧ out[k]? = some (lowByte (valueAfter value hex (k + 1))) := by
  rw [skyStrFromHex] at h
  split at h
  · obtain ⟨out', hloop, h⟩ := bind_ok h
    cases h
    exact (fromHexLoop_get (hexLen.toNat + 1) 0 str hloop).2 k (Nat.zero_le k) hk
  · cases h

/-- The text of `k` pairs of one character and then `tail`. -/
def behindPairs (c : UInt8) (k : Nat) (tail : List UInt8) : List UInt8 :=
  List.replicate (2 * k) c ++ tail

theorem drop_behindPairs : (behindPairs c k tail).drop (2 * k) = tail :=
  List.drop_left' List.length_replicate

theorem drop_behindPairs_of_lt (hj : j < k) : ∃ tail',
    (behindPairs c k tail).drop (2 * j) = c :: c :: tail' := by
  obtain ⟨n, hn⟩ : ∃ n, 2 * k - 2 * j = n + 1 + 1 := ⟨2 * k - 2 * j - 2, by omega⟩
  refine ⟨List.replicate n c ++ tail, ?_⟩
  rw [behindPairs, List.drop_append_of_le_length (by rw [List.length_replicate]; omega),
    List.drop_replicate, hn, List.replicate_succ, List.replicate_succ]
  rfl

/-- The pairs leave in `value` what they stand for; if there is none, let it be there already. -/
theorem valueAfter_behindPairs (hc : ∀ t, scan02x (c :: c :: t) = .ok (some v)) :
    ∀ j ≤ k, valueAfter v (behindPairs c k tail) j = v
  | 0, _ => rfl
  | j + 1, hj => by
    obtain ⟨tail', ht⟩ := drop_behindPairs_of_lt (Nat.lt_of_succ_le hj)
    rw [valueAfter_succ (by rw [ht]; exact hc tail')]
    rfl

/-- A call on such a text, the pair at its place `k` being the last one. -/
theorem exists_call {scanned : Option UInt32} (hc : ∀ t, scan02x (c :: c :: t) = .ok (some v))
    (hmax : 2 * k + 2 ≤ intMax) (hscan : scan02x tail = .ok scanned) :
    ∃ out, skyStrFromHex v (some (behindPairs c k tail)) (.ofNat (2 * (k + 1)))
      (some (List.replicate (k + 1) 0)) (.ofNat (k + 1)) = .ok (0, some out) ∧
      out[k]? = some (lowByte (scanned.getD v)) := by
  unfold intMax at hmax
  have hlast : scan02x ((behindPairs c k tail).drop (2 * k)) = .ok scanned := by
    rw [drop_behindPairs, hscan]
  have hall : ∀ j < k + 1, ∃ scanned, scan02x ((behindPairs c k tail).drop (2 * j)) =
      .ok scanned := by
    intro j hj
    rcases Nat.lt_or_eq_of_le (Nat.le_of_lt_succ hj) with hlt | rfl
    · obtain ⟨tail', ht⟩ := drop_behindPairs_of_lt hlt
      exact ⟨some v, by rw [ht]; exact hc tail'⟩
    · exact ⟨scanned, hlast⟩
  have hlen : (UInt32.ofNat (2 * (k + 1))).toNat = 2 * (k + 1) := toNat_ofNat (by omega)
  obtain ⟨out, hout⟩ := fromHexLoop_returns hlen (by unfold intMax; omega) hall
    (2 * (k + 1) + 1) 0 v (List.replicate (k + 1) 0) (Nat.le_of_eq List.length_replicate.symm)
    (by omega)
  have hcall : skyStrFromHex v (some (behindPairs c k tail)) (.ofNat (2 * (k + 1)))
      (some (List.replicate (k + 1) 0)) (.ofNat (k + 1)) = .ok (0, some out) := by
    rw [skyStrFromHex, if_pos (guard_passes (by omega)), hlen]
    change (fromHexLoop _ _ _ (2 * 0) v _ >>= _) = _
    rw [hout]
    rfl
  have hget := (skyStrFromHex_get (k := k) hcall (by omega)).2
  rw [valueAfter_succ hlast, valueAfter_behindPairs hc k (Nat.le_refl k)] at hget
  exact ⟨out, hcall, hget⟩

/-- The two characters of pair `k` determine byte `k` of the output: any two calls on texts of the
same even length that have them there give it the same value if both return 0, whatever else the
texts, the buffers and `value` hold. -/
def PairDecides (k : Nat) (a b : UInt8) : Prop :=
  ∀ (value value' hexLen strLen strLen' : UInt32) (hex hex' str str' out out' : List UInt8),
    hexLen.toNat % 2 = 0 → 2 * k + 1 < hexLen.toNat →
    hex[2 * k]? = some a ∧ hex[2 * k + 1]? = some b →
    hex'[2 * k]? = some a ∧ hex'[2 * k + 1]? = some b →
    skyStrFromHex value (some hex) hexLen (some str) strLen = .ok (0, some out) →
    skyStrFromHex value' (some hex') hexLen (some str') strLen' = .ok (0, some out') →
    out[k]? = out'[k]?

/-- Two such calls with the pair at place `k` of both and different bytes there. -/
theorem not_pairDecides {c' : UInt8} {v' : UInt32} {tail' : List UInt8}
    {scanned scanned' : Option UInt32} (hmax : 2 * k + 2 ≤ intMax)
    (hc : ∀ t, scan02x (c :: c :: t) = .ok (some v))
    (hc' : ∀ t, scan02x (c' :: c' :: t) = .ok (some v'))
    (hscan : scan02x (a :: b :: tail) = .ok scanned)
    (hscan' : scan02x (a :: b :: tail') = .ok scanned')
    (hne : lowByte (scanned.getD v) ≠ lowByte (scanned'.getD v')) : ¬ PairDecides k a b := by
  intro hdec
  obtain ⟨out, hout, hget⟩ := exists_call hc hmax hscan
  obtain ⟨out', hout', hget'⟩ := exists_call hc' hmax hscan'
  have hlen : (UInt32.ofNat (2 * (k + 1))).toNat = 2 * (k + 1) := by
    unfold intMax at hmax
    exact toNat_ofNat (by omega)
  have hpair : ∀ (c : UInt8) (t : List UInt8), (behindPairs c k (a :: b :: t))[2 * k]? = some a ∧
      (behindPairs c k (a :: b :: t))[2 * k + 1]? = some b := by
    intro c t
    rw [← List.getElem?_drop, ← Nat.add_zero (2 * k), ← List.getElem?_drop,
      Nat.add_zero, drop_behindPairs]
    exact ⟨rfl, rfl⟩
  have hbyte := hdec v v' _ _ _ _ _ _ _ out out' (by omega) (by omega) (hpair c tail)
    (hpair c' tail') hout hout'
  rw [hget, hget'] at hbyte
  exact hne (Option.some.inj hbyte)

/-- For every pair of characters and place of it: they determine their byte if and only if they
start a number, or are at a place that no call gets past. -/
theorem fromHex_pair_iff (k : Nat) (a b : UInt8) : PairDecides k a b ↔
    PairNumber a b ∨ intMax < 2 * k + 2 := by
  have hzeros : ∀ t, scan02x (48 :: 48 :: t) = .ok (some 0) := fun _ => rfl
  have hones : ∀ t, scan02x (49 :: 49 :: t) = .ok (some 17) := fun _ => rfl
  constructor
  · intro hdec
    by_cases hp : PairNumber a b
    · exact .inl hp
    refine .inr (Nat.lt_of_not_le fun hmax => ?_)
    by_cases hs : SpillsOver a b
    · -- what is behind the pair makes a difference
      obtain ⟨v, v', hne, hv, hv'⟩ := scan02x_spillsOver hs
      exact not_pairDecides hmax hzeros hzeros hv hv' hne hdec
    · -- nothing is assigned, so what was in `value` before makes a difference
      exact not_pairDecides hmax hzeros hones (scan02x_none hp hs []) (scan02x_none hp hs [])
        (by decide) hdec
  · intro hcond value value' hexLen strLen strLen' hex hex' str str' out out' _ hk hpair hpair' hx
      hx'
    obtain ⟨hmax, hget⟩ := skyStrFromHex_get (k := k) hx (by omega)
    obtain ⟨-, hget'⟩ := skyStrFromHex_get (k := k) hx' (by omega)
    obtain ⟨w, hw⟩ := scan02x_pairNumber (hcond.resolve_right (Nat.not_lt.2 hmax))
    have hscan : ∀ t : List UInt8, t[2 * k]? = some a ∧ t[2 * k + 1]? = some b →
        scan02x (t.drop (2 * k)) = .ok (some w) := by
      rintro t ⟨ha, hb⟩
      obtain ⟨h1, ha⟩ := List.getElem?_eq_some_iff.1 ha
      obtain ⟨h2, hb⟩ := List.getElem?_eq_some_iff.1 hb
      rw [List.drop_eq_getElem_cons h1, List.drop_eq_getElem_cons h2, ha, hb]
      exact hw _
    rw [hget, hget', valueAfter_succ (hscan hex hpair), valueAfter_succ (hscan hex' hpair')]
    rfl

/-- `"12zz"` and `"34zz"`: both calls return 0, with the second byte 0x12 and 0x34. -/
theorem fromHex_pair_leaks : ¬ PairDecides 1 122 122 ∧
    skyStrFromHex 0 (some [49, 50, 122, 122, 0]) 4 (some [0, 0]) 2 = .ok (0, some [0x12, 0x12]) ∧
    skyStrFromHex 0 (some [51, 52, 122, 122, 0]) 4 (some [0, 0]) 2 =
      .ok (0, some [0x34, 0x34]) := by
  have h1 : skyStrFromHex 0 (some [49, 50, 122, 122, 0]) 4 (some [0, 0]) 2 =
      .ok (0, some [0x12, 0x12]) := by decide
  have h2 : skyStrFromHex 0 (some [51, 52, 122, 122, 0]) 4 (some [0, 0]) 2 =
      .ok (0, some [0x34, 0x34]) := by decide
  refine ⟨fun hdec => ?_, h1, h2⟩
  have hbyte := hdec 0 0 4 2 2 _ _ _ _ _ _ rfl (by decide) ⟨rfl, rfl⟩ ⟨rfl, rfl⟩ h1 h2
  exact absurd hbyte (by decide)

end Sky.Str
