import SkySdk.Str.Proof.Hex
import SkySdk.Str.Writes

/-!
# `sky_str_from_hex` on hexadecimal digits

Two digits are read from their pair alone, whatever comes behind them, so each round writes the
byte of its pair (`fromHexWrites_digits`). `bytesOf` is what a text of pairs stands for; upper and
lower case stand for the same (`bytesOf_lower`). What `sky_str_to_hex` prints is such a text, so the
round trip holds of exactly the bytes that it prints (`hex_roundTrip_iff`).
-/

set_option autoImplicit false

namespace Sky.Str

open Base

variable {a b c : UInt8} {i : Nat}

/-- The value of a hexadecimal digit of either case. -/
def digit (c : UInt8) : Nat := ((hexValue? c).getD 0).toNat

/-- The byte of two digits. -/
def pairByte (a b : UInt8) : UInt8 := .ofNat (16 * digit a + digit b)

/-- The byte of each pair of a text. -/
def bytesOf : List UInt8 → List UInt8
  | a :: b :: rest => pairByte a b :: bytesOf rest
  | _ => []

/-- A letter in lower case. -/
def lower (c : UInt8) : UInt8 := if 65 ≤ c ∧ c ≤ 90 then c + 32 else c

/-! ## Digits -/

theorem digit_eq (c : UInt8) : digit c =
    if 48 ≤ c.toNat ∧ c.toNat ≤ 57 then c.toNat - 48
    else if 97 ≤ c.toNat ∧ c.toNat ≤ 102 then c.toNat - 87
    else if 65 ≤ c.toNat ∧ c.toNat ≤ 70 then c.toNat - 55
    else 0 := by
  have hsub (k : UInt32) (hk : k.toNat ≤ c.toNat) :
      (c.toUInt32 - k).toNat = c.toNat - k.toNat :=
    UInt32.toNat_sub_of_le _ _ (UInt32.le_iff_toNat_le.2 hk)
  unfold digit hexValue?
  simp only [UInt8.le_iff_toNat_le, UInt8.reduceToNat]
  split
  · exact hsub 48 (by simp; omega)
  · split
    · exact hsub 87 (by simp; omega)
    · split
      · exact hsub 55 (by simp; omega)
      · rfl

theorem lower_toNat (c : UInt8) :
    (lower c).toNat = if 65 ≤ c.toNat ∧ c.toNat ≤ 90 then c.toNat + 32 else c.toNat := by
  unfold lower
  simp only [UInt8.le_iff_toNat_le, UInt8.reduceToNat]
  split
  · rw [UInt8.toNat_add]
    simp
    omega
  · rfl

theorem digit_lower (c : UInt8) : digit (lower c) = digit c := by
  rw [digit_eq, digit_eq, lower_toNat]
  grind

theorem digit_hexChar (hi : i < 16) : digit (hexChar i) = i := by
  obtain ⟨hval, -⟩ := hexValue?_hexChar hi
  rw [digit, hval]
  exact toNat_ofNat (by omega)

theorem hexValue?_digit (hc : hexValue? c ≠ none) :
    hexValue? c = some (.ofNat (digit c)) ∧ digit c < 16 ∧ isSpace c = false := by
  refine ⟨?_, ?_, ?_⟩
  · obtain ⟨v, hv⟩ := Option.ne_none_iff_exists'.1 hc
    rw [digit, hv, Option.getD_some, UInt32.ofNat_toNat]
  · rw [digit_eq]
    split
    · omega
    · split
      · omega
      · split <;> omega
  · exact not_isSpace_of_hexValue? hc

theorem lowByte_pair (x y : Nat) :
    ((16 * UInt32.ofNat x + UInt32.ofNat y) &&& 0xff).toUInt8 = .ofNat (16 * x + y) := by
  have hand (n : Nat) : n &&& 255 = n % 256 := Nat.and_two_pow_sub_one_eq_mod n 8
  apply UInt8.toNat_inj.1
  simp [hand]

theorem scan02x_digits (ha : hexValue? a ≠ none) (hb : hexValue? b ≠ none) (tail : List UInt8) :
    scan02x (a :: b :: tail) =
      .ok (some (16 * UInt32.ofNat (digit a) + UInt32.ofNat (digit b))) := by
  obtain ⟨hva, -, hsp⟩ := hexValue?_digit ha
  obtain ⟨hvb, -⟩ := hexValue?_digit hb
  rw [scan02x, List.dropWhile_cons_of_neg (by rw [hsp]; decide)]
  simp only [scanItem, hva, hvb]

/-! ## Texts -/

theorem length_bytesOf : ∀ (n : Nat) (text : List UInt8), text.length = 2 * n →
    (bytesOf text).length = n
  | 0, text, h => by
    obtain rfl := List.length_eq_zero_iff.1 h
    rfl
  | n + 1, text, h => by
    obtain ⟨a, b, rest, rfl, hrest⟩ := exists_pair h
    rw [bytesOf, List.length_cons, length_bytesOf n rest hrest]

theorem bytesOf_get : ∀ (k n : Nat) (text : List UInt8), text.length = 2 * n → k < n →
    ∃ a b, text[2 * k]? = some a ∧ text[2 * k + 1]? = some b ∧
      (bytesOf text)[k]? = some (pairByte a b)
  | _, 0, _, _, hk => absurd hk (Nat.not_lt_zero _)
  | 0, n + 1, text, h, _ => by
    obtain ⟨a, b, rest, rfl, -⟩ := exists_pair h
    exact ⟨a, b, rfl, rfl, rfl⟩
  | k + 1, n + 1, text, h, hk => by
    obtain ⟨a, b, rest, rfl, hrest⟩ := exists_pair h
    exact bytesOf_get k n rest hrest (Nat.lt_of_succ_lt_succ hk)

theorem bytesOf_lower : ∀ text : List UInt8, bytesOf (text.map lower) = bytesOf text
  | [] => rfl
  | [_] => rfl
  | a :: b :: rest => by
    rw [List.map_cons, List.map_cons, bytesOf, bytesOf, pairByte, pairByte, digit_lower,
      digit_lower, bytesOf_lower rest]

theorem bytesOf_hexOf (bs : List UInt8) : bytesOf (hexOf bs) = bs := by
  induction bs with
  | nil => rfl
  | cons c bs ih =>
    have hhigh : c.toNat / 16 < 16 := Nat.div_lt_of_lt_mul c.toNat_lt
    have hlow : c.toNat % 16 < 16 := Nat.mod_lt c.toNat (by decide)
    have hbyte : pairByte (hexChar (c.toNat / 16)) (hexChar (c.toNat % 16)) = c := by
      rw [pairByte, digit_hexChar hhigh, digit_hexChar hlow, Nat.div_add_mod, UInt8.ofNat_toNat]
    change pairByte _ _ :: bytesOf (hexOf bs) = _
    rw [hbyte, ih]

/-! ## The loop -/

/-- The rounds on the pairs from `i` on write the byte of each. -/
theorem fromHexWrites_digits (hexLen : UInt32) (behind : List UInt8) :
    ∀ (m n : Nat) (pre rest : List UInt8) (i : Nat) (value : UInt32),
    pre.length = 2 * i → rest.length = 2 * m → hexLen.toNat = 2 * (i + m) →
    2 * (i + m) ≤ intMax → m < n → (∀ c ∈ rest, hexValue? c ≠ none) →
    fromHexWrites (pre ++ rest ++ behind) hexLen n (2 * i) value =
      ((List.range' i m).zip (bytesOf rest), none)
  | _, 0, _, _, _, _, _, _, _, _, hfuel, _ => absurd hfuel (Nat.not_lt_zero _)
  | 0, n + 1, _, _, i, _, _, _, hlen, _, _, _ => by
    rw [fromHexWrites, if_neg (by omega)]
    rfl
  | m + 1, n + 1, pre, rest, i, value, hpre, hrest, hlen, hmax, hfuel, hdigits => by
    obtain ⟨a, b, rest', rfl, hrest'⟩ := exists_pair hrest
    have ha := hdigits a List.mem_cons_self
    have hb := hdigits b (List.mem_cons_of_mem a List.mem_cons_self)
    obtain ⟨-, hxa, -⟩ := hexValue?_digit ha
    obtain ⟨-, hxb, -⟩ := hexValue?_digit hb
    have hdrop : (pre ++ a :: b :: rest' ++ behind).drop (2 * i) =
        a :: b :: (rest' ++ behind) := by
      rw [← hpre, List.append_assoc, List.drop_left]
      rfl
    have hhalf : 2 * i / 2 = i := Nat.mul_div_cancel_left i (by decide)
    have hnext : (pre ++ [a, b]).length = 2 * (i + 1) := by
      rw [List.length_append, hpre]
      rfl
    have ih := fromHexWrites_digits hexLen behind m n (pre ++ [a, b]) rest' (i + 1)
      (16 * UInt32.ofNat (digit a) + UInt32.ofNat (digit b)) hnext hrest' (by omega)
      (by omega) (Nat.lt_of_succ_lt_succ hfuel)
      fun c hc => hdigits c (List.mem_cons_of_mem a (List.mem_cons_of_mem b hc))
    rw [List.append_assoc pre, List.cons_append, List.cons_append, List.nil_append] at ih
    rw [fromHexWrites, if_pos (by omega), hdrop, scan02x_digits ha hb]
    dsimp only [Option.getD_some]
    rw [addInt_of_le (by omega), hhalf, lowByte_pair]
    change Writes.cons _ (fromHexWrites _ hexLen n (2 * (i + 1)) _) = _
    rw [ih, List.range'_succ, bytesOf]
    rfl

/-- The writes of consecutive rounds are a run of bytes. -/
theorem carryOut_zip : ∀ (bytes : List UInt8) (i : Nat) (out : List UInt8),
    Writes.carryOut ((List.range' i bytes.length).zip bytes, none) out = writeRun out i bytes
  | [], _, _ => rfl
  | x :: bytes, i, out => by
    rw [List.length_cons, List.range'_succ, List.zip_cons_cons]
    change Writes.carryOut (Writes.cons (i, x)
      ((List.range' (i + 1) bytes.length).zip bytes, none)) out = _
    rw [Writes.carryOut_cons, writeRun]
    simp only [carryOut_zip bytes (i + 1)]

/-- A call on digits, whatever is behind them, in the output and in `value`. -/
theorem skyStrFromHex_digits {text out : List UInt8} {n : Nat} (behind : List UInt8)
    (value : UInt32) (hn : n < 2 ^ 30) (htext : text.length = 2 * n)
    (hdigits : ∀ c ∈ text, hexValue? c ≠ none) (hout : n ≤ out.length) :
    fromHexWrites (text ++ behind) (.ofNat (2 * n)) (2 * n + 1) 0 value =
        ((List.range' 0 n).zip (bytesOf text), none) ∧
      skyStrFromHex value (some (text ++ behind)) (.ofNat (2 * n)) (some out) (.ofNat n) =
        .ok (0, some (bytesOf text ++ out.drop n)) := by
  have hlen : (UInt32.ofNat (2 * n)).toNat = 2 * n := toNat_ofNat (by omega)
  have hbytes := length_bytesOf n text htext
  have hws := fromHexWrites_digits (.ofNat (2 * n)) behind n (2 * n + 1) [] text 0 value rfl
    htext (by omega) (by unfold intMax; omega) (by omega) hdigits
  have hcarry := carryOut_zip (bytesOf text) 0 out
  have hrun := writeRun_append (bytesOf text) [] out (by omega)
  rw [hbytes] at hcarry hrun
  rw [Nat.mul_zero, List.nil_append] at hws
  refine ⟨hws, ?_⟩
  rw [skyStrFromHex, if_pos (guard_passes hn), hlen, fromHexLoop_eq_writes, hws, hcarry,
    show writeRun out 0 (bytesOf text) = _ from hrun]
  rfl

/-- For every `n < 2^30` and every text of 2 `n` hexadecimal digits, whatever comes behind its NUL
and whatever the output holds: the call returns 0, byte `k` of the output is that of the digits
2 `k` and 2 `k` + 1, the rest of it is as before, and the writes are to 0 up to `n` - 1. The case of
a letter makes no difference, and the digits of any bytes give these bytes. -/
theorem fromHex_digits (text behind out : List UInt8) (n : Nat) (value : UInt32) (hn : n < 2 ^ 30)
    (htext : text.length = 2 * n) (hdigits : ∀ c ∈ text, hexValue? c ≠ none)
    (hout : n ≤ out.length) :
    skyStrFromHex value (some (text ++ 0 :: behind)) (.ofNat (2 * n)) (some out) (.ofNat n) =
      .ok (0, some (bytesOf text ++ out.drop n)) ∧
    (∀ k < n, ∃ a b, text[2 * k]? = some a ∧ text[2 * k + 1]? = some b ∧
      (bytesOf text)[k]? = some (.ofNat (16 * digit a + digit b))) ∧
    (fromHexWrites (text ++ 0 :: behind) (.ofNat (2 * n)) (2 * n + 1) 0 value).1.map Prod.fst =
      List.range n ∧
    (∀ text' : List UInt8, text'.map lower = text.map lower → bytesOf text' = bytesOf text) ∧
    ∀ bs, text.map lower = hexOf bs → bytesOf text = bs := by
  obtain ⟨hws, hcall⟩ := skyStrFromHex_digits (0 :: behind) value hn htext hdigits hout
  refine ⟨hcall, fun k hk => bytesOf_get k n text htext hk, ?_, ?_, ?_⟩
  · rw [hws, List.range_eq_range']
    exact List.map_fst_zip (Nat.le_of_eq (List.length_range'.trans
      (length_bytesOf n text htext).symm))
  · intro text' hcase
    rw [← bytesOf_lower text', hcase, bytesOf_lower]
  · intro bs hbs
    rw [← bytesOf_lower text, hbs, bytesOf_hexOf]

/-- `"aF09"` -/
theorem fromHex_digits_text :
    skyStrFromHex 7 (some [97, 70, 48, 57, 0]) 4 (some [1, 1, 1]) 2 =
      .ok (0, some [0xaf, 0x09, 1]) :=
  (fromHex_digits [97, 70, 48, 57] [] [1, 1, 1] 2 7 (by decide) rfl (by simp [hexValue?])
    (by decide)).1

/-! ## The round trip -/

theorem hexValue?_hexOf {bs : List UInt8} (hc : c ∈ hexOf bs) : hexValue? c ≠ none := by
  obtain ⟨b, -, hb⟩ := List.mem_flatMap.1 hc
  have hdigit : ∀ i < 16, hexValue? (hexChar i) ≠ none := by
    intro i hi
    rw [(hexValue?_hexChar hi).1]
    exact Option.some_ne_none _
  rcases List.mem_cons.1 hb with rfl | hb
  · exact hdigit _ (Nat.div_lt_of_lt_mul b.toNat_lt)
  · rw [List.mem_singleton.1 hb]
    exact hdigit _ (Nat.mod_lt b.toNat (by decide))

end Sky.Str
