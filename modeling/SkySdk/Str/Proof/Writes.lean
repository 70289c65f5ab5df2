import SkySdk.Str.Writes
import SkySdk.Str.Proof.Hex

/-!
# What the guards of the hexadecimal functions protect

Both functions ask for `str_len * 2 <= hex_len`, in 32 bits. That is right for `sky_str_to_hex` up
to lengths whose double wraps (`toHex_inBounds_iff`), but `sky_str_from_hex` writes an octet for
every two of `hex_len` characters, so there it lets through what it should refuse
(`fromHex_inBounds_iff`).
-/

set_option autoImplicit false

namespace Sky.Str

open Base

variable {str hex : List UInt8} {strLen hexLen : UInt32} {n i : Nat}

/-! ## To hex -/

/-- The writes of `sky_str_to_hex`: two for each byte, those of byte `i` at 2`i` and 2`i` + 1, all
of them inside of the `hexLen` characters and no two at one offset. -/
def ToHexInBounds (str : List UInt8) (strLen hexLen : UInt32) : Prop :=
  ∃ ws, toHexWrites str 0 strLen.toNat = (ws, none) ∧ ws.length = 2 * strLen.toNat ∧
    (∀ i < strLen.toNat, (ws.map Prod.fst)[2 * i]? = some (2 * i) ∧
      (ws.map Prod.fst)[2 * i + 1]? = some (2 * i + 1)) ∧
    (∀ w ∈ ws, w.1 < hexLen.toNat) ∧ (ws.map Prod.fst).Nodup

/-- The two characters of byte `i` of the text, where the code puts them. -/
def hexWrites (str : List UInt8) (i : Nat) : List (Nat × UInt8) :=
  let c := str[i]?.getD 0
  [(2 * i % 2 ^ 32, hexChar (c.toNat / 16)), (2 * i % 2 ^ 32 + 1, hexChar (c.toNat % 16))]

theorem toHexWrites_eq : ∀ n i : Nat, i + n ≤ str.length → i + n ≤ 2 ^ 32 →
    (∀ k, i ≤ k → k < i + n → str[k]?.getD 0 < 0x80) →
    toHexWrites str (.ofNat i) n = ((List.range' i n).flatMap (hexWrites str), none)
  | 0, _, _, _, _ => rfl
  | n + 1, i, hlen, hmax, hlow => by
    have hi : (UInt32.ofNat i).toNat = i := toNat_ofNat (by omega)
    have hi2 : (UInt32.ofNat i * 2).toNat = 2 * i % 2 ^ 32 := by
      rw [UInt32.toNat_mul, hi, Nat.mul_comm]
      rfl
    have hget : str[i]? = some (str[i]?.getD 0) := by
      rw [List.getElem?_eq_getElem (by omega)]
      rfl
    have hnext : UInt32.ofNat i + 1 = .ofNat (i + 1) := by
      rw [UInt32.ofNat_add]
      rfl
    have hrest := toHexWrites_eq n (i + 1) (by omega) (by omega)
      fun k hk hk' => hlow k (by omega) (by omega)
    rw [toHexWrites, hi, readAt_of_get? hget, ok_bind,
      sprintfBuf_eq (hlow i (Nat.le_refl i) (by omega))]
    dsimp only [readAt, hexPair]
    rw [hi2, hnext, hrest, List.range'_succ, List.flatMap_cons]
    rfl

theorem length_hexWrites (ks : List Nat) : (ks.flatMap (hexWrites str)).length = 2 * ks.length := by
  induction ks with
  | nil => rfl
  | cons k ks ih =>
    rw [List.flatMap_cons, List.length_append, ih, List.length_cons]
    change 2 + _ = _
    omega

/-- As long as no offset wraps, the writes go from the start to the end. -/
theorem fst_hexWrites (str : List UInt8) : ∀ n i : Nat, 2 * (i + n) ≤ 2 ^ 32 →
    ((List.range' i n).flatMap (hexWrites str)).map Prod.fst = List.range' (2 * i) (2 * n)
  | 0, _, _ => rfl
  | n + 1, i, hmax => by
    have hmod : 2 * i % 2 ^ 32 = 2 * i := Nat.mod_eq_of_lt (by omega)
    have hrest := fst_hexWrites str n (i + 1) (by omega)
    rw [List.range'_succ, List.flatMap_cons, List.map_append, hrest,
      show 2 * (n + 1) = 2 * n + 1 + 1 by omega, List.range'_succ, List.range'_succ]
    simp only [hexWrites, List.map_cons, List.map_nil, hmod]
    rfl

/-- For all lengths that pass the guard and all texts of bytes below 0x80: the writes are as they
should be if and only if `str_len` is below 2^31. From there on byte 2^31 - 1 is written at
2^32 - 2 and 2^32 - 1, which no `hex_len` reaches. -/
theorem toHex_inBounds_iff (hlen : strLen.toNat ≤ str.length)
    (hlow : ∀ c ∈ str.take strLen.toNat, c < 0x80) (hguard : strLen * 2 ≤ hexLen) :
    ToHexInBounds str strLen hexLen ↔ strLen.toNat < 2 ^ 31 := by
  have hlt := strLen.toNat_lt
  have hlow' : ∀ k, 0 ≤ k → k < 0 + strLen.toNat → str[k]?.getD 0 < 0x80 := by
    intro k _ hk
    have hk' : k < str.length := by omega
    rw [List.getElem?_eq_getElem hk']
    exact hlow _ (List.mem_take_iff_getElem.2 ⟨k, by omega, rfl⟩)
  have hws := toHexWrites_eq strLen.toNat 0 (by omega) (by omega) hlow'
  constructor
  · rintro ⟨ws, hx, -, -, hin, -⟩
    refine Nat.lt_of_not_le fun hge => ?_
    rw [show (0 : UInt32) = .ofNat 0 from rfl, hws] at hx
    cases hx
    have hmem : (2 * (2 ^ 31 - 1) % 2 ^ 32 + 1, hexChar ((str[2 ^ 31 - 1]?.getD 0).toNat % 16)) ∈
        (List.range' 0 strLen.toNat).flatMap (hexWrites str) := by
      refine List.mem_flatMap.2 ⟨2 ^ 31 - 1, ?_, ?_⟩
      · rw [List.mem_range'_1]
        omega
      · exact List.mem_cons_of_mem _ List.mem_cons_self
    have hw := hin _ hmem
    have hmax := hexLen.toNat_lt
    change 2 * (2 ^ 31 - 1) % 2 ^ 32 + 1 < hexLen.toNat at hw
    omega
  · intro hshort
    have hfst := fst_hexWrites str strLen.toNat 0 (by omega)
    have hdouble : 2 * strLen.toNat ≤ hexLen.toNat := by
      have hle := UInt32.le_iff_toNat_le.1 hguard
      rw [UInt32.toNat_mul] at hle
      change strLen.toNat * 2 % 2 ^ 32 ≤ _ at hle
      omega
    refine ⟨_, hws, ?_, ?_, ?_, ?_⟩
    · rw [length_hexWrites, List.length_range']
    · intro i hi
      rw [hfst, List.getElem?_range' (by omega), List.getElem?_range' (by omega)]
      constructor <;> congr 1 <;> omega
    · intro w hw
      have hw := List.mem_map_of_mem (f := Prod.fst) hw
      rw [hfst, List.mem_range'_1] at hw
      omega
    · rw [hfst]
      exact List.nodup_range'

theorem toHex_inBounds_text : ToHexInBounds [65, 122] 2 4 := by
  have hlen : (2 : UInt32).toNat ≤ ([65, 122] : List UInt8).length := by decide
  have hlow : ∀ c ∈ ([65, 122] : List UInt8).take (2 : UInt32).toNat, c < 0x80 := by
    simp [List.take]
  have hguard : (2 : UInt32) * 2 ≤ 4 := by decide
  exact (toHex_inBounds_iff hlen hlow hguard).2 (by decide)

/-- 2^31 letters pass the guard with no room for a single character: the product is 0. -/
theorem toHex_wraps : (2147483648 : UInt32) * 2 ≤ 0 ∧
    ¬ ToHexInBounds (List.replicate 2147483648 65) 2147483648 0 ∧
    skyStrToHex (some (List.replicate 2147483648 65)) 2147483648 (some []) 0 =
      .error .outOfBounds := by
  have hlow : ∀ k, 0 ≤ k → k < 0 + 2147483648 →
      (List.replicate 2147483648 (65 : UInt8))[k]?.getD 0 < 0x80 := by
    intro k _ hk
    have hlt : (some (65 : UInt8)).getD 0 < 0x80 := by decide
    rwa [List.getElem?_replicate, if_pos (by omega)]
  have hlen : 0 + 2147483648 ≤ (List.replicate 2147483648 (65 : UInt8)).length :=
    Nat.le_of_eq ((Nat.zero_add _).trans List.length_replicate.symm)
  have hws := toHexWrites_eq 2147483648 0 hlen (by decide) hlow
  have hmem : (0, hexChar (((List.replicate 2147483648 (65 : UInt8))[0]?.getD 0).toNat / 16)) ∈
      (List.range' 0 2147483648).flatMap (hexWrites (List.replicate 2147483648 65)) := by
    refine List.mem_flatMap.2 ⟨0, ?_, List.mem_cons_self⟩
    rw [List.mem_range'_1]
    decide
  refine ⟨by decide, ?_, ?_⟩
  · rintro ⟨ws, hx, -, -, hin, -⟩
    have hx := hws.symm.trans hx
    cases hx
    exact Nat.not_lt_zero _ (hin _ hmem)
  · have hx : toHexFrom (List.replicate 2147483648 65) 0 2147483648 [] = .error .outOfBounds := by
      rw [toHexFrom_eq_writes, show (0 : UInt32) = .ofNat 0 from rfl, hws,
        show 2147483648 = 2147483647 + 1 from rfl, List.range'_succ, List.flatMap_cons]
      rfl
    rw [skyStrToHex, if_pos (by decide), show (2147483648 : UInt32).toNat = 2147483648 from rfl, hx]
    rfl

/-! ## From hex -/

/-- The run of `sky_str_from_hex` writes inside of the `strLen` bytes only, and its index does not
overflow. -/
def FromHexInBounds (hex : List UInt8) (hexLen strLen : UInt32) : Prop :=
  ∀ value, let run := fromHexWrites hex hexLen (hexLen.toNat + 1) 0 value
    (∀ w ∈ run.1, w.1 < strLen.toNat) ∧ run.2 ≠ some .overflow

theorem scanItem_error {c : UInt8} {rest : List UInt8} {e : Fault}
    (h : scanItem c rest = .error e) : e = .outOfBounds := by
  unfold scanItem at h
  split at h
  · cases h
    rfl
  · split at h
    · cases h
      rfl
    · cases h
  · split at h
    · cases h
    · split at h <;> cases h
  · split at h
    · split at h
      · cases h
      · split at h <;> cases h
    · cases h

theorem scan02x_error {text : List UInt8} {e : Fault} (h : scan02x text = .error e) :
    e = .outOfBounds := by
  unfold scan02x at h
  split at h
  · cases h
    rfl
  · exact scanItem_error h

/-- Whatever the text is, an octet is written only for a character below `hexLen`. -/
theorem fromHexWrites_bounds (hex : List UInt8) (hmax : hexLen.toNat + 1 ≤ intMax) : ∀ (n i : Nat)
    (value : UInt32),
    (∀ w ∈ (fromHexWrites hex hexLen n i value).1, 2 * w.1 < hexLen.toNat) ∧
      (fromHexWrites hex hexLen n i value).2 ≠ some .overflow
  | 0, _, _ => ⟨fun _ hw => absurd hw List.not_mem_nil, fun h => by cases h⟩
  | n + 1, i, value => by
    rw [fromHexWrites]
    by_cases hlt : i < hexLen.toNat
    · rw [if_pos hlt]
      cases hscan : scan02x (hex.drop i) with
      | error e =>
        refine ⟨fun _ hw => absurd hw List.not_mem_nil, ?_⟩
        rw [scan02x_error hscan]
        exact fun h => by cases h
      | ok scanned =>
        dsimp only
        obtain ⟨hrest, hfault⟩ := fromHexWrites_bounds hex hmax n (i + 2) (scanned.getD value)
        rw [addInt_of_le (by omega)]
        refine ⟨fun w hw => ?_, hfault⟩
        rcases List.mem_cons.1 hw with rfl | hw
        · change 2 * (i / 2) < _
          omega
        · exact hrest w hw
    · rw [if_neg hlt]
      exact ⟨fun _ hw => absurd hw List.not_mem_nil, fun h => by cases h⟩

/-- A text of zeros, which is read to its end. -/
theorem fromHexWrites_zeros (hexLen : UInt32) : ∀ (n i : Nat) (value : UInt32),
    i % 2 = 0 → i ≤ intMax →
    hexLen.toNat - i < n →
    (∀ k, i ≤ 2 * k → 2 * k < hexLen.toNat → 2 * k ≤ intMax →
      (k, 0) ∈ (fromHexWrites (List.replicate (hexLen.toNat + 1) 48) hexLen n i value).1) ∧
    (intMax ≤ hexLen.toNat →
      (fromHexWrites (List.replicate (hexLen.toNat + 1) 48) hexLen n i value).2 = some .overflow)
  | 0, _, _, _, _, hfuel => absurd hfuel (Nat.not_lt_zero _)
  | n + 1, i, value, heven, hmax, hfuel => by
    rw [fromHexWrites]
    by_cases hlt : i < hexLen.toNat
    · obtain ⟨m, hm⟩ : ∃ m, hexLen.toNat + 1 - i = m + 1 + 1 :=
        ⟨hexLen.toNat - 1 - i, by omega⟩
      have hscan : scan02x ((List.replicate (hexLen.toNat + 1) 48).drop i) = .ok (some 0) := by
        rw [List.drop_replicate, hm, List.replicate_succ, List.replicate_succ]
        rfl
      rw [if_pos hlt, hscan]
      dsimp only [Option.getD_some]
      rcases Nat.lt_or_ge intMax (i + 2) with hover | hle
      · rw [addInt_overflow hover]
        refine ⟨fun k hk hk' hk'' => ?_, fun _ => rfl⟩
        have hki : k = i / 2 := by
          unfold intMax at *
          omega
        rw [hki]
        exact List.mem_cons_self
      · rw [addInt_of_le hle]
        obtain ⟨hrest, hfault⟩ :=
          fromHexWrites_zeros hexLen n (i + 2) 0 (by omega) hle (by omega)
        refine ⟨fun k hk hk' hk'' => ?_, fun hge => hfault hge⟩
        rcases Nat.lt_or_ge (2 * k) (i + 2) with hk2 | hk2
        · have hki : k = i / 2 := by omega
          rw [hki]
          exact List.mem_cons_self
        · exact List.mem_cons_of_mem _ (hrest k hk2 hk' hk'')
    · rw [if_neg hlt]
      refine ⟨fun k hk hk' => ?_, fun hge => ?_⟩
      · omega
      · have hii : i = intMax := by omega
        rw [hii] at heven
        exact absurd heven (by decide)

/-- For all lengths, those that pass the guard among them: whatever the text is, the output stays
inside of its `str_len` bytes if and only if there are no more than 2 `str_len` characters, and few
enough for an `int` index. The guard asks for no fewer than 2 `str_len`, which is neither. -/
theorem fromHex_inBounds_iff (hexLen strLen : UInt32) :
    (∀ hex : List UInt8, hexLen.toNat ≤ hex.length → FromHexInBounds hex hexLen strLen) ↔
      hexLen.toNat ≤ 2 * strLen.toNat ∧ hexLen.toNat ≤ 2147483646 := by
  constructor
  · intro hall
    obtain ⟨hin, hfault⟩ := hall (List.replicate (hexLen.toNat + 1) 48)
      (by rw [List.length_replicate]; omega) 0
    obtain ⟨hmem, hover⟩ := fromHexWrites_zeros hexLen (hexLen.toNat + 1) 0 0 rfl
      (Nat.zero_le _) (by omega)
    have hmax : hexLen.toNat ≤ 2147483646 := by
      refine Nat.le_of_not_lt fun hlt => hfault (hover ?_)
      unfold intMax
      omega
    refine ⟨Nat.le_of_not_lt fun hlt => ?_, hmax⟩
    have hw := hin _ (hmem strLen.toNat (Nat.zero_le _) hlt (by unfold intMax; omega))
    exact Nat.lt_irrefl _ hw
  · rintro ⟨hdouble, hmax⟩ hex - value
    have hmax' : hexLen.toNat + 1 ≤ intMax := by
      unfold intMax
      omega
    obtain ⟨hin, hfault⟩ := fromHexWrites_bounds hex hmax' (hexLen.toNat + 1) 0 value
    refine ⟨fun w hw => ?_, hfault⟩
    have hw := hin w hw
    omega

/-- Four digits for a buffer of one byte pass the guard, and the second byte goes behind it. -/
theorem fromHex_overruns : (1 : UInt32) * 2 ≤ 4 ∧ ¬ FromHexInBounds [48, 48, 48, 48, 0] 4 1 ∧
    ∀ value, skyStrFromHex value (some [48, 48, 48, 48, 0]) 4 (some [0]) 1 =
      .error .outOfBounds := by
  refine ⟨by decide, fun hin => ?_, fun _ => rfl⟩
  have hrun : (1, 0) ∈ (fromHexWrites [48, 48, 48, 48, 0] 4 5 0 0).1 := by decide
  exact Nat.lt_irrefl 1 ((hin 0).1 _ hrun)

end Sky.Str
