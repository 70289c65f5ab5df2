import SkySdk.Base64.Spec

/-!
# The decoder

The decoding table gives each character its value (`skyBase64Init_decodes`), a round of the decoding
loop turns four characters into three octets, of which it writes as many as there is room for, and
the loop writes the first octets of `decodeGroups` (`decodeLoop_eq`), whatever the characters are.
-/

set_option autoImplicit false

namespace Sky.Base64

open Base

variable {table data out done zs : List UInt8} {inputLength outputLength : UInt32} {i j n : Nat}

/-! ## The decoding table -/

/-- The table gives the characters of `cs` their index, and every other one 0. -/
def Decodes (cs table : List UInt8) : Prop :=
  table.length = 256 ∧ ∀ c : UInt8,
    table[c.toNat]? = some (if c ∈ cs then .ofNat (base64EncodingTable.idxOf c) else 0)

theorem initFrom_decodes : ∀ (n i : Nat) (table : List UInt8),
    i + n = base64EncodingTable.length → Decodes (base64EncodingTable.take i) table →
    ∃ table', initFrom i n table = .ok table' ∧ Decodes base64EncodingTable table'
  | 0, i, table, hi, ht => by
    rw [List.take_of_length_le (by omega)] at ht
    exact ⟨table, rfl, ht⟩
  | n + 1, i, table, hi, ⟨hlen, ht⟩ => by
    have hlt : i < base64EncodingTable.length := by omega
    obtain ⟨c, hc⟩ : ∃ c, base64EncodingTable[i] = c := ⟨_, rfl⟩
    have hget : base64EncodingTable[i]? = some c := by
      rw [List.getElem?_eq_getElem hlt, hc]
    have hidx : base64EncodingTable.idxOf c = i := by
      rw [← hc]
      exact nodup_table.idxOf_getElem i hlt
    have hcn : c.toNat < table.length := by
      rw [hlen]
      exact c.toNat_lt
    have hstep : Decodes (base64EncodingTable.take (i + 1)) (table.set c.toNat (.ofNat i)) := by
      refine ⟨by rw [List.length_set, hlen], fun d => ?_⟩
      rw [List.take_succ_eq_append_getElem hlt, hc]
      by_cases hd : d = c
      · subst hd
        rw [List.getElem?_set_self hcn, if_pos (by simp), hidx]
      · have hne : c.toNat ≠ d.toNat := fun he => hd (UInt8.toNat_inj.1 he.symm)
        rw [List.getElem?_set_ne hne, ht d]
        simp [hd]
    obtain ⟨table', hinit, ht'⟩ := initFrom_decodes n (i + 1) _ (by omega) hstep
    refine ⟨table', ?_, ht'⟩
    rw [initFrom, readAt_of_get? hget, ok_bind, writeAt, if_pos hcn, ok_bind, hinit]

/-- `sky_base64_init` returns, and the table gives every character its value. -/
theorem skyBase64Init_decodes :
    ∃ table, skyBase64Init = .ok table ∧ Decodes base64EncodingTable table := by
  refine initFrom_decodes 64 0 _ rfl ⟨List.length_replicate, fun c => ?_⟩
  rw [List.take_zero, if_neg List.not_mem_nil, List.getElem?_replicate, if_pos c.toNat_lt]

theorem Decodes.value (ht : Decodes base64EncodingTable table) (c : UInt8) :
    ∃ v : UInt8, table[c.toNat]? = some v ∧ v.toNat = valueOf c := by
  have hlt := valueOf_lt c
  refine ⟨_, ht.2 c, ?_⟩
  unfold valueOf at hlt ⊢
  split
  · rw [if_pos ‹_›] at hlt
    exact UInt8.toNat_ofNat_of_lt' (by
      change _ < 2 ^ 8
      omega)
  · rfl

/-! ## The decoding loop -/

theorem nextSextet_eq (ht : Decodes base64EncodingTable table) {c : UInt8}
    (hc : data[i]? = some c) (hmax : i < intMax) :
    ∃ v : UInt32, nextSextet table data i = .ok (v, i + 1) ∧ v.toNat = valueOf c := by
  rw [nextSextet, readAt_of_get? hc, ok_bind, succInt_of_lt hmax]
  by_cases hp : c = padChar
  · rw [if_pos hp, hp, valueOf_padChar]
    exact ⟨0, rfl, rfl⟩
  · obtain ⟨v, hv, hval⟩ := ht.value c
    rw [if_neg hp, readAt_of_get? hv]
    exact ⟨v.toUInt32, rfl, by rw [UInt8.toNat_toUInt32, hval]⟩

theorem sextets_toNat {a b c d : UInt32} (ha : a.toNat < 64) (hb : b.toNat < 64)
    (hc : c.toNat < 64) (hd : d.toNat < 64) :
    ((a <<< (3 * 6)) + (b <<< (2 * 6)) + (c <<< (1 * 6)) + (d <<< (0 * 6))).toNat =
      ofSextets a.toNat b.toNat c.toNat d.toNat := by
  simp only [UInt32.toNat_add, UInt32.toNat_shiftLeft, Nat.shiftLeft_eq]
  unfold ofSextets
  simp
  omega

theorem octet_eq {t s : UInt32} {k : Nat} (hs : s.toNat % 32 = 8 * k) :
    ((t >>> s) &&& 0xFF).toUInt8 = octetOf t.toNat k := by
  have hand := Nat.and_two_pow_sub_one_eq_mod (t.toNat / 2 ^ (8 * k)) 8
  apply UInt8.toNat_inj.1
  rw [UInt32.toNat_toUInt8, UInt32.toNat_and, UInt32.toNat_shiftRight, hs, octetOf,
    Nat.shiftRight_eq_div_pow, UInt8.toNat_ofNat']
  exact congrArg (· % 2 ^ 8) hand

theorem putOctet_eq {t s : UInt32} {k : Nat} (hs : s.toNat % 32 = 8 * k)
    (hlen : outputLength.toNat = done.length + zs.length) (hmax : outputLength.toNat ≤ intMax) :
    ∃ done', done' = done ++ [octetOf t.toNat k].take zs.length ∧
      putOctet outputLength (done ++ zs) done.length (t >>> s) =
        .ok (done' ++ zs.drop 1, done'.length) := by
  refine ⟨_, rfl, ?_⟩
  cases zs with
  | nil =>
    rw [putOctet, if_neg (by rw [hlen]; simp)]
    simp
    rfl
  | cons z zs =>
    rw [List.length_cons] at hlen
    rw [putOctet, if_pos (by omega), octet_eq hs, writeAt_append, ok_bind,
      succInt_of_lt (by omega), ok_bind]
    simp
    rfl

/-- The end of a round, once the sextets are read. -/
theorem putOctets_eq {β : Type} (t : UInt32) (k : List UInt8 → Nat → Except Fault β)
    (hlen : outputLength.toNat = done.length + zs.length) (hmax : outputLength.toNat ≤ intMax) :
    ∃ done', done' = done ++ [octetOf t.toNat 2, octetOf t.toNat 1, octetOf t.toNat 0].take
        zs.length ∧
      (do
        let (out, j) ← putOctet outputLength (done ++ zs) done.length (t >>> (2 * 8))
        let (out, j) ← putOctet outputLength out j (t >>> (1 * 8))
        let (out, j) ← putOctet outputLength out j (t >>> (0 * 8))
        k out j) = k (done' ++ zs.drop 3) done'.length := by
  have h2 : (2 * 8 : UInt32).toNat % 32 = 8 * 2 := rfl
  have h1 : (1 * 8 : UInt32).toNat % 32 = 8 * 1 := rfl
  have h0 : (0 * 8 : UInt32).toNat % 32 = 8 * 0 := rfl
  have htake : ∀ (x : UInt8) (zs : List UInt8),
      ([x].take zs.length).length + (zs.drop 1).length = zs.length := by
    intro x zs
    cases zs with
    | nil => rfl
    | cons z zs =>
      simp
      omega
  obtain ⟨done2, hd2, hp2⟩ := putOctet_eq (t := t) h2 hlen hmax
  have hlen2 : outputLength.toNat = done2.length + (zs.drop 1).length := by
    rw [hd2, List.length_append, Nat.add_assoc, htake, hlen]
  obtain ⟨done1, hd1, hp1⟩ := putOctet_eq (t := t) h1 hlen2 hmax
  have hlen1 : outputLength.toNat = done1.length + ((zs.drop 1).drop 1).length := by
    rw [hd1, List.length_append, Nat.add_assoc, htake, hlen2]
  obtain ⟨done0, hd0, hp0⟩ := putOctet_eq (t := t) h0 hlen1 hmax
  refine ⟨done0, ?_, ?_⟩
  · rw [hd0, hd1, hd2]
    match zs with
    | [] | [_] | [_, _] | _ :: _ :: _ :: _ => simp
  · rw [hp2, ok_bind]
    dsimp only
    rw [hp1, ok_bind]
    dsimp only
    rw [hp0, ok_bind, List.drop_drop, List.drop_drop]

theorem decodeLoop_round (ht : Decodes base64EncodingTable table) {a b c d : UInt8}
    {rest : List UInt8} (hd : data.drop i = a :: b :: c :: d :: rest)
    (hn : inputLength.toNat = data.length) (hmax : data.length ≤ intMax)
    (hlen : outputLength.toNat = done.length + zs.length) (homax : outputLength.toNat ≤ intMax) :
    ∃ done', done' = done ++ (decodeGroups [a, b, c, d]).take zs.length ∧
      decodeLoop table data inputLength outputLength (n + 1) i done.length (done ++ zs) =
        decodeLoop table data inputLength outputLength n (i + 4) done'.length
          (done' ++ zs.drop 3) := by
  have hrest := congrArg List.length hd
  rw [List.length_drop] at hrest
  simp only [List.length_cons] at hrest
  have hget : ∀ k, data[i + k]? = (a :: b :: c :: d :: rest)[k]? := by
    intro k
    rw [← hd, List.getElem?_drop]
  obtain ⟨va, hva, ha⟩ := nextSextet_eq ht (hget 0) (by omega)
  obtain ⟨vb, hvb, hb⟩ := nextSextet_eq ht (hget 1) (by omega)
  obtain ⟨vc, hvc, hc⟩ := nextSextet_eq ht (hget 2) (by omega)
  obtain ⟨vd, hvd, hd⟩ := nextSextet_eq ht (hget 3) (by omega)
  have htriple := sextets_toNat (ha ▸ valueOf_lt a) (hb ▸ valueOf_lt b) (hc ▸ valueOf_lt c)
    (hd ▸ valueOf_lt d)
  obtain ⟨done', hdone, hputs⟩ := putOctets_eq
    ((va <<< (3 * 6)) + (vb <<< (2 * 6)) + (vc <<< (1 * 6)) + (vd <<< (0 * 6)))
    (fun out j => decodeLoop table data inputLength outputLength n (i + 4) j out) hlen homax
  refine ⟨done', ?_, ?_⟩
  · rw [hdone, htriple, ha, hb, hc, hd]
    rfl
  · rw [decodeLoop, if_pos (by omega)]
    rw [Nat.add_zero] at hva
    rw [hva, ok_bind]
    dsimp only
    rw [hvb, ok_bind]
    dsimp only
    rw [hvc, ok_bind]
    dsimp only
    rw [hvd, ok_bind]
    exact hputs

theorem length_decodeGroups (cs : List UInt8) :
    (decodeGroups cs).length = 3 * (cs.length / 4) := by
  induction cs using decodeGroups.induct with
  | case1 a b c d cs ih =>
    simp only [decodeGroups, List.length_append, List.length_cons, List.length_nil, ih]
    omega
  | case2 cs hcs =>
    rw [decodeGroups.eq_2 cs hcs, Nat.div_eq_of_lt (length_lt_four cs hcs)]
    rfl

/-- The rounds from `i` on write the groups from there on, as far as there is room. -/
theorem decodeLoop_eq (ht : Decodes base64EncodingTable table)
    (hn : inputLength.toNat = data.length) (hmax : data.length ≤ intMax)
    (homax : outputLength.toNat ≤ intMax) :
    ∀ (n i : Nat) (done zs : List UInt8), (data.length - i) % 4 = 0 → data.length - i < n →
      outputLength.toNat = done.length + zs.length →
      zs.length ≤ (decodeGroups (data.drop i)).length →
      decodeLoop table data inputLength outputLength n i done.length (done ++ zs) =
        .ok (done ++ (decodeGroups (data.drop i)).take zs.length)
  | 0, _, _, _, _, hfuel, _, _ => absurd hfuel (Nat.not_lt_zero _)
  | n + 1, i, done, zs, h4, hfuel, hlen, hz => by
    have hdrop : (data.drop i).length = data.length - i := List.length_drop
    match hd : data.drop i with
    | [] =>
      rw [hd] at hz hdrop
      have hz : zs = [] := List.length_eq_zero_iff.1 (Nat.le_zero.1 hz)
      have hi : data.length ≤ i := Nat.le_of_sub_eq_zero hdrop.symm
      rw [decodeLoop, if_neg (by omega), hz]
      simp
    | [_] | [_, _] | [_, _, _] =>
      rw [hd] at hdrop
      simp only [List.length_cons, List.length_nil] at hdrop
      omega
    | a :: b :: c :: d :: rest =>
      have hrest : data.drop (i + 4) = rest := by
        rw [← List.drop_drop, hd]
        rfl
      have hgroup : decodeGroups (a :: b :: c :: d :: rest) =
          decodeGroups [a, b, c, d] ++ decodeGroups rest := rfl
      have hthree : (decodeGroups [a, b, c, d]).length = 3 := rfl
      rw [hd] at hz hdrop
      rw [hgroup, List.length_append, hthree] at hz
      simp only [List.length_cons] at hdrop
      obtain ⟨done', hdone, hround⟩ := decodeLoop_round (n := n) ht hd hn hmax hlen homax
      have hdone' : done'.length = done.length + min zs.length 3 := by
        rw [hdone, List.length_append, List.length_take, hthree]
      have hzs : (zs.drop 3).length = zs.length - 3 := List.length_drop
      have ih := decodeLoop_eq ht hn hmax homax n (i + 4) done' (zs.drop 3) (by omega) (by omega)
        (by omega) (by rw [hrest]; omega)
      rw [hround, ih, hrest, hdone, hzs, hgroup, List.append_assoc, List.take_append, hthree]

/-! ## The decoder -/

def padAt (data : List UInt8) (i : Nat) : Nat := if data[i]? = some padChar then 1 else 0

/-- Three octets for four characters, less one for each of the last two that is `=`. -/
def decodedLength (data : List UInt8) : Nat :=
  data.length / 4 * 3 - padAt data (data.length - 1) - padAt data (data.length - 2)

theorem padAt_le (data : List UInt8) (i : Nat) : padAt data i ≤ 1 := by
  unfold padAt
  split <;> omega

theorem toNat_sub_pad {w : UInt32} {c : UInt8} (hc : data[i]? = some c) (hw : 1 ≤ w.toNat) :
    (if c = padChar then w - 1 else w).toNat = w.toNat - padAt data i := by
  have h1 : (w - 1).toNat = w.toNat - 1 := UInt32.toNat_sub_of_le _ _ hw
  unfold padAt
  rw [hc]
  by_cases hp : c = padChar
  · rw [if_pos hp, if_pos (congrArg some hp), h1]
  · rw [if_neg hp, if_neg (fun he => hp (Option.some.inj he))]
    rfl

/-- What the guards let through: the length that is reported, and the loop if the buffer is
granted. -/
theorem skyBase64Decode_guarded {n : UInt32} (hlen : data.length = n.toNat) (hne : n ≠ 0)
    (h4 : n % 4 = 0) : ∃ m : UInt32, m.toNat = decodedLength data ∧ ∀ granted table o,
      skyBase64Decode granted table data n (some o) =
        if granted = true then do
          let out ← decodeLoop table data n m (n.toNat + 1) 0 0 (List.replicate m.toNat 0)
          pure (some out, some m)
        else .ok (none, some m) := by
  have hmod : n.toNat % 4 = 0 := by
    have hmod := congrArg UInt32.toNat h4
    rwa [UInt32.toNat_mod] at hmod
  have hpos : 4 ≤ n.toNat := by
    have h0 : n.toNat ≠ 0 := fun h0 => hne (UInt32.toNat_inj.1 h0)
    omega
  have hlt := n.toNat_lt
  -- the two characters that are looked at
  have h1 : (n - 1).toNat = data.length - 1 := by
    have hle : 1 ≤ n.toNat := by omega
    rw [UInt32.toNat_sub_of_le _ _ hle, hlen]
    rfl
  have h2 : (n - 2).toNat = data.length - 2 := by
    have hle : 2 ≤ n.toNat := by omega
    rw [UInt32.toNat_sub_of_le _ _ hle, hlen]
    rfl
  obtain ⟨c1, hc1⟩ : ∃ c, data[data.length - 1]? = some c :=
    ⟨_, List.getElem?_eq_getElem (by omega)⟩
  obtain ⟨c2, hc2⟩ : ∃ c, data[data.length - 2]? = some c :=
    ⟨_, List.getElem?_eq_getElem (by omega)⟩
  -- the length that is left
  have hfull : (n / 4 * 3).toNat = data.length / 4 * 3 := by
    have hmul : data.length / 4 * 3 % 2 ^ 32 = data.length / 4 * 3 := Nat.mod_eq_of_lt (by omega)
    simp only [UInt32.toNat_mul, UInt32.toNat_div, ← hlen, UInt32.reduceToNat, hmul]
  have hp1 := padAt_le data (data.length - 1)
  have hn1 := toNat_sub_pad (w := n / 4 * 3) hc1 (by omega)
  have hn2 := toNat_sub_pad hc2 (Nat.le_trans (by omega) (Nat.le_of_eq hn1.symm))
  rw [hn1, hfull] at hn2
  refine ⟨_, hn2, fun granted table o => ?_⟩
  simp only [skyBase64Decode]
  rw [if_pos h4.symm, h1, readAt_of_get? hc1, ok_bind, h2, readAt_of_get? hc2, ok_bind]
  rfl

theorem decodedLength_le (data : List UInt8) : decodedLength data ≤ data.length / 4 * 3 := by
  unfold decodedLength
  omega

/-- The decoder gives the first octets of the groups, whatever the characters are. -/
theorem skyBase64Decode_eq (ht : Decodes base64EncodingTable table) (o : UInt32)
    (hne : data ≠ []) (h4 : data.length % 4 = 0) (hmax : data.length < 2 ^ 31) :
    ∃ n : UInt32, n.toNat = decodedLength data ∧
      skyBase64Decode true table data (.ofNat data.length) (some o) =
        .ok (some ((decodeGroups data).take (decodedLength data)), some n) := by
  have hpos := List.length_pos_iff.2 hne
  have hin : (UInt32.ofNat data.length).toNat = data.length := toNat_ofNat_of_lt (by omega)
  have hne' : UInt32.ofNat data.length ≠ 0 := by
    intro h0
    rw [h0] at hin
    exact absurd hin (Nat.ne_of_lt hpos)
  have h4' : UInt32.ofNat data.length % 4 = 0 := by
    apply UInt32.toNat_inj.1
    rw [UInt32.toNat_mod, hin]
    exact h4
  obtain ⟨n, hn, hdec⟩ := skyBase64Decode_guarded hin.symm hne' h4'
  have hle := decodedLength_le data
  have hgroups := length_decodeGroups data
  have hloop := decodeLoop_eq ht hin (by unfold intMax; omega)
    (by rw [hn]; unfold intMax; omega) (data.length + 1) 0 []
    (List.replicate (decodedLength data) 0) h4 (by omega)
    (by rw [hn, List.length_replicate, List.length_nil, Nat.zero_add])
    (by rw [List.length_replicate, List.drop_zero, hgroups]; omega)
  rw [List.nil_append, List.nil_append, List.drop_zero, List.length_nil,
    List.length_replicate] at hloop
  refine ⟨n, hn, ?_⟩
  rw [hdec, if_pos rfl, hin, hn, hloop]
  rfl

/-! ## The length of what was encoded -/

theorem decodedLength_append {cs ds : List UInt8} (hc : cs.length = 4) (hd : 4 ≤ ds.length) :
    decodedLength (cs ++ ds) = 3 + decodedLength ds := by
  have hpad : ∀ k, k ≤ 4 → padAt (cs ++ ds) (4 + ds.length - k) = padAt ds (ds.length - k) := by
    intro k hk
    have hk' : 4 + ds.length - k - cs.length = ds.length - k := by omega
    unfold padAt
    rw [List.getElem?_append_right (by omega), hk']
  have h1 := padAt_le ds (ds.length - 1)
  have h2 := padAt_le ds (ds.length - 2)
  unfold decodedLength
  rw [List.length_append, hc, hpad 1 (by omega), hpad 2 (by omega)]
  omega

theorem padAt_charOf {cs : List UInt8} {s : Nat} (h : cs[i]? = some (charOf s)) :
    padAt cs i = 0 := by
  unfold padAt
  rw [h, if_neg (fun he => charOf_ne_padChar s (Option.some.inj he))]

/-- The last two characters tell how many octets are missing. -/
theorem decodedLength_encodeGroups (xs : List UInt8) (hne : xs ≠ []) :
    decodedLength (encodeGroups xs) = xs.length := by
  induction xs using encodeGroups.induct with
  | case1 => exact absurd rfl hne
  | case2 a => simp [decodedLength, padAt, encodeGroups, quad]
  | case3 a b =>
    have h2 : padAt (encodeGroups [a, b]) 2 = 0 := padAt_charOf rfl
    change 4 / 4 * 3 - 1 - padAt (encodeGroups [a, b]) 2 = 2
    rw [h2]
  | case4 a b c xs ih =>
    rw [encodeGroups]
    cases xs with
    | nil =>
      have h3 : padAt (quad (ofOctets a b c) ++ encodeGroups []) 3 = 0 := padAt_charOf rfl
      have h2 : padAt (quad (ofOctets a b c) ++ encodeGroups []) 2 = 0 := padAt_charOf rfl
      change 4 / 4 * 3 - padAt _ 3 - padAt _ 2 = 3
      rw [h3, h2]
    | cons x xs =>
      have hlen := length_encodeGroups (x :: xs)
      rw [List.length_cons] at hlen
      rw [decodedLength_append (length_quad _) (by omega), ih (List.cons_ne_nil x xs)]
      exact Nat.add_comm _ _

end Sky.Base64
