import SkySdk.Base64.Defs

/-!
# The rounds of the loops

`decodeRounds` is the loop of `sky_base64_decode` with its writes put on record instead of carried
out: of each round, the index `i` before and after it, and the indices and octets it writes.
Carrying the writes out one after the other gives what the loop gives (`decodeLoop_eq_writeAll`).
`encodeRecord` is the same of `sky_base64_encode`, the length it reports and the writes of both its
loops; `skyBase64Encode_ok_iff` says what it has to do with the function.
-/

set_option autoImplicit false

namespace Sky.Base64

open Base

structure Round where
  start : Nat
  stop : Nat
  writes : List (Nat × UInt8)

/-- `if ( j < *output_length ) decoded_data[ j++ ] = octet & 0xFF`, on record. -/
def recordOctet (outputLength : UInt32) (j : Nat) (octet : UInt32) :
    Except Fault (List (Nat × UInt8) × Nat) :=
  if j < outputLength.toNat then do
    pure ([(j, (octet &&& 0xFF).toUInt8)], ← succInt j)
  else pure ([], j)

/-- The rounds of the decoding loop, of which at most the given number are run. -/
def decodeRounds (table data : List UInt8) (inputLength outputLength : UInt32) :
    Nat → Nat → Nat → Except Fault (List Round)
  | 0, _, _ => .error .endless
  | n + 1, i, j =>
    if i < inputLength.toNat then do
      let (sextetA, i1) ← nextSextet table data i
      let (sextetB, i2) ← nextSextet table data i1
      let (sextetC, i3) ← nextSextet table data i2
      let (sextetD, i4) ← nextSextet table data i3
      let triple := (sextetA <<< (3 * 6)) + (sextetB <<< (2 * 6)) + (sextetC <<< (1 * 6)) +
        (sextetD <<< (0 * 6))
      let (ws2, j) ← recordOctet outputLength j (triple >>> (2 * 8))
      let (ws1, j) ← recordOctet outputLength j (triple >>> (1 * 8))
      let (ws0, j) ← recordOctet outputLength j (triple >>> (0 * 8))
      let rounds ← decodeRounds table data inputLength outputLength n i4 j
      pure ({ start := i, stop := i4, writes := ws2 ++ (ws1 ++ ws0) } :: rounds)
    else .ok []

/-- `encoded_data[ j++ ] = base64_encoding_table[ sextet & 0x3F ]`, on record. -/
def recordSextet (j : Nat) (sextet : UInt32) : Except Fault ((Nat × UInt8) × Nat) := do
  let c ← readAt base64EncodingTable (sextet &&& 0x3F).toNat
  pure ((j, c), ← succInt j)

/-- The writes of the encoding loop, of which at most the given number of rounds are run. -/
def encodeWrites (data : List UInt8) (inputLength : UInt32) :
    Nat → Nat → Nat → Except Fault (List (Nat × UInt8))
  | 0, _, _ => .error .endless
  | n + 1, i, j =>
    if i < inputLength.toNat then do
      let (octetA, i) ← nextOctet data inputLength i
      let (octetB, i) ← nextOctet data inputLength i
      let (octetC, i) ← nextOctet data inputLength i
      let triple := (octetA <<< 0x10) + (octetB <<< 0x08) + octetC
      let (w3, j) ← recordSextet j (triple >>> (3 * 6))
      let (w2, j) ← recordSextet j (triple >>> (2 * 6))
      let (w1, j) ← recordSextet j (triple >>> (1 * 6))
      let (w0, j) ← recordSextet j (triple >>> (0 * 6))
      let ws ← encodeWrites data inputLength n i j
      pure (w3 :: w2 :: w1 :: w0 :: ws)
    else .ok []

/-- The writes of the padding loop from `i` on. -/
def padWrites (outputLength : UInt32) (i : Nat) : Nat → List (Nat × UInt8)
  | 0 => []
  | n + 1 => ((outputLength - 1 - .ofNat i).toNat, padChar) :: padWrites outputLength (i + 1) n

/-- What `sky_base64_encode` puts into `*output_length`, and its writes. -/
def encodeRecord (data : List UInt8) (inputLength : UInt32) :
    Except Fault (UInt32 × List (Nat × UInt8)) := do
  let outputLength := 4 * ((inputLength + 2) / 3)
  let ws ← encodeWrites data inputLength (inputLength.toNat + 1) 0 0
  let pads ← readAt base64ModTable (inputLength % 3).toNat
  pure (outputLength, ws ++ padWrites outputLength 0 pads)

/-- The writes one after the other. -/
def writeAll (out : List UInt8) : List (Nat × UInt8) → Except Fault (List UInt8)
  | [] => .ok out
  | (j, x) :: ws => do writeAll (← writeAt out j x) ws

variable {table data : List UInt8} {inputLength outputLength : UInt32} {n i j : Nat}

theorem writeAll_append (out : List UInt8) (ws ws' : List (Nat × UInt8)) :
    writeAll out (ws ++ ws') = (writeAll out ws >>= fun out => writeAll out ws') := by
  induction ws generalizing out with
  | nil => rfl
  | cons w ws ih =>
    obtain ⟨j, x⟩ := w
    rw [List.cons_append, writeAll, writeAll]
    cases writeAt out j x with
    | error e => rfl
    | ok out => exact ih out

/-- The write of an octet is the one on record. -/
theorem putOctet_eq_writeAll {octet : UInt32} {ws : List (Nat × UInt8)} {j' : Nat}
    (hw : recordOctet outputLength j octet = .ok (ws, j')) (out : List UInt8) :
    putOctet outputLength out j octet = (do let out ← writeAll out ws; pure (out, j')) := by
  unfold recordOctet at hw
  unfold putOctet
  split at hw
  · rename_i hlt
    obtain ⟨k, hk, hw⟩ := bind_ok hw
    cases hw
    rw [if_pos hlt, hk, writeAll]
    cases writeAt out j (octet &&& 0xFF).toUInt8 <;> rfl
  · rename_i hge
    cases hw
    rw [if_neg hge]
    rfl

/-- The loop carries out the writes on record. -/
theorem decodeLoop_eq_writeAll : ∀ (n i j : Nat) (out : List UInt8) (rounds : List Round),
    decodeRounds table data inputLength outputLength n i j = .ok rounds →
    decodeLoop table data inputLength outputLength n i j out =
      writeAll out (rounds.flatMap Round.writes)
  | 0, _, _, _, _, hr => by cases hr
  | n + 1, i, j, out, rounds, hr => by
    unfold decodeRounds at hr
    rw [decodeLoop]
    split at hr
    · rename_i hlt
      obtain ⟨⟨a, i1⟩, ha, hr⟩ := bind_ok hr
      obtain ⟨⟨b, i2⟩, hb, hr⟩ := bind_ok hr
      obtain ⟨⟨c, i3⟩, hc, hr⟩ := bind_ok hr
      obtain ⟨⟨d, i4⟩, hd, hr⟩ := bind_ok hr
      obtain ⟨⟨ws2, j2⟩, h2, hr⟩ := bind_ok hr
      obtain ⟨⟨ws1, j1⟩, h1, hr⟩ := bind_ok hr
      obtain ⟨⟨ws0, j0⟩, h0, hr⟩ := bind_ok hr
      obtain ⟨rest, hrest, hr⟩ := bind_ok hr
      cases hr
      have ih := fun out => decodeLoop_eq_writeAll n i4 j0 out rest hrest
      rw [if_pos hlt]
      simp only [ha, hb, hc, hd, ok_bind, putOctet_eq_writeAll h2, putOctet_eq_writeAll h1,
        putOctet_eq_writeAll h0, bind_assoc, pure_bind, ih, List.flatMap_cons, writeAll_append]
    · rename_i hge
      cases hr
      rw [if_neg hge]
      rfl

/-! ## The encoder -/

/-- A character is written if and only if it can be put on record and its index is there. -/
theorem putSextet_ok_iff {out out' : List UInt8} {sextet : UInt32} {j' : Nat} :
    putSextet out j sextet = .ok (out', j') ↔
      ∃ w, recordSextet j sextet = .ok (w, j') ∧ writeAt out w.1 w.2 = .ok out' := by
  unfold putSextet recordSextet
  constructor
  · intro h
    obtain ⟨c, hc, h⟩ := bind_ok h
    obtain ⟨out1, hout, h⟩ := bind_ok h
    obtain ⟨k, hk, h⟩ := bind_ok h
    cases h
    exact ⟨(j, c), by rw [hc, ok_bind, hk]; rfl, hout⟩
  · rintro ⟨w, h, hout⟩
    obtain ⟨c, hc, h⟩ := bind_ok h
    obtain ⟨k, hk, h⟩ := bind_ok h
    cases h
    rw [hc, ok_bind, hout, ok_bind, hk]
    rfl

/-- The loop ends if and only if its writes can be put on record and carried out. -/
theorem encodeLoop_ok_iff : ∀ (n i j : Nat) (out out' : List UInt8),
    encodeLoop data inputLength n i j out = .ok out' ↔
      ∃ ws, encodeWrites data inputLength n i j = .ok ws ∧ writeAll out ws = .ok out'
  | 0, _, _, _, _ => by
    refine iff_of_false nofun ?_
    rintro ⟨ws, h, -⟩
    cases h
  | n + 1, i, j, out, out' => by
    rw [encodeLoop, encodeWrites]
    by_cases hlt : i < inputLength.toNat
    · rw [if_pos hlt, if_pos hlt]
      constructor
      · intro h
        obtain ⟨⟨a, i1⟩, ha, h⟩ := bind_ok h
        obtain ⟨⟨b, i2⟩, hb, h⟩ := bind_ok h
        obtain ⟨⟨c, i3⟩, hc, h⟩ := bind_ok h
        obtain ⟨⟨out3, j3⟩, h3, h⟩ := bind_ok h
        obtain ⟨⟨out2, j2⟩, h2, h⟩ := bind_ok h
        obtain ⟨⟨out1, j1⟩, h1, h⟩ := bind_ok h
        obtain ⟨⟨out0, j0⟩, h0, h⟩ := bind_ok h
        obtain ⟨w3, hr3, hw3⟩ := putSextet_ok_iff.1 h3
        obtain ⟨w2, hr2, hw2⟩ := putSextet_ok_iff.1 h2
        obtain ⟨w1, hr1, hw1⟩ := putSextet_ok_iff.1 h1
        obtain ⟨w0, hr0, hw0⟩ := putSextet_ok_iff.1 h0
        obtain ⟨ws, hws, hout⟩ := (encodeLoop_ok_iff n i3 j0 out0 out').1 h
        refine ⟨w3 :: w2 :: w1 :: w0 :: ws, ?_, ?_⟩
        · simp only [ha, hb, hc, hr3, hr2, hr1, hr0, hws, ok_bind]
          rfl
        · simp only [writeAll, hw3, hw2, hw1, hw0, ok_bind]
          exact hout
      · rintro ⟨ws, h, hout⟩
        obtain ⟨⟨a, i1⟩, ha, h⟩ := bind_ok h
        obtain ⟨⟨b, i2⟩, hb, h⟩ := bind_ok h
        obtain ⟨⟨c, i3⟩, hc, h⟩ := bind_ok h
        obtain ⟨⟨w3, j3⟩, hr3, h⟩ := bind_ok h
        obtain ⟨⟨w2, j2⟩, hr2, h⟩ := bind_ok h
        obtain ⟨⟨w1, j1⟩, hr1, h⟩ := bind_ok h
        obtain ⟨⟨w0, j0⟩, hr0, h⟩ := bind_ok h
        obtain ⟨rest, hrest, h⟩ := bind_ok h
        cases h
        obtain ⟨out3, hw3, hout⟩ := bind_ok hout
        obtain ⟨out2, hw2, hout⟩ := bind_ok hout
        obtain ⟨out1, hw1, hout⟩ := bind_ok hout
        obtain ⟨out0, hw0, hout⟩ := bind_ok hout
        have h3 := putSextet_ok_iff.2 ⟨w3, hr3, hw3⟩
        have h2 := putSextet_ok_iff.2 ⟨w2, hr2, hw2⟩
        have h1 := putSextet_ok_iff.2 ⟨w1, hr1, hw1⟩
        have h0 := putSextet_ok_iff.2 ⟨w0, hr0, hw0⟩
        simp only [ha, hb, hc, h3, h2, h1, h0, ok_bind]
        exact (encodeLoop_ok_iff n i3 j0 out0 out').2 ⟨rest, hrest, hout⟩
    · rw [if_neg hlt, if_neg hlt]
      constructor
      · intro h
        cases h
        exact ⟨[], rfl, rfl⟩
      · rintro ⟨ws, h, hout⟩
        cases h
        exact hout

theorem padFrom_eq_writeAll (outputLength : UInt32) : ∀ (n i : Nat) (out : List UInt8),
    padFrom outputLength i n out = writeAll out (padWrites outputLength i n)
  | 0, _, _ => rfl
  | n + 1, i, out => by
    rw [padFrom, padWrites, writeAll]
    congr 1
    funext out
    exact padFrom_eq_writeAll outputLength n (i + 1) out

/-- The encoder returns a text if and only if its writes can be put on record and carried out on the
new block. -/
theorem skyBase64Encode_ok_iff {out : List UInt8} {m : UInt32} (o : UInt32) :
    skyBase64Encode true data inputLength (some o) = .ok (some out, some m) ↔
      ∃ ws, encodeRecord data inputLength = .ok (m, ws) ∧
        writeAll (List.replicate m.toNat 0) ws = .ok out := by
  simp only [skyBase64Encode, if_true, encodeRecord]
  constructor
  · intro h
    obtain ⟨out1, hloop, h⟩ := bind_ok h
    obtain ⟨pads, hpads, h⟩ := bind_ok h
    obtain ⟨out2, hpad, h⟩ := bind_ok h
    cases h
    obtain ⟨ws, hws, hout⟩ := (encodeLoop_ok_iff _ _ _ _ _).1 hloop
    refine ⟨ws ++ padWrites (4 * ((inputLength + 2) / 3)) 0 pads, ?_, ?_⟩
    · rw [hws, ok_bind, hpads]
      rfl
    · rw [writeAll_append, hout, ok_bind, ← padFrom_eq_writeAll]
      exact hpad
  · rintro ⟨ws, h, hout⟩
    obtain ⟨ws1, hws, h⟩ := bind_ok h
    obtain ⟨pads, hpads, h⟩ := bind_ok h
    cases h
    rw [writeAll_append] at hout
    obtain ⟨out1, hout1, hout⟩ := bind_ok hout
    rw [(encodeLoop_ok_iff _ _ _ _ _).2 ⟨ws1, hws, hout1⟩, ok_bind, hpads, ok_bind,
      padFrom_eq_writeAll, hout]
    rfl

end Sky.Base64
