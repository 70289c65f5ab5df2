import SkySdk.Base.Buf

/-!
# `sky_base64.c`: base64

Octets and characters are bytes; a `char` is only compared with `'='` and used as an index after a
cast to an unsigned type. `uint32_t` arithmetic wraps, an `int` index that overflows is a fault, and
so is an access outside of an array. `granted` says whether the one allocation succeeds; the new
block is all zero. `outputLength` is what the pointer points to, `none` for NULL, and each function
gives what it points to afterwards.
-/

set_option autoImplicit false

namespace Sky.Base64

open Base

def base64EncodingTable : List UInt8 :=
  [ 'A', 'B', 'C', 'D', 'E', 'F', 'G', 'H',
    'I', 'J', 'K', 'L', 'M', 'N', 'O', 'P',
    'Q', 'R', 'S', 'T', 'U', 'V', 'W', 'X',
    'Y', 'Z', 'a', 'b', 'c', 'd', 'e', 'f',
    'g', 'h', 'i', 'j', 'k', 'l', 'm', 'n',
    'o', 'p', 'q', 'r', 's', 't', 'u', 'v',
    'w', 'x', 'y', 'z', '0', '1', '2', '3',
    '4', '5', '6', '7', '8', '9', '+', '/' ].map Char.toUInt8

def base64ModTable : List Nat := [0, 2, 1]

/-- `'='` -/
def padChar : UInt8 := 61

/-- The rounds of the loop of `sky_base64_init` that are left, at `i`. -/
def initFrom (i : Nat) : Nat → List UInt8 → Except Fault (List UInt8)
  | 0, table => .ok table
  | n + 1, table => do
    let c ← readAt base64EncodingTable i
    initFrom (i + 1) n (← writeAt table c.toNat (.ofNat i))

/-- `base64_decoding_table` after `sky_base64_init`. -/
def skyBase64Init : Except Fault (List UInt8) :=
  initFrom 0 64 (List.replicate 256 0)

/-! ## Encode -/

/-- `i < input_length ? (unsigned char) data[ i++ ] : 0` -/
def nextOctet (data : List UInt8) (inputLength : UInt32) (i : Nat) : Except Fault (UInt32 × Nat) :=
  if i < inputLength.toNat then do
    let octet ← readAt data i
    pure (octet.toUInt32, ← succInt i)
  else pure (0, i)

/-- `encoded_data[ j++ ] = base64_encoding_table[ sextet & 0x3F ]` -/
def putSextet (out : List UInt8) (j : Nat) (sextet : UInt32) : Except Fault (List UInt8 × Nat) := do
  let c ← readAt base64EncodingTable (sextet &&& 0x3F).toNat
  let out ← writeAt out j c
  pure (out, ← succInt j)

/-- The rounds of the encoding loop, of which at most the given number are run. -/
def encodeLoop (data : List UInt8) (inputLength : UInt32) :
    Nat → Nat → Nat → List UInt8 → Except Fault (List UInt8)
  | 0, _, _, _ => .error .endless
  | n + 1, i, j, out =>
    if i < inputLength.toNat then do
      let (octetA, i) ← nextOctet data inputLength i
      let (octetB, i) ← nextOctet data inputLength i
      let (octetC, i) ← nextOctet data inputLength i
      let triple := (octetA <<< 0x10) + (octetB <<< 0x08) + octetC
      let (out, j) ← putSextet out j (triple >>> (3 * 6))
      let (out, j) ← putSextet out j (triple >>> (2 * 6))
      let (out, j) ← putSextet out j (triple >>> (1 * 6))
      let (out, j) ← putSextet out j (triple >>> (0 * 6))
      encodeLoop data inputLength n i j out
    else .ok out

/-- The rounds of the padding loop that are left, at `i`. -/
def padFrom (outputLength : UInt32) (i : Nat) : Nat → List UInt8 → Except Fault (List UInt8)
  | 0, out => .ok out
  | n + 1, out => do
    padFrom outputLength (i + 1) n (← writeAt out (outputLength - 1 - .ofNat i).toNat padChar)

def skyBase64Encode (granted : Bool) (data : List UInt8) (inputLength : UInt32)
    (outputLength : Option UInt32) : Except Fault (Option (List UInt8) × Option UInt32) :=
  match outputLength with
  | none => .ok (none, none)
  | some _ =>
    let outputLength := 4 * ((inputLength + 2) / 3)
    if granted then do
      -- each round reads an octet at least
      let out ← encodeLoop data inputLength (inputLength.toNat + 1) 0 0
        (List.replicate outputLength.toNat 0)
      let pads ← readAt base64ModTable (inputLength % 3).toNat
      let out ← padFrom outputLength 0 pads out
      pure (some out, some outputLength)
    else .ok (none, some outputLength)

/-! ## Decode -/

/-- `data[ i ] == '=' ? 0 & i++ : base64_decoding_table[ (uint8_t) data[ i++ ] ]` -/
def nextSextet (table data : List UInt8) (i : Nat) : Except Fault (UInt32 × Nat) := do
  let c ← readAt data i
  if c = padChar then pure (0, ← succInt i)
  else do
    let sextet ← readAt table c.toNat
    pure (sextet.toUInt32, ← succInt i)

/-- `if ( j < *output_length ) decoded_data[ j++ ] = octet & 0xFF` -/
def putOctet (outputLength : UInt32) (out : List UInt8) (j : Nat) (octet : UInt32) :
    Except Fault (List UInt8 × Nat) :=
  if j < outputLength.toNat then do
    let out ← writeAt out j (octet &&& 0xFF).toUInt8
    pure (out, ← succInt j)
  else pure (out, j)

/-- The rounds of the decoding loop, of which at most the given number are run. -/
def decodeLoop (table data : List UInt8) (inputLength outputLength : UInt32) :
    Nat → Nat → Nat → List UInt8 → Except Fault (List UInt8)
  | 0, _, _, _ => .error .endless
  | n + 1, i, j, out =>
    if i < inputLength.toNat then do
      let (sextetA, i) ← nextSextet table data i
      let (sextetB, i) ← nextSextet table data i
      let (sextetC, i) ← nextSextet table data i
      let (sextetD, i) ← nextSextet table data i
      let triple := (sextetA <<< (3 * 6)) + (sextetB <<< (2 * 6)) + (sextetC <<< (1 * 6)) +
        (sextetD <<< (0 * 6))
      let (out, j) ← putOctet outputLength out j (triple >>> (2 * 8))
      let (out, j) ← putOctet outputLength out j (triple >>> (1 * 8))
      let (out, j) ← putOctet outputLength out j (triple >>> (0 * 8))
      decodeLoop table data inputLength outputLength n i j out
    else .ok out

def skyBase64Decode (granted : Bool) (table data : List UInt8) (inputLength : UInt32)
    (outputLength : Option UInt32) : Except Fault (Option (List UInt8) × Option UInt32) :=
  match outputLength with
  | none => .ok (none, none)
  | some outputLength =>
    if 0 = inputLength % 4 then do
      let outputLength := inputLength / 4 * 3
      let c ← readAt data (inputLength - 1).toNat
      let outputLength := if c = padChar then outputLength - 1 else outputLength
      let c ← readAt data (inputLength - 2).toNat
      let outputLength := if c = padChar then outputLength - 1 else outputLength
      if granted then do
        -- each round reads four characters
        let out ← decodeLoop table data inputLength outputLength (inputLength.toNat + 1) 0 0
          (List.replicate outputLength.toNat 0)
        pure (some out, some outputLength)
      else pure (none, some outputLength)
    else .ok (none, some outputLength)

end Sky.Base64
