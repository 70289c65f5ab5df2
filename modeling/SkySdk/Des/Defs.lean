import SkySdk.Base.BlockModes
import SkySdk.Base.Buf

/-!
# `sky_base64.c`: DES

The cipher is the C library's, a `Cipher`: `ecb_crypt` and `cbc_crypt` check the length, then crypt
as many octets of the buffer in place. A key or an `ivec` is what can be read from the pointer on;
it is copied with `strncpy`, so that a NUL ends it. A pointer with no octets behind it faults when
it is read.
-/

set_option autoImplicit false

namespace Sky.Des

open Base

/-! ## `<rpc/des_crypt.h>` -/

/-- What an octet of a key is with its parity bit set, DES under a key of eight octets, and whether
there is hardware for it. -/
structure Cipher where
  setparity : UInt8 → UInt8
  block : List UInt8 → BlockPerm UInt8 8
  hardware : Bool

inductive DesErr
  | none
  | noHwDevice
  | hwError
  | badParam
deriving DecidableEq, Repr

def DesErr.code : DesErr → Int
  | .none => 0
  | .noHwDevice => 1
  | .hwError => 2
  | .badParam => 3

/-- `DES_FAILED` -/
def desFailed (err : DesErr) : Bool := decide (err.code > DesErr.noHwDevice.code)

/-- `DES_MAXDATA` -/
def desMaxData : Nat := 8192

/-- `DES_ENCRYPT` and `DES_DECRYPT`, both for the hardware. -/
inductive Mode
  | encrypt
  | decrypt
deriving DecidableEq, Repr

def Mode.block (B : BlockPerm UInt8 8) : Mode → List UInt8 → List UInt8
  | .encrypt => B.forth
  | .decrypt => B.back

/-- The eight octets of a key; what is behind them stays. -/
def desSetparity (D : Cipher) (key : List UInt8) : List UInt8 :=
  (key.take 8).map D.setparity ++ key.drop 8

/-- `run` on the whole blocks of `len` octets of `buf`. -/
def crypt (D : Cipher) (buf : List UInt8) (len : UInt32) (run : Nat → List UInt8 → List UInt8) :
    Except Fault (DesErr × List UInt8) :=
  if len.toNat % 8 ≠ 0 ∨ desMaxData < len.toNat then .ok (.badParam, buf)
  else if buf.length < len.toNat then .error .outOfBounds
  else .ok (if D.hardware then .none else .noHwDevice, run (len.toNat / 8) buf)

def ecbCrypt (D : Cipher) (key buf : List UInt8) (len : UInt32) (mode : Mode) :
    Except Fault (DesErr × List UInt8) :=
  crypt D buf len (ecb 8 (mode.block (D.block (key.take 8))))

/-- The chaining value that the library leaves in `ivec` is not given back. -/
def cbcCrypt (D : Cipher) (key buf : List UInt8) (len : UInt32) (mode : Mode) (ivec : List UInt8) :
    Except Fault (DesErr × List UInt8) :=
  crypt D buf len fun m =>
    match mode with
    | .encrypt => cbcEncrypt (· ^^^ ·) 8 (D.block (key.take 8)).forth m (ivec.take 8)
    | .decrypt => cbcDecrypt (· ^^^ ·) 8 (D.block (key.take 8)).back m (ivec.take 8)

/-! ## The library's calls -/

/-- What `strncpy` copies from the octets at `src`: `count` of them, NULs from the first NUL on. -/
def skyStrCpy : List UInt8 → Nat → Except Fault (List UInt8)
  | _, 0 => .ok []
  | [], _ + 1 => .error .outOfBounds
  | c :: src, count + 1 =>
    if c = 0 then .ok (List.replicate (count + 1) 0)
    else do pure (c :: (← skyStrCpy src count))

/-- The result, and the octets at `data` after the call. -/
def desCryptCbc (D : Cipher) (key data : List UInt8) (dataLen : UInt32) (ivec : List UInt8)
    (mode : Mode) : Except Fault (Int × List UInt8) := do
  let keyTmp ← skyStrCpy key 9
  let ivecTmp ← skyStrCpy ivec 9
  let (rc, data) ← cbcCrypt D (desSetparity D keyTmp) data dataLen mode ivecTmp
  if desFailed rc then pure (-3, data) else pure (0, data)

def skyDesEncryptCbc (D : Cipher) (key data : List UInt8) (dataLen : UInt32) (ivec : List UInt8) :
    Except Fault (Int × List UInt8) :=
  desCryptCbc D key data dataLen ivec .encrypt

def skyDesDecryptCbc (D : Cipher) (key data : List UInt8) (dataLen : UInt32) (ivec : List UInt8) :
    Except Fault (Int × List UInt8) :=
  desCryptCbc D key data dataLen ivec .decrypt

/-- `none` is NULL. -/
def desCryptEcb (D : Cipher) (key : List UInt8) (data : Option (List UInt8)) (dataLen : UInt32)
    (mode : Mode) : Except Fault (Int × Option (List UInt8)) :=
  match data with
  | none => .ok (-1, none)
  | some data =>
    if dataLen % 8 = 0 then do
      let keyTmp ← skyStrCpy key 9
      let (rc, data) ← ecbCrypt D (desSetparity D keyTmp) data dataLen mode
      if desFailed rc then pure (-3, some data) else pure (0, some data)
    else .ok (-2, some data)

def skyDesEncryptEcb (D : Cipher) (key : List UInt8) (data : Option (List UInt8))
    (dataLen : UInt32) : Except Fault (Int × Option (List UInt8)) :=
  desCryptEcb D key data dataLen .encrypt

def skyDesDecryptEcb (D : Cipher) (key : List UInt8) (data : Option (List UInt8))
    (dataLen : UInt32) : Except Fault (Int × Option (List UInt8)) :=
  desCryptEcb D key data dataLen .decrypt

end Sky.Des
