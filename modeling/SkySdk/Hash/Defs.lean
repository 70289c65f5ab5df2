import SkySdk.Base.Dll
import SkySdk.Define
import SkySdk.Str.Defs

/-!
# `sky_hash.c`: a string map over the C library's `hsearch_r`

The functions of `sky_hash.c` over a heap of three kinds of block: the handle's struct, the nodes of
its `key_array` and the key strings these point to. A key a caller passes is given by value, `none`
for NULL: it is the caller's own string. The `void*` values are opaque addresses. Log output is left
out.

`hsearch_r` is the library's: a table of at most `size` entries, each the pointer to a key and the
data, searched by `strcmp`. It reads the keys through their pointers, so a table that outlived one
of them would fault. An `ENTRY*` is the index of the entry.
-/

set_option autoImplicit false

namespace Sky.Hash

open Base

structure Entry where
  key : Addr
  data : Addr
deriving DecidableEq, Repr

/-- The filled entries in the order they were entered, and how many there may be. -/
structure HsearchData where
  table : List Entry
  size : Nat
deriving DecidableEq, Repr

structure KeyString where
  str : Addr
  next : Addr
deriving DecidableEq, Repr

structure SkyHandleHash where
  cb : UInt16
  handleType : UInt16
  htab : HsearchData
  keyArray : Addr
deriving DecidableEq, Repr

/-- A block: a hash's struct, a node of a `key_array`, an array of `char`. -/
inductive Block
  | hash (d : SkyHandleHash)
  | keyString (k : KeyString)
  | chars (bytes : List UInt8)
deriving DecidableEq, Repr

abbrev HashM (α : Type) := Prog (Heap Block) α

/-! ## Typed access -/

def loadHash (p : Addr) : HashM SkyHandleHash := do
  match ← load p with
  | .hash d => pure d
  | _ => fault .badAccess

def modifyHash (p : Addr) (f : SkyHandleHash → SkyHandleHash) : HashM Unit := do
  let d ← loadHash p
  store p (.hash (f d))

def loadKeyString (p : Addr) : HashM KeyString := do
  match ← load p with
  | .keyString k => pure k
  | _ => fault .badAccess

def modifyKeyString (p : Addr) (f : KeyString → KeyString) : HashM Unit := do
  let k ← loadKeyString p
  store p (.keyString (f k))

/-- The string at `p`. -/
def loadStr (p : Addr) : HashM CStr := do
  match ← load p with
  | .chars bytes =>
    match CStr.read (bytes.map some) with
    | .ok s => pure s
    | .error e => fault e
  | _ => fault .badAccess

/-- `strncpy`: `count` characters, NULs behind the end of `src`. -/
def skyStrCpy (dst : Addr) (src : CStr) (count : Nat) : HashM Unit := do
  match ← load dst with
  | .chars bytes =>
    if count ≤ bytes.length then
      store dst (.chars ((src.bytes ++ List.replicate count 0).take count ++ bytes.drop count))
    else fault .outOfBounds
  | _ => fault .badAccess

/-- `n + 1` of an `int`. -/
def intSucc (n : Int) : HashM Int :=
  if n < 2147483647 then pure (n + 1) else fault .overflow

/-! ## `hsearch_r` -/

/-- The index of the entry with the key, the first of `entries` having index `i`. -/
def findEntry (key : CStr) (i : Nat) : List Entry → HashM (Option Nat)
  | [] => pure none
  | e :: entries => do
    if (← loadStr e.key) = key then pure (some i) else findEntry key (i + 1) entries

/-- `hsearch_r( e, FIND, &retval, &h->htab )`: the result, and `retval`. -/
def hsearchFind (h : Addr) (key : CStr) : HashM (Int × Option Nat) := do
  match ← findEntry key 0 (← loadHash h).htab.table with
  | some i => pure (1, some i)
  | none => pure (0, none)

/-- `hsearch_r( e, ENTER, &retval, &h->htab )` -/
def hsearchEnter (h key data : Addr) : HashM (Int × Option Nat) := do
  let htab := (← loadHash h).htab
  match ← findEntry (← loadStr key) 0 htab.table with
  | some i => pure (1, some i)
  | none =>
    if htab.table.length < htab.size then do
      modifyHash h fun d => { d with htab := { htab with table := htab.table ++ [⟨key, data⟩] } }
      pure (1, some htab.table.length)
    else pure (0, none)

/-- `retval->data = data` -/
def setEntryData (h : Addr) (retval : Nat) (data : Addr) : HashM Unit := do
  let htab := (← loadHash h).htab
  match htab.table[retval]? with
  | some e =>
    modifyHash h fun d => { d with
      htab := { htab with table := htab.table.set retval { e with data := data } } }
  | none => fault .outOfBounds

def hdestroyR (h : Addr) : HashM Unit :=
  modifyHash h fun d => { d with htab := { table := [], size := 0 } }

/-! ## The functions of `sky_hash.c` -/

def skyValidateHandle (b : Build) (hash : Addr) : HashM Unit :=
  skyAssert b (if hash = 0 then pure false
    else do pure ((← loadHash hash).handleType == SkyHandleType.hash.code))

section
variable (A : Allocator)

/-- `hcreate nel` is what `hcreate_r` does for at least `nel` entries: the number it makes room for,
or `none` when it fails. -/
def skyHashCreate (hcreate : UInt32 → Option Nat) (size : UInt32) : HashM Addr := do
  let h ← malloc A (.hash { cb := 0, handleType := 0, htab := ⟨[], 0⟩, keyArray := 0 })
  if h = 0 then pure 0
  else do
    modifyHash h fun d => { d with cb := 32, handleType := SkyHandleType.hash.code, keyArray := 0 }
    match hcreate (size + 10) with
    | none => do
      free h
      pure 0
    | some n => do
      modifyHash h fun d => { d with htab := ⟨[], n⟩ }
      pure h

/-- `SKY_MEM_SAFE_FREE( ks->str )` -/
def safeFreeStr (ks : Addr) : HashM Unit := do
  let k ← loadKeyString ks
  if k.str ≠ 0 then do
    free k.str
    modifyKeyString ks fun k => { k with str := 0 }
  else pure ()

/-- `while ( h->key_array != NULL )` of `sky_hash_destroy` -/
def freeKeys (h : Addr) : Nat → HashM Unit
  | 0 => fault .endless
  | n + 1 => do
    let keyArray := (← loadHash h).keyArray
    if keyArray ≠ 0 then do
      let next := (← loadKeyString keyArray).next
      safeFreeStr keyArray
      free keyArray
      modifyHash h fun d => { d with keyArray := next }
      freeKeys h n
    else pure ()

/-- The rounds a walk over the links may take. -/
def walkRounds : HashM Nat := fun h => .ok (h.size + 1, h)

def skyHashDestroy (b : Build) (hash : Addr) : HashM Unit := do
  skyValidateHandle b hash
  if hash ≠ 0 then do
    freeKeys hash (← walkRounds)
    hdestroyR hash
    free hash
  else pure ()

/-- The branch of `sky_hash_add` for a key that is not in the table. -/
def addNewKey (h : Addr) (key : CStr) (keyLen : Int) (value : Addr) :
    HashM (Option Nat) := do
  let ks ← malloc A (.keyString { str := 0, next := 0 })
  if ks = 0 then pure none
  else do
    let size := (← intSucc keyLen).toNat
    let str ← malloc A (.chars (List.replicate size 0))
    modifyKeyString ks fun k => { k with str := str }
    if str = 0 then do
      free ks
      pure none
    else do
      skyStrCpy str key size
      let (rc, retval) ← hsearchEnter h str value
      if rc = 0 ∨ retval = none then do
        free str
        free ks
        pure none
      else do
        let keyArray := (← loadHash h).keyArray
        modifyKeyString ks fun k => { k with next := keyArray }
        modifyHash h fun d => { d with keyArray := ks }
        pure retval

def skyHashAdd (b : Build) (hash : Addr) (key : Option CStr) (value : Addr) :
    HashM (Option Nat) := do
  skyValidateHandle b hash
  match key with
  | none => pure none
  | some key =>
    let keyLen := (skyStrLen key).toBitVec.toInt
    if keyLen > 0 then do
      let (rc, retval) ← hsearchFind hash key
      if rc ≠ 0 then
        match retval with
        | some i => do
          setEntryData hash i value
          pure (some i)
        | none => do
          skyAssert b (pure false)
          pure none
      else addNewKey A hash key keyLen value
    else pure none

end

/-- The value is the one behind `value`, `none` for NULL. -/
def skyHashFind (b : Build) (hash : Addr) (key : Option CStr) (value : Option Addr) :
    HashM (Bool × Option Addr) := do
  skyValidateHandle b hash
  match key with
  | none => pure (false, value)
  | some key => do
    let (rc, retval) ← hsearchFind hash key
    match retval with
    | none => pure (false, value)
    | some i =>
      if rc = 0 then pure (false, value)
      else do
        match (← loadHash hash).htab.table[i]? with
        | some e => pure (true, value.map fun _ => e.data)
        | none => fault .outOfBounds

/-! ## Calls and observations -/

inductive Call
  | add (key : Option CStr) (value : Addr)
  | find (key : Option CStr) (value : Option Addr)
deriving DecidableEq, Repr

inductive Resp
  | entry (retval : Option Nat)
  | found (r : Bool) (value : Option Addr)
deriving DecidableEq, Repr

def call (A : Allocator) (b : Build) (hash : Addr) : Call → HashM Resp
  | .add k v => do pure (.entry (← skyHashAdd A b hash k v))
  | .find k v => do
    let (r, v) ← skyHashFind b hash k v
    pure (.found r v)

/-- The calls one after the other, with their results. -/
def runCalls (A : Allocator) (b : Build) (hash : Addr) : List Call → HashM (List (Call × Resp))
  | [] => pure []
  | c :: cs => do
    let r ← call A b hash c
    let rs ← runCalls A b hash cs
    pure ((c, r) :: rs)

/-- The strings of the nodes from `p`, at most `n` of them. -/
def keysFrom (p : Addr) : Nat → HashM (List Addr)
  | 0 => fault .endless
  | n + 1 =>
    if p = 0 then pure []
    else do
      let k ← loadKeyString p
      let ks ← keysFrom k.next n
      pure (k.str :: ks)

/-- The strings on `key_array`. -/
def keyArrayOf (hash : Addr) : HashM (List Addr) := do
  keysFrom (← loadHash hash).keyArray (← walkRounds)

end Sky.Hash
