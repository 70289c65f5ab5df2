import SkySdk.Base.CStr
import SkySdk.Base.Heap

/-!
# `sky_map.c`: a string map in two parallel arrays

The functions of `sky_map.c` over a heap of three kinds of block: the handle's struct, the arrays
of `char*` it points to, and the strings these point to. A block of pointers or characters is its
list of cells, `none` where nothing has been written since it was allocated. The strings a caller
passes are given by value (`none` for NULL): they are the caller's own, not blocks of the map.
`perror` and the trace output are left out.

The integer results of the internal functions are the source's (`__LINE__` of the assignment).
-/

set_option autoImplicit false

namespace Sky.Map

open Base

abbrev MapFilterCallback := CStr → CStr → Int

structure SkyHandleMap where
  keys : Addr
  values : Addr
  count : Nat
  mapFilterCallback : Option MapFilterCallback

inductive SkyMapResult
  | mapOk
  | mapError
  | mapInvalidArg
  | mapKeyExists
  | mapKeyNotFound
  | mapFilterReject
deriving DecidableEq, Repr

/-- A block: raw memory, a handle's struct, an array of `char*`, an array of `char`. -/
inductive Block
  | raw
  | map (d : SkyHandleMap)
  | ptrs (cells : List (Option Addr))
  | chars (cells : List (Option UInt8))

abbrev MapM (α : Type) := Prog (Heap Block) α

/-! ## Typed access -/

def loadMap (p : Addr) : MapM SkyHandleMap := do
  match ← load p with
  | .map d => pure d
  | _ => fault .badAccess

def modifyMap (p : Addr) (f : SkyHandleMap → SkyHandleMap) : MapM Unit := do
  let d ← loadMap p
  store p (.map (f d))

def loadPtrs (p : Addr) : MapM (List (Option Addr)) := do
  match ← load p with
  | .ptrs cells => pure cells
  | _ => fault .badAccess

/-- `p[i]` of an array of `char*`. -/
def loadSlot (p : Addr) (i : Nat) : MapM Addr := do
  let cells ← loadPtrs p
  match cells[i]? with
  | some (some a) => pure a
  | some none => fault .indeterminate
  | none => fault .outOfBounds

/-- `p[i] = a` of an array of `char*`. -/
def storeSlot (p : Addr) (i : Nat) (a : Addr) : MapM Unit := do
  let cells ← loadPtrs p
  if i < cells.length then store p (.ptrs (cells.set i (some a))) else fault .outOfBounds

/-- The string at `p`. -/
def loadStr (p : Addr) : MapM CStr := do
  match ← load p with
  | .chars cells =>
    match CStr.read cells with
    | .ok s => pure s
    | .error e => fault e
  | _ => fault .badAccess

/-- Write characters from the start of the block at `p`. -/
def storeChars (p : Addr) (src : List (Option UInt8)) : MapM Unit := do
  match ← load p with
  | .chars cells =>
    if src.length ≤ cells.length then store p (.chars (src ++ cells.drop src.length))
    else fault .outOfBounds
  | _ => fault .badAccess

/-- The first `n` cells of a block resized to `n` cells. -/
def resize {α : Type} (n : Nat) (cells : List (Option α)) : List (Option α) :=
  cells.take n ++ List.replicate (n - cells.length) none

def resizePtrs (n : Nat) : Block → Except Fault Block
  | .ptrs cells => .ok (.ptrs (resize n cells))
  | _ => .error .badAccess

def resizeChars (n : Nat) : Block → Except Fault Block
  | .chars cells => .ok (.chars (resize n cells))
  | _ => .error .badAccess

/-- `memmove(p + dst, p + src, n * sizeof(char*))`. -/
def movePtrs (p : Addr) (dst src n : Nat) : MapM Unit := do
  let cells ← loadPtrs p
  if dst + n ≤ cells.length ∧ src + n ≤ cells.length then
    store p (.ptrs (cells.take dst ++ (cells.drop src).take n ++ cells.drop (dst + n)))
  else fault .outOfBounds

section
variable (A : Allocator)

def mallocPtrs (n : Nat) : MapM Addr := malloc A (.ptrs (List.replicate n none))

def mallocChars (n : Nat) : MapM Addr := malloc A (.chars (List.replicate n none))

def reallocPtrs (p : Addr) (n : Nat) : MapM Addr :=
  realloc A p (resizePtrs n) (.ptrs (List.replicate n none))

def reallocChars (p : Addr) (n : Nat) : MapM Addr :=
  realloc A p (resizeChars n) (.chars (List.replicate n none))

end

/-! ## Strings -/

def EINVAL : Int := 22
def ENOMEM : Int := 12
def ERANGE : Int := 34

/-- The library's bounded copy: the string and its NUL when they fit, else an empty string and
`ERANGE`. -/
def strcpyS (destination : Addr) (size : Nat) (source : CStr) : MapM Int :=
  if source.length < size then do
    storeChars destination source.cells
    pure 0
  else do
    storeChars destination [some 0]
    pure ERANGE

/-- The destination is the slot `arr + i`. -/
def mallocandstrcpyS (A : Allocator) (arr : Addr) (i : Nat) (source : Option CStr) : MapM Int :=
  match source with
  | none => pure EINVAL
  | some source =>
    if arr = 0 then pure EINVAL
    else do
      let l := source.length
      let temp ← mallocChars A (l + 1)
      if temp = 0 then pure ENOMEM
      else do
        storeSlot arr i temp
        let copied_result ← strcpyS (← loadSlot arr i) (l + 1) source
        if copied_result < 0 then do
          free (← loadSlot arr i)
          storeSlot arr i 0
          pure copied_result
        else pure 0

/-! ## Create and destroy -/

def skyMapCreate (A : Allocator) (mapFilterFunc : Option MapFilterCallback) : MapM Addr := do
  let result ← malloc A .raw
  if result ≠ 0 then do
    store result (.map { keys := 0, values := 0, count := 0, mapFilterCallback := mapFilterFunc })
    pure result
  else pure result

/-- The loop of `sky_map_destroy` from index `i`, `n` pairs left. -/
def freePairs (d : SkyHandleMap) (i : Nat) : Nat → MapM Unit
  | 0 => pure ()
  | n + 1 => do
    free (← loadSlot d.keys i)
    free (← loadSlot d.values i)
    freePairs d (i + 1) n

def skyMapDestroy (handle : Addr) : MapM Unit :=
  if handle ≠ 0 then do
    let d ← loadMap handle
    freePairs d 0 d.count
    free d.keys
    free d.values
    free handle
  else pure ()

/-! ## Clone -/

/-- A `char*` argument: NULL or the string it points to. -/
def loadArg (p : Addr) : MapM (Option CStr) :=
  if p = 0 then pure none
  else do
    let s ← loadStr p
    pure (some s)

/-- The copying loop of `map_clonevector` from index `i`, `n` strings left: the index at which it
stopped. -/
def cloneStrings (A : Allocator) (source result : Addr) (i : Nat) : Nat → MapM Nat
  | 0 => pure i
  | n + 1 => do
    let s ← loadArg (← loadSlot source i)
    if (← mallocandstrcpyS A result i s) ≠ 0 then pure i
    else cloneStrings A source result (i + 1) n

/-- Free the strings at the slots `j`, `j + 1`, …, `n` of them. -/
def freeStrings (arr : Addr) (j : Nat) : Nat → MapM Unit
  | 0 => pure ()
  | n + 1 => do
    free (← loadSlot arr j)
    freeStrings arr (j + 1) n

def mapClonevector (A : Allocator) (source : Addr) (count : Nat) : MapM Addr := do
  let result ← mallocPtrs A count
  if result = 0 then pure result
  else do
    let i ← cloneStrings A source result 0 count
    if i = count then pure result
    else do
      freeStrings result 0 i
      free result
      pure 0

def skyMapClone (A : Allocator) (handle : Addr) : MapM Addr :=
  if handle = 0 then pure 0
  else do
    let handleData ← loadMap handle
    let result ← malloc A .raw
    if result = 0 then pure result
    else if handleData.count = 0 then do
      store result (.map { keys := 0, values := 0, count := 0, mapFilterCallback := none })
      pure result
    else do
      -- `keys` and `values` are assigned below and not read before
      store result (.map { keys := 0, values := 0, count := handleData.count,
                           mapFilterCallback := handleData.mapFilterCallback })
      let keys ← mapClonevector A handleData.keys handleData.count
      modifyMap result fun d => { d with keys := keys }
      if keys = 0 then do
        free result
        pure 0
      else do
        let values ← mapClonevector A handleData.values handleData.count
        modifyMap result fun d => { d with values := values }
        if values = 0 then do
          let d ← loadMap result
          freeStrings d.keys 0 d.count
          free d.keys
          free result
          pure 0
        else pure result

/-! ## Storage -/

def mapIncreaseStorageKeysValues (A : Allocator) (handleData : Addr) : MapM Int := do
  let d ← loadMap handleData
  let newKeys ← reallocPtrs A d.keys (d.count + 1)
  if newKeys = 0 then pure 207
  else do
    modifyMap handleData fun d => { d with keys := newKeys }
    storeSlot newKeys d.count 0
    let newValues ← reallocPtrs A d.values (d.count + 1)
    if newValues = 0 then do
      if d.count = 0 then do
        free newKeys
        modifyMap handleData fun d => { d with keys := 0 }
        pure 235
      else do
        let undoneKeys ← reallocPtrs A newKeys d.count
        if undoneKeys = 0 then pure 235
        else do
          modifyMap handleData fun d => { d with keys := undoneKeys }
          pure 235
    else do
      modifyMap handleData fun d => { d with values := newValues }
      storeSlot newValues d.count 0
      modifyMap handleData fun d => { d with count := d.count + 1 }
      pure 0

def mapDecreaseStorageKeysValues (A : Allocator) (handleData : Addr) : MapM Unit := do
  let d ← loadMap handleData
  if d.count = 1 then do
    free d.keys
    modifyMap handleData fun d => { d with keys := 0 }
    free d.values
    modifyMap handleData fun d => { d with values := 0, count := 0, mapFilterCallback := none }
  else do
    let undoneKeys ← reallocPtrs A d.keys (d.count - 1)
    (if undoneKeys = 0 then pure ()
      else modifyMap handleData fun d => { d with keys := undoneKeys } : MapM Unit)
    let undoneValues ← reallocPtrs A d.values (d.count - 1)
    (if undoneValues = 0 then pure ()
      else modifyMap handleData fun d => { d with values := undoneValues } : MapM Unit)
    modifyMap handleData fun d => { d with count := d.count - 1 }

/-! ## Searches -/

/-- The index of the first of the `n` slots from `i` whose string is `s` (`strcmp(..) == 0`). -/
def findFrom (arr : Addr) (s : CStr) (i : Nat) : Nat → MapM (Option Nat)
  | 0 => pure none
  | n + 1 => do
    let t ← loadStr (← loadSlot arr i)
    if t = s then pure (some i) else findFrom arr s (i + 1) n

/-- The returned `char**` is given as its distance from `keys`. -/
def findKey (handleData : Addr) (key : CStr) : MapM (Option Nat) := do
  let d ← loadMap handleData
  if d.keys = 0 then pure none else findFrom d.keys key 0 d.count

def findValue (handleData : Addr) (value : CStr) : MapM (Option Nat) := do
  let d ← loadMap handleData
  if d.values = 0 then pure none else findFrom d.values value 0 d.count

/-! ## Operations -/

def insertNewKeyValue (A : Allocator) (handleData : Addr) (key value : CStr) : MapM Int := do
  if (← mapIncreaseStorageKeysValues A handleData) ≠ 0 then pure 338
  else do
    let d ← loadMap handleData
    if (← mallocandstrcpyS A d.keys (d.count - 1) (some key)) ≠ 0 then do
      mapDecreaseStorageKeysValues A handleData
      pure 347
    else do
      let d ← loadMap handleData
      if (← mallocandstrcpyS A d.values (d.count - 1) (some value)) ≠ 0 then do
        free (← loadSlot d.keys (d.count - 1))
        mapDecreaseStorageKeysValues A handleData
        pure 355
      else pure 0

/-- `(mapFilterCallback != NULL) && (mapFilterCallback(key, value) != 0)` -/
def filterRejects (f : Option MapFilterCallback) (key value : CStr) : Bool :=
  match f with
  | none => false
  | some f => f key value != 0

def skyMapAdd (A : Allocator) (handle : Addr) (key value : Option CStr) : MapM SkyMapResult :=
  match key, value with
  | some key, some value =>
    if handle = 0 then pure .mapInvalidArg
    else do
      if (← findKey handle key).isSome then pure .mapKeyExists
      else do
        let d ← loadMap handle
        if filterRejects d.mapFilterCallback key value then pure .mapFilterReject
        else do
          if (← insertNewKeyValue A handle key value) ≠ 0 then pure .mapError
          else pure .mapOk
  | _, _ => pure .mapInvalidArg

def skyMapAddorupdate (A : Allocator) (handle : Addr) (key value : Option CStr) :
    MapM SkyMapResult :=
  match key, value with
  | some key, some value =>
    if handle = 0 then pure .mapInvalidArg
    else do
      let d ← loadMap handle
      if filterRejects d.mapFilterCallback key value then pure .mapFilterReject
      else do
        match ← findKey handle key with
        | none => do
          if (← insertNewKeyValue A handle key value) ≠ 0 then pure .mapError
          else pure .mapOk
        | some index => do
          let newValue ← reallocChars A (← loadSlot d.values index) (value.length + 1)
          if newValue = 0 then pure .mapError
          else do
            storeChars newValue value.cells
            storeSlot d.values index newValue
            pure .mapOk
  | _, _ => pure .mapInvalidArg

def skyMapDelete (A : Allocator) (handle : Addr) (key : Option CStr) : MapM SkyMapResult :=
  match key with
  | some key =>
    if handle = 0 then pure .mapInvalidArg
    else do
      match ← findKey handle key with
      | none => pure .mapKeyNotFound
      | some index => do
        let d ← loadMap handle
        free (← loadSlot d.keys index)
        free (← loadSlot d.values index)
        movePtrs d.keys index (index + 1) (d.count - index - 1)
        movePtrs d.values index (index + 1) (d.count - index - 1)
        mapDecreaseStorageKeysValues A handle
        pure .mapOk
  | none => pure .mapInvalidArg

/-- The flag is the one behind `keyExists`, `none` for NULL. -/
def skyMapContainskey (handle : Addr) (key : Option CStr) (keyExists : Option Bool) :
    MapM (SkyMapResult × Option Bool) :=
  match key, keyExists with
  | some key, some _ =>
    if handle = 0 then pure (.mapInvalidArg, keyExists)
    else do
      pure (.mapOk, some (← findKey handle key).isSome)
  | _, _ => pure (.mapInvalidArg, keyExists)

def skyMapContainsvalue (handle : Addr) (value : Option CStr) (valueExists : Option Bool) :
    MapM (SkyMapResult × Option Bool) :=
  match value, valueExists with
  | some value, some _ =>
    if handle = 0 then pure (.mapInvalidArg, valueExists)
    else do
      pure (.mapOk, some (← findValue handle value).isSome)
  | _, _ => pure (.mapInvalidArg, valueExists)

def skyMapGetvaluefromkey (handle : Addr) (key : Option CStr) : MapM Addr :=
  match key with
  | some key =>
    if handle = 0 then pure 0
    else do
      match ← findKey handle key with
      | none => pure 0
      | some index => do
        let d ← loadMap handle
        loadSlot d.values index
  | none => pure 0

/-! ## Calls and observations -/

/-- A call with non-NULL arguments on one map. -/
inductive Call
  | add (key value : CStr)
  | addorupdate (key value : CStr)
  | delete (key : CStr)
  | containskey (key : CStr)
  | containsvalue (value : CStr)
  | getvaluefromkey (key : CStr)
deriving DecidableEq, Repr

/-- What the caller sees: the return code, with the flag behind the pointer argument, or the
string behind the returned pointer. -/
inductive Resp
  | code (r : SkyMapResult)
  | flag (r : SkyMapResult) (b : Option Bool)
  | text (v : Option CStr)
deriving DecidableEq, Repr

def call (A : Allocator) (m : Addr) : Call → MapM Resp
  | .add k v => do pure (.code (← skyMapAdd A m (some k) (some v)))
  | .addorupdate k v => do pure (.code (← skyMapAddorupdate A m (some k) (some v)))
  | .delete k => do pure (.code (← skyMapDelete A m (some k)))
  | .containskey k => do
    let r ← skyMapContainskey m (some k) (some false)
    pure (.flag r.1 r.2)
  | .containsvalue v => do
    let r ← skyMapContainsvalue m (some v) (some false)
    pure (.flag r.1 r.2)
  | .getvaluefromkey k => do pure (.text (← loadArg (← skyMapGetvaluefromkey m (some k))))

/-- The calls one after the other, with their responses. -/
def runCalls (A : Allocator) (m : Addr) : List Call → MapM (List Resp)
  | [] => pure []
  | c :: cs => do
    let r ← call A m c
    let rs ← runCalls A m cs
    pure (r :: rs)

/-- The pairs at the indices `i`, `i + 1`, …, `n` of them. -/
def pairsFrom (d : SkyHandleMap) (i : Nat) : Nat → MapM (List (CStr × CStr))
  | 0 => pure []
  | n + 1 => do
    let k ← loadStr (← loadSlot d.keys i)
    let v ← loadStr (← loadSlot d.values i)
    let ps ← pairsFrom d (i + 1) n
    pure ((k, v) :: ps)

/-- The first `count` entries of `keys` and `values`. -/
def pairsOf (m : Addr) : MapM (List (CStr × CStr)) := do
  let d ← loadMap m
  pairsFrom d 0 d.count

end Sky.Map
