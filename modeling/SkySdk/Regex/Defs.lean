import SkySdk.Base.Buf
import SkySdk.Base.CStr
import SkySdk.Base.Heap
import SkySdk.Define

/-!
# `sky_regex.c`: matching and parsing with the C library's `regexec`

The functions of `sky_regex.c` over a heap of three kinds of block: the handle's struct, the nodes
of its list of substrings and the strings these point to. `regcomp` and `regexec` are the library's:
a `Matcher` says what `regexec` answers, by the number of calls the function has made before and the
text it is given, so the `regex_t` itself is left out, and log output too. The text a caller passes
is the caller's own string, and a pointer into it the offset; one that leaves it is a fault.

`regoff_t` is `int`; its arithmetic faults when it overflows. The loops over the matches run at most
the given number of rounds, a walk over the links one round more than there are live blocks: one
that is not done by then has come back to a node, and is `endless`.
-/

set_option autoImplicit false

namespace Sky.Regex

open Base

structure Regmatch where
  rmSo : Int32
  rmEo : Int32
deriving DecidableEq, Repr

def regexMaxMatch : Nat := 100

/-- `regmatch_t m[ REGEX_MAX_MATCH ]` -/
abbrev Slots := Vector Regmatch regexMaxMatch

/-- `m[ 0 ]`: the whole match. -/
def Slots.whole (m : Slots) : Regmatch := m[0]

/-- `regexec( &r->regex, p, REGEX_MAX_MATCH, m, 0 )`: what it puts into `m`, or `none` when it does
not return 0. -/
abbrev Matcher := Nat → List UInt8 → Option Slots

structure SkyRegexSubstr where
  str : Addr
  next : Addr
deriving DecidableEq, Repr

structure SkyHandleRegex where
  cb : UInt16
  handleType : UInt16
  subStr : Addr
deriving DecidableEq, Repr

/-- A block: a handle's struct, a node of a list of substrings, an array of `char`. -/
inductive Block
  | regex (r : SkyHandleRegex)
  | substr (x : SkyRegexSubstr)
  | chars (bytes : List UInt8)
deriving DecidableEq, Repr

abbrev RegexM (α : Type) := Prog (Heap Block) α

/-! ## Typed access -/

def loadRegex (p : Addr) : RegexM SkyHandleRegex := do
  match ← load p with
  | .regex r => pure r
  | _ => fault .badAccess

def modifyRegex (p : Addr) (f : SkyHandleRegex → SkyHandleRegex) : RegexM Unit := do
  let r ← loadRegex p
  store p (.regex (f r))

def loadSubstr (p : Addr) : RegexM SkyRegexSubstr := do
  match ← load p with
  | .substr x => pure x
  | _ => fault .badAccess

def modifySubstr (p : Addr) (f : SkyRegexSubstr → SkyRegexSubstr) : RegexM Unit := do
  let x ← loadSubstr p
  store p (.substr (f x))

def loadChars (p : Addr) : RegexM (List UInt8) := do
  match ← load p with
  | .chars bytes => pure bytes
  | _ => fault .badAccess

/-- `sky_mem_copy( dst, src, … )` of these bytes -/
def skyMemCopy (dst : Addr) (src : List UInt8) : RegexM Unit := do
  let bytes ← loadChars dst
  if src.length ≤ bytes.length then store dst (.chars (src ++ bytes.drop src.length))
  else fault .outOfBounds

/-- `dst[ i ] = '\0'` -/
def setNul (dst : Addr) (i : Int) : RegexM Unit := do
  let bytes ← loadChars dst
  if 0 ≤ i then do
    store dst (.chars (← ofResult (writeAt bytes i.toNat 0)))
  else fault .outOfBounds

/-! ## Offsets -/

/-- The value of an `int` expression. -/
def int (i : Int) : Except Fault Int :=
  if -2147483648 ≤ i ∧ i ≤ 2147483647 then .ok i else .error .overflow

/-- `(uint32_t) i` -/
def castU32 (i : Int) : Nat := (i % 4294967296).toNat

/-- `p += off`; `regexec` reads from the pointer next. -/
def advance (str : CStr) (p : Nat) (off : Int32) : Except Fault Nat :=
  let q := (p : Int) + off.toInt
  if 0 ≤ q ∧ q ≤ str.length then .ok q.toNat else .error .outOfBounds

/-- The `n` bytes at `p + off`, the NUL of the string among them. -/
def bytesAt (str : CStr) (p : Nat) (off : Int32) (n : Nat) : Except Fault (List UInt8) :=
  let q := (p : Int) + off.toInt
  if 0 ≤ q ∧ q + n ≤ str.length + 1 then .ok (((str.bytes ++ [0]).drop q.toNat).take n)
  else .error .outOfBounds

/-! ## Create and destroy -/

def skyValidateHandle (b : Build) (regex : Addr) : RegexM Unit :=
  skyAssert b (if regex = 0 then pure false
    else do pure ((← loadRegex regex).handleType == SkyHandleType.regex.code))

/-- The rounds a walk over the links may take. -/
def walkRounds : RegexM Nat := fun h => .ok (h.size + 1, h)

/-- `SKY_MEM_SAFE_FREE( sub_str->str )` -/
def safeFreeStr (subStr : Addr) : RegexM Unit := do
  let x ← loadSubstr subStr
  if x.str ≠ 0 then do
    free x.str
    modifySubstr subStr fun x => { x with str := 0 }
  else pure ()

def skyRegexSubstrFree : Nat → Addr → RegexM Unit
  | 0, _ => fault .endless
  | n + 1, subStr =>
    if subStr ≠ 0 then do
      let next := (← loadSubstr subStr).next
      safeFreeStr subStr
      free subStr
      skyRegexSubstrFree n next
    else pure ()

/-- `if ( r->sub_str != NULL )` of `sky_regex_destroy` -/
def freeSubstrs (subStr : Addr) : RegexM Unit :=
  if subStr ≠ 0 then do skyRegexSubstrFree (← walkRounds) subStr else pure ()

section
variable (A : Allocator)

/-- `regcomp` says whether the expression compiles. -/
def skyRegexCreate (regcomp : Bool) : RegexM Addr := do
  let r ← malloc A (.regex { cb := 0, handleType := 0, subStr := 0 })
  if r = 0 then pure 0
  else do
    modifyRegex r fun d =>
      { d with cb := 80, handleType := SkyHandleType.regex.code, subStr := 0 }
    if regcomp then pure r
    else do
      free r
      pure 0

def skyRegexDestroy (b : Build) (regex : Addr) : RegexM Unit := do
  skyValidateHandle b regex
  if regex ≠ 0 then do
    freeSubstrs (← loadRegex regex).subStr
    free regex
  else pure ()

/-! ## Match -/

/-- The slots that are left of the loop over `m`. -/
def countSlots : List Regmatch → UInt32 → UInt32
  | [], matchCount => matchCount
  | x :: m, matchCount => if x.rmSo = -1 then matchCount else countSlots m (matchCount + 1)

/-- The loop over the matches, after `k` calls of `regexec`. -/
def matchLoop (regexec : Matcher) (str : CStr) : Nat → Nat → Nat → UInt32 → Except Fault UInt32
  | 0, _, _, _ => .error .endless
  | n + 1, k, p, matchCount =>
    match regexec k (str.bytes.drop p) with
    | none => .ok matchCount
    | some m => do
      let p ← advance str p m.whole.rmEo
      matchLoop regexec str n (k + 1) p (countSlots m.toList matchCount)

def skyRegexMatch (b : Build) (regexec : Matcher) (rounds : Nat) (regex : Addr) (str : CStr) :
    RegexM UInt32 := do
  skyValidateHandle b regex
  let _ ← loadRegex regex
  ofResult (matchLoop regexec str rounds 0 0 0)

/-! ## Parse -/

/-- `for ( s = r->sub_str; s != NULL; s = s->next )` -/
def appendTo (subStr : Addr) : Nat → Addr → RegexM Unit
  | 0, _ => fault .endless
  | n + 1, s =>
    if s ≠ 0 then do
      let next := (← loadSubstr s).next
      if next = 0 then modifySubstr s fun x => { x with next := subStr }
      else appendTo subStr n next
    else pure ()

/-- The node becomes the last one of the list. -/
def linkSubstr (regex subStr : Addr) : RegexM Unit := do
  let r ← loadRegex regex
  if r.subStr = 0 then modifyRegex regex fun r => { r with subStr := subStr }
  else appendTo subStr (← walkRounds) r.subStr

/-- One slot of a match at `p`: whether the loop over `m` goes on. -/
def parseSlot (regex : Addr) (str : CStr) (p : Nat) (x : Regmatch) : RegexM Bool := do
  let subStr ← malloc A (.substr { str := 0, next := 0 })
  if subStr = 0 then pure false
  else do
    let len ← ofResult (int (x.rmEo.toInt - x.rmSo.toInt))
    let size ← ofResult (int (len + 1))
    let s ← malloc A (.chars (List.replicate (castU32 size) 0))
    modifySubstr subStr fun x => { x with str := s }
    -- the node is in no list
    if s = 0 then pure false
    else do
      modifySubstr subStr fun x => { x with next := 0 }
      skyMemCopy s (← ofResult (bytesAt str p x.rmSo (castU32 len)))
      setNul s len
      linkSubstr regex subStr
      pure true

/-- The slots that are left of the loop over `m`. -/
def parseSlots (regex : Addr) (str : CStr) (p : Nat) : List Regmatch → RegexM Unit
  | [] => pure ()
  | x :: m =>
    if x.rmSo = -1 then pure ()
    else do
      if ← parseSlot A regex str p x then parseSlots regex str p m else pure ()

/-- The loop over the matches, after `k` calls of `regexec`. -/
def parseLoop (regexec : Matcher) (regex : Addr) (str : CStr) : Nat → Nat → Nat → RegexM Unit
  | 0, _, _ => fault .endless
  | n + 1, k, p =>
    match regexec k (str.bytes.drop p) with
    | none => pure ()
    | some m => do
      parseSlots A regex str p m.toList
      let p ← ofResult (advance str p m.whole.rmEo)
      parseLoop regexec regex str n (k + 1) p

/-- `if ( r->sub_str != NULL )`: the list of the call before. -/
def dropSubstrs (regex : Addr) : RegexM Unit := do
  let r ← loadRegex regex
  if r.subStr ≠ 0 then do
    skyRegexSubstrFree (← walkRounds) r.subStr
    modifyRegex regex fun r => { r with subStr := 0 }
  else pure ()

def skyRegexParse (regexec : Matcher) (rounds : Nat) (regex : Addr) (str : CStr) :
    RegexM Addr := do
  dropSubstrs regex
  parseLoop A regexec regex str rounds 0 0
  pure (← loadRegex regex).subStr

end

/-! ## Calls and observations -/

inductive Call
  | parse (regexec : Matcher) (rounds : Nat) (str : CStr)
  | matchAll (regexec : Matcher) (rounds : Nat) (str : CStr)

inductive Resp
  | list (subStr : Addr)
  | count (n : UInt32)
deriving DecidableEq, Repr

def call (A : Allocator) (b : Build) (regex : Addr) : Call → RegexM Resp
  | .parse regexec rounds str => do pure (.list (← skyRegexParse A regexec rounds regex str))
  | .matchAll regexec rounds str => do
    pure (.count (← skyRegexMatch b regexec rounds regex str))

/-- The strings of the nodes from `p`, at most `n` of them. -/
def textsFrom : Nat → Addr → RegexM (List CStr)
  | 0, _ => fault .endless
  | n + 1, p =>
    if p = 0 then pure []
    else do
      let x ← loadSubstr p
      let s ← ofResult (CStr.read ((← loadChars x.str).map some))
      let ss ← textsFrom n x.next
      pure (s :: ss)

/-- The list a caller of `sky_regex_parse` reads. -/
def textsOf (subStr : Addr) : RegexM (List CStr) := do
  textsFrom (← walkRounds) subStr

end Sky.Regex
