import SkySdk.Base.Assoc
import SkySdk.Map.Defs

/-!
# What the map is for

`AbsMap`: an insertion-ordered association list with the filter in force. `AbsMap.call` answers a
call and gives the list after it; `t` numbers the call's first allocator call, so that the refusals
that make an operation fail are the ones `sky_map.c` meets. Where the last pair goes, by a deletion
or by rolling back the insertion of a first pair, the filter in force goes with it, as in
`Map_DecreaseStorageKeysValues`.
-/

set_option autoImplicit false

namespace Sky.Map

open Base

/-- The four allocator calls of an insertion, the first of them numbered `t`, are granted. -/
def insertGranted (A : Allocator) (t : Nat) : Bool :=
  A.grants t && A.grants (t + 1) && A.grants (t + 2) && A.grants (t + 3)

/-- An insertion gets its two arrays but not both strings, and is rolled back. -/
def insertRollsBack (A : Allocator) (t : Nat) : Bool :=
  A.grants t && A.grants (t + 1) && !(A.grants (t + 2) && A.grants (t + 3))

/-- The filter in force and the pairs. -/
structure AbsMap where
  filter : Option MapFilterCallback
  pairs : List (CStr × CStr)

namespace AbsMap

/-- The pair at the end, when the allocator grants it. -/
def insert (A : Allocator) (t : Nat) (s : AbsMap) (k v : CStr) : SkyMapResult × AbsMap :=
  if insertGranted A t then (.mapOk, { s with pairs := s.pairs ++ [(k, v)] })
  else (.mapError,
    { s with filter := if s.pairs = [] ∧ insertRollsBack A t = true then none else s.filter })

def keys (s : AbsMap) : List CStr := s.pairs.map Prod.fst

def values (s : AbsMap) : List CStr := s.pairs.map Prod.snd

def add (A : Allocator) (t : Nat) (s : AbsMap) (k v : CStr) : SkyMapResult × AbsMap :=
  if k ∈ s.keys then (.mapKeyExists, s)
  else if filterRejects s.filter k v then (.mapFilterReject, s)
  else s.insert A t k v

def addorupdate (A : Allocator) (t : Nat) (s : AbsMap) (k v : CStr) : SkyMapResult × AbsMap :=
  if filterRejects s.filter k v then (.mapFilterReject, s)
  else if k ∈ s.keys then
    if A.grants t then (.mapOk, { s with pairs := Assoc.replace k v s.pairs }) else (.mapError, s)
  else s.insert A t k v

def delete (s : AbsMap) (k : CStr) : SkyMapResult × AbsMap :=
  if k ∈ s.keys then
    (.mapOk, { filter := if Assoc.remove k s.pairs = [] then none else s.filter
               pairs := Assoc.remove k s.pairs })
  else (.mapKeyNotFound, s)

def call (A : Allocator) (t : Nat) (s : AbsMap) : Call → Resp × AbsMap
  | .add k v => let r := s.add A t k v; (.code r.1, r.2)
  | .addorupdate k v => let r := s.addorupdate A t k v; (.code r.1, r.2)
  | .delete k => let r := s.delete k; (.code r.1, r.2)
  | .containskey k => (.flag .mapOk (some (decide (k ∈ s.keys))), s)
  | .containsvalue v => (.flag .mapOk (some (decide (v ∈ s.values))), s)
  | .getvaluefromkey k => (.text (s.pairs.lookup k), s)

/-- The calls one after the other, every allocation granted. -/
def run (s : AbsMap) : List Call → List Resp × AbsMap
  | [] => ([], s)
  | c :: cs =>
    let r := s.call (Allocator.bump fun _ => true) 0 c
    let rs := r.2.run cs
    (r.1 :: rs.1, rs.2)

end AbsMap

/-! ## One call on an association list -/

/-- `AssocStep f ps r ps' c`: the call `c` on the pairs `ps` under the filter `f` answers `r` and
leaves `ps'`. An addition may answer `mapError` at any time; `AbsMap.call` says which allocation has
failed then. -/
def AssocStep (f : Option MapFilterCallback) (ps : List (CStr × CStr)) (r : Resp)
    (ps' : List (CStr × CStr)) : Call → Prop
  | .add k v =>
    if k ∈ ps.map Prod.fst then r = .code .mapKeyExists ∧ ps' = ps
    else if filterRejects f k v then r = .code .mapFilterReject ∧ ps' = ps
    else (r = .code .mapOk ∧ ps' = ps ++ [(k, v)]) ∨ (r = .code .mapError ∧ ps' = ps)
  | .addorupdate k v =>
    if filterRejects f k v then r = .code .mapFilterReject ∧ ps' = ps
    else if k ∈ ps.map Prod.fst then
      (r = .code .mapOk ∧ ∃ pre w post, ps = pre ++ (k, w) :: post ∧ ps' = pre ++ (k, v) :: post) ∨
        (r = .code .mapError ∧ ps' = ps)
    else (r = .code .mapOk ∧ ps' = ps ++ [(k, v)]) ∨ (r = .code .mapError ∧ ps' = ps)
  | .delete k =>
    if k ∈ ps.map Prod.fst then
      r = .code .mapOk ∧ ∃ pre w post, ps = pre ++ (k, w) :: post ∧ ps' = pre ++ post
    else r = .code .mapKeyNotFound ∧ ps' = ps
  | .containskey k => r = .flag .mapOk (some (decide (k ∈ ps.map Prod.fst))) ∧ ps' = ps
  | .containsvalue v => r = .flag .mapOk (some (decide (v ∈ ps.map Prod.snd))) ∧ ps' = ps
  | .getvaluefromkey k => r = .text (ps.lookup k) ∧ ps' = ps

end Sky.Map
