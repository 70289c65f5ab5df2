import SkySdk.List.Defs

/-!
# The list as the heap has it

`Linked`: the representation invariant, in terms of walks over the links (`Dll.follow`). `seqOf`:
the data pointers that the walk from the head finds. `runPeak`: a run that keeps the largest count.
-/

set_option autoImplicit false

namespace Sky.LinkedList

open Base Base.Dll

/-- The item at `p`, if there is one. -/
def itemAt (h : Heap Block) : ItemPtr → Option SkyListItem
  | .null => none
  | .head l =>
    match h.get? l with
    | some (.list s) => some s.head
    | _ => none
  | .tail l =>
    match h.get? l with
    | some (.list s) => some s.tail
    | _ => none
  | .node a =>
    match h.get? a with
    | some (.item x) => some x
    | _ => none

def nextOf (h : Heap Block) (p : ItemPtr) : Option ItemPtr := (itemAt h p).map SkyListItem.next

def prevOf (h : Heap Block) (p : ItemPtr) : Option ItemPtr := (itemAt h p).map SkyListItem.prev

/-- The struct `s` at `l` links the nodes `live` both ways between its sentinels and the nodes
`pool` behind its `prealloc`. -/
structure Linked (h : Heap Block) (l : Addr) (m : UInt32) (s : SkyHandleList)
    (live pool : List Addr) : Prop where
  struct : h.get? l = some (.list s)
  forward : follow (nextOf h) (.head l) (s.count.toNat + 1) =
    some (live.map .node ++ [.tail l])
  backward : follow (prevOf h) (.tail l) (s.count.toNat + 1) =
    some (live.reverse.map .node ++ [.head l])
  spare : ∃ ptrs, follow (nextOf h) s.prealloc pool.length = some ptrs ∧
    s.prealloc :: ptrs = pool.map .node ++ [.null]
  nodup : (live ++ pool).Nodup
  headPrev : s.head.prev = .null
  tailNext : s.tail.next = .null
  maxSize : s.maxSize = m
  le : s.count ≤ m

/-- The data of the items from `p` on, up to the tail and at most `n` of them. -/
def dataFrom (h : Heap Block) (l : Addr) : ItemPtr → Nat → List Addr
  | _, 0 => []
  | p, n + 1 =>
    if p = .tail l then []
    else match itemAt h p with
      | none => []
      | some x => x.data :: dataFrom h l x.next n

/-- The sequence that the list stands for. -/
def seqOf (h : Heap Block) (l : Addr) : List Addr :=
  match nextOf h (.head l) with
  | none => []
  | some p => dataFrom h l p h.size

def poolEmpty (h : Heap Block) (l : Addr) : Bool :=
  match h.get? l with
  | some (.list s) => s.prealloc = .null
  | _ => true

/-- A pooled or newly allocated node is available. -/
def hasRoom (A : Allocator) (h : Heap Block) (l : Addr) : Bool :=
  !poolEmpty h l || A.grants h.time

/-- The largest count after any of the calls, and `peak`. -/
def runPeak (A : Allocator) (b : Build) (l : Addr) : List Call → Nat → ListM Nat
  | [], peak => pure peak
  | c :: cs, peak => do
    let _ ← call A b l c
    let n ← skyListSize b l
    runPeak A b l cs (max peak n.toNat)

/-- The block that a call of the allocator has handed out. -/
def granted : Event → Option Addr
  | .malloc a => if a = 0 then none else some a
  | .realloc _ a => if a = 0 then none else some a
  | .free _ => none

end Sky.LinkedList
