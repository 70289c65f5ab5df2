import SkySdk.Map.Defs

/-!
# Any number of maps

`World`: the heap with the handles that are live, that is returned by `sky_map_create` or
`sky_map_clone` and not destroyed yet. `World.step` is one operation of a program on one of them.
`ownBlocks h m` lists the addresses of the blocks of `m` as the heap `h` has them, and `MapShape`
is the shape of its struct and arrays.
-/

set_option autoImplicit false

namespace Sky.Map

open Base

structure World where
  heap : Heap Block
  live : List Addr

def World.empty : World := ⟨Heap.empty, []⟩

inductive Op
  | create (f : Option MapFilterCallback)
  | call (m : Addr) (c : Call)
  | clone (m : Addr)
  | destroy (m : Addr)

/-- The handle an operation is called with is live. -/
def Op.Valid (w : World) : Op → Prop
  | .create _ => True
  | .call m _ | .clone m | .destroy m => m ∈ w.live

/-- Run a function on the heap and register its effect on the live handles. -/
def onHeap {α : Type} (x : MapM α) (upd : α → List Addr → List Addr) : Prog World Unit := fun w =>
  match x w.heap with
  | .ok (a, h) => .ok ((), ⟨h, upd a w.live⟩)
  | .error e => .error e

/-- A handle returned by `sky_map_create` or `sky_map_clone`, unless it is NULL. -/
def register (m : Addr) (live : List Addr) : List Addr := if m = 0 then live else m :: live

def World.step (A : Allocator) : Op → Prog World Unit
  | .create f => onHeap (skyMapCreate A f) register
  | .call m c => onHeap (Sky.Map.call A m c) fun _ live => live
  | .clone m => onHeap (skyMapClone A m) register
  | .destroy m => onHeap (skyMapDestroy m) fun _ live => live.erase m

/-- The pointers in the first `n` cells of the array at `arr`. -/
def slotAddrs (h : Heap Block) (arr : Addr) (n : Nat) : List Addr :=
  match h.get? arr with
  | some (.ptrs cells) => (cells.take n).filterMap id
  | _ => []

/-- The struct of `m`; with pairs, also its two arrays and the strings in their first `count`
cells. -/
def ownBlocks (h : Heap Block) (m : Addr) : List Addr :=
  match h.get? m with
  | some (.map d) =>
    if d.count = 0 then [m]
    else m :: d.keys :: d.values :: (slotAddrs h d.keys d.count ++ slotAddrs h d.values d.count)
  | _ => []

/-- `arr` is an array with room for `n` pointers, the first `n` of them to strings. -/
def ArrayShape (h : Heap Block) (arr : Addr) (n : Nat) : Prop :=
  ∃ cells, h.get? arr = some (.ptrs cells) ∧ n ≤ cells.length ∧
    ∀ i < n, ∃ a s, cells[i]? = some (some a) ∧ a ≠ 0 ∧ h.get? a = some (.chars (CStr.cells s))

/-- `m` is a map whose arrays exist exactly when it has pairs, with one string per pair in each. -/
def MapShape (h : Heap Block) (m : Addr) : Prop :=
  ∃ d, h.get? m = some (.map d) ∧ (d.keys = 0 ↔ d.values = 0) ∧ (d.values = 0 ↔ d.count = 0) ∧
    (ownBlocks h m).length = (if d.count = 0 then 1 else 3 + 2 * d.count) ∧
    (d.count ≠ 0 → ArrayShape h d.keys d.count ∧ ArrayShape h d.values d.count)

end Sky.Map
