import SkySdk.List.Defs

/-!
# What the list is for

A sequence of at most `cap` data pointers. `seqCall cap room xs c` answers the call `c` on the
sequence `xs` and gives the sequence after it; `room` says whether a node can be had, pooled or
newly allocated, and is looked at by additions only.
-/

set_option autoImplicit false

namespace Sky.LinkedList

open Base

/-- The pointer, NULL for none. -/
def orNull (p : Option Addr) : Addr := p.getD 0

/-- Put `d` at position `min i xs.length`. -/
def seqInsert (i : Nat) (d : Addr) (xs : List Addr) : List Addr :=
  xs.take (min i xs.length) ++ d :: xs.drop (min i xs.length)

/-- Drop the first element that satisfies `p`. -/
def seqRemove (p : Addr → Bool) : List Addr → List Addr
  | [] => []
  | x :: xs => if p x then xs else x :: seqRemove p xs

/-- An addition, when it fits and a node can be had. -/
def seqAdd (cap : Nat) (room : Bool) (xs xs' : List Addr) : Resp × List Addr :=
  if xs.length < cap ∧ room = true then (.bool true, xs') else (.bool false, xs)

def seqCall (cap : Nat) (room : Bool) (xs : List Addr) : Call → Resp × List Addr
  | .pushFront d => seqAdd cap room xs (d :: xs)
  | .pushBack d => seqAdd cap room xs (xs ++ [d])
  | .insert i d => seqAdd cap room xs (seqInsert i.toNat d xs)
  | .popFront => (.ptr (orNull xs.head?), xs.tail)
  | .popBack => (.ptr (orNull xs.getLast?), xs.dropLast)
  | .remove d => (.ptr (orNull (xs.find? (· == d))), seqRemove (· == d) xs)
  | .removeIf f p1 p2 => (.ptr (orNull (xs.find? (f · p1 p2))), seqRemove (f · p1 p2) xs)
  | .clear => (.unit, [])
  | .size => (.num xs.length, xs)
  | .maxSize => (.num cap, xs)
  | .full => (.bool (decide (xs.length = cap)), xs)
  | .empty => (.bool (decide (xs.length = 0)), xs)
  | .front => (.ptr (orNull xs.head?), xs)
  | .back => (.ptr (orNull xs.getLast?), xs)
  | .getAt i => (.ptr (orNull xs[i.toNat]?), xs)
  | .contain d => (.bool (decide (d ≠ 0 ∧ d ∈ xs)), xs)
  | .findIf f p1 p2 => (.ptr (orNull (xs.find? (f · p1 p2))), xs)

theorem seqCall_false {cap : Nat} {room : Bool} {xs : List Addr} {c : Call}
    (hr : (seqCall cap room xs c).1 = .bool false) : (seqCall cap room xs c).2 = xs := by
  have hadd : ∀ ys, (seqAdd cap room xs ys).1 = .bool false → (seqAdd cap room xs ys).2 = xs := by
    intro ys hr
    unfold seqAdd at hr ⊢
    by_cases hfit : xs.length < cap ∧ room = true
    · rw [if_pos hfit] at hr
      cases hr
    · rw [if_neg hfit]
  cases c with
  | pushFront d => exact hadd _ hr
  | pushBack d => exact hadd _ hr
  | insert i d => exact hadd _ hr
  | popFront => cases hr
  | popBack => cases hr
  | remove d => cases hr
  | removeIf f p1 p2 => cases hr
  | clear => cases hr
  | _ => rfl

end Sky.LinkedList
