import SkySdk.Base.Prog

/-!
# C strings

`CStr` is the text of a NUL-terminated string. `CStr.cells` is the memory such a string fills and
`CStr.read` what reading from a run of cells up to the first NUL gives; an indeterminate cell or
the end of the run before a NUL is a fault.
-/

set_option autoImplicit false

namespace Base

/-- The characters of a string before its NUL. -/
@[ext] structure CStr where
  bytes : List UInt8
  noNul : 0 ∉ bytes
deriving DecidableEq, Repr

namespace CStr

def length (s : CStr) : Nat := s.bytes.length

def cons (c : UInt8) (hc : c ≠ 0) (s : CStr) : CStr :=
  ⟨c :: s.bytes, fun h => (List.mem_cons.1 h).elim (fun h => hc h.symm) s.noNul⟩

theorem noNul_a : (0 : UInt8) ∉ [97] := by decide

theorem noNul_replicate (n : Nat) : (0 : UInt8) ∉ List.replicate n 97 := fun hmem =>
  absurd (List.eq_of_mem_replicate hmem) (by decide)

/-- The characters and the NUL in memory. -/
def cells (s : CStr) : List (Option UInt8) := s.bytes.map some ++ [some 0]

/-- The string that starts at the first of `cells`. -/
def read : List (Option UInt8) → Except Fault CStr
  | [] => .error .outOfBounds
  | none :: _ => .error .indeterminate
  | some c :: rest =>
    if hc : c = 0 then .ok ⟨[], List.not_mem_nil⟩
    else match read rest with
      | .ok s => .ok (cons c hc s)
      | .error e => .error e

@[simp] theorem length_cells (s : CStr) : s.cells.length = s.length + 1 := by
  simp [cells, length]

theorem read_append (bs : List UInt8) (hb : 0 ∉ bs) (rest : List (Option UInt8)) :
    read (bs.map some ++ some 0 :: rest) = .ok ⟨bs, hb⟩ := by
  induction bs with
  | nil => simp [read]
  | cons c bs ih =>
    have hc : c ≠ 0 := fun h => hb (h ▸ List.mem_cons_self)
    have ih := ih fun h => hb (List.mem_cons_of_mem _ h)
    simp [read, hc, ih, cons]

@[simp] theorem read_cells (s : CStr) : read s.cells = .ok s := read_append s.bytes s.noNul []

end CStr

end Base
