import SkySdk.Base.Prog
import Mathlib.Algebra.Group.Nat.Defs
import Mathlib.Data.List.Basic

/-!
# Buffers and `int` indices

Reads and writes of an array at an index, and runs of writes, which fault outside of it, and the
increment of an `int` that is not negative, which faults when it overflows.
-/

set_option autoImplicit false

namespace Base

variable {α : Type} {xs pre post : List α} {x y : α} {i : Nat}

def readAt (xs : List α) (i : Nat) : Except Fault α :=
  match xs[i]? with
  | some x => .ok x
  | none => .error .outOfBounds

def writeAt (xs : List α) (i : Nat) (x : α) : Except Fault (List α) :=
  if i < xs.length then .ok (xs.set i x) else .error .outOfBounds

/-- Writes one behind the other, from `i` on. -/
def writeRun (xs : List α) (i : Nat) : List α → Except Fault (List α)
  | [] => .ok xs
  | y :: ys => do writeRun (← writeAt xs i y) (i + 1) ys

def intMax : Nat := 2147483647

/-- `i += k` of an `int`. -/
def addInt (i k : Nat) : Except Fault Nat :=
  if i + k ≤ intMax then .ok (i + k) else .error .overflow

/-- `i++` of an `int`. -/
def succInt (i : Nat) : Except Fault Nat := addInt i 1

theorem readAt_append (pre post : List α) (x : α) :
    readAt (pre ++ x :: post) pre.length = .ok x := by
  simp [readAt]

theorem readAt_of_get? (h : xs[i]? = some x) : readAt xs i = .ok x := by
  simp [readAt, h]

theorem writeAt_append (pre post : List α) (x y : α) :
    writeAt (pre ++ x :: post) pre.length y = .ok (pre ++ y :: post) := by
  simp [writeAt]

theorem writeRun_append : ∀ ys pre post : List α, ys.length ≤ post.length →
    writeRun (pre ++ post) pre.length ys = .ok (pre ++ ys ++ post.drop ys.length)
  | [], pre, post, _ => by
    rw [List.append_nil, List.length_nil, List.drop_zero, writeRun]
  | y :: ys, pre, post, h => by
    obtain ⟨x, post, rfl⟩ := List.exists_cons_of_ne_nil (List.ne_nil_of_length_pos
      (Nat.lt_of_lt_of_le (Nat.succ_pos _) h))
    have hrest := writeRun_append ys (pre ++ [y]) post (Nat.le_of_succ_le_succ h)
    rw [List.length_append, List.append_assoc, List.append_assoc, List.append_assoc] at hrest
    rw [writeRun, writeAt_append, List.append_assoc]
    exact hrest

theorem writeRun_outside : ∀ (ys xs : List α) (i : Nat), ys ≠ [] → xs.length < i + ys.length →
    writeRun xs i ys = .error .outOfBounds
  | [], _, _, hne, _ => absurd rfl hne
  | y :: ys, xs, i, _, h => by
    rw [writeRun, writeAt]
    by_cases hi : i < xs.length
    · rw [if_pos hi]
      rw [List.length_cons] at h
      have hne : ys ≠ [] := by
        rintro rfl
        rw [List.length_nil] at h
        omega
      exact writeRun_outside ys (xs.set i y) (i + 1) hne (by rw [List.length_set]; omega)
    · rw [if_neg hi]
      rfl

theorem addInt_of_le {k : Nat} (h : i + k ≤ intMax) : addInt i k = .ok (i + k) := if_pos h

theorem addInt_overflow {k : Nat} (h : intMax < i + k) : addInt i k = .error .overflow :=
  if_neg (Nat.not_le.2 h)

theorem succInt_of_lt (h : i < intMax) : succInt i = .ok (i + 1) := if_pos h

/-- A length of 32 bits. -/
theorem toNat_ofNat_of_lt {n : Nat} (h : n < 2 ^ 32) : (UInt32.ofNat n).toNat = n :=
  UInt32.toNat_ofNat_of_lt' h

@[simp] theorem ok_bind {α β : Type} (a : α) (f : α → Except Fault β) : (.ok a >>= f) = f a := rfl

theorem bind_ok {α β : Type} {x : Except Fault α} {f : α → Except Fault β} {b : β}
    (h : (x >>= f) = .ok b) : ∃ a, x = .ok a ∧ f a = .ok b := by
  cases x with
  | error e => cases h
  | ok a => exact ⟨a, rfl, h⟩

end Base
