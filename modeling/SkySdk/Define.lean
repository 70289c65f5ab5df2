import SkySdk.Base.Prog

/-!
# `sky_define.h` and `sky_debug.h`

The handle types, and what is fixed when the library is compiled.
-/

set_option autoImplicit false

namespace Sky

open Base

inductive SkyHandleType
  | criticalSection
  | list
  | rwlock
  | shareMemory
  | timer
  | regex
  | hash
  | dll
  | map
deriving DecidableEq, Repr

/-- The enumerator's value. -/
def SkyHandleType.code : SkyHandleType → UInt16
  | .criticalSection => 1
  | .list => 2
  | .rwlock => 3
  | .shareMemory => 4
  | .timer => 5
  | .regex => 6
  | .hash => 7
  | .dll => 8
  | .map => 9

/-- `SKY_LIST_PREALLOC_NUM`, and whether a failing `SKY_ASSERT` aborts: it does with `DEBUG` and
`running_unit_test` false; without `DEBUG` the macro evaluates nothing. -/
structure Build where
  preallocNum : Nat
  assertAborts : Bool
deriving DecidableEq, Repr

/-- `SKY_ASSERT(cond)`; `cond` is evaluated only where it matters. -/
def skyAssert {σ : Type} (b : Build) (cond : Prog σ Bool) : Prog σ Unit :=
  if b.assertAborts then do
    if ← cond then pure () else fault .aborted
  else pure ()

/-- An assertion whose condition only reads changes nothing, or it stops the program. -/
theorem skyAssert_cases {σ : Type} {b : Build} {cond : Prog σ Bool} {s : σ}
    (hc : Returns cond s fun _ s' => s' = s) :
    skyAssert b cond s = .ok ((), s) ∨
      b.assertAborts = true ∧ ∃ e, skyAssert b cond s = .error e := by
  unfold skyAssert
  cases hb : b.assertAborts with
  | false => exact .inl (by simp)
  | true =>
    rw [if_pos rfl, bind_apply]
    cases hx : cond s with
    | error e => exact .inr ⟨rfl, e, rfl⟩
    | ok r =>
      obtain ⟨ok, s'⟩ := r
      have hs : s' = s := hc ok s' hx
      cases ok with
      | false => exact .inr ⟨rfl, .aborted, rfl⟩
      | true => exact .inl (by rw [hs]; rfl)

end Sky
