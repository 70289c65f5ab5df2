import Mathlib.Data.Option.Basic

/-!
# Recursive mutexes

A mutex that its owner may lock again, up to `limit` times in all, and has to unlock as often.
`depth i` is how often party `i` has it locked: no two parties have a depth that is not 0
(`depth_exclusive`), and a party waits only for another's (`lock_eq_none`).
-/

set_option autoImplicit false

namespace Base

/-- `held i n`: party `i` has locked it once and then `n` times more. -/
inductive RecMutex (ι : Type)
  | free
  | held (owner : ι) (again : Nat)
deriving DecidableEq, Repr

namespace RecMutex

variable {ι : Type} [DecidableEq ι] {m m' : RecMutex ι} {limit : Nat} {i j : ι} {ok : Bool}

/-- `none` where the party has to wait, `false` where it has reached the limit. -/
def lock (limit : Nat) (i : ι) : RecMutex ι → Option (RecMutex ι × Bool)
  | free => some (held i 0, true)
  | held j n =>
    if j = i then
      if n + 1 < limit then some (held j (n + 1), true) else some (held j n, false)
    else none

/-- Another party's mutex is not waited for. -/
def trylock (limit : Nat) (i : ι) (m : RecMutex ι) : RecMutex ι × Bool :=
  (m.lock limit i).getD (m, false)

/-- The unlock of a party that does not have it locked is refused. -/
def unlock (i : ι) : RecMutex ι → RecMutex ι
  | free => free
  | held j 0 => if j = i then free else held j 0
  | held j (n + 1) => if j = i then held j n else held j (n + 1)

def depth (i : ι) : RecMutex ι → Nat
  | free => 0
  | held j n => if j = i then n + 1 else 0

theorem depth_exclusive (hij : i ≠ j) : m.depth i = 0 ∨ m.depth j = 0 := by
  cases m with
  | free => exact .inl rfl
  | held k n =>
    by_cases hi : k = i
    · exact .inr (if_neg fun hj => hij (hi.symm.trans hj))
    · exact .inl (if_neg hi)

theorem lock_eq_none : m.lock limit i = none ↔ ∃ j, j ≠ i ∧ m.depth j ≠ 0 := by
  cases m with
  | free => simp [lock, depth]
  | held k n =>
    by_cases hk : k = i
    · subst hk
      rw [lock, if_pos rfl]
      refine iff_of_false (by split <;> simp) ?_
      intro h
      obtain ⟨j, hj, hd⟩ := h
      exact hd (if_neg hj.symm)
    · rw [lock, if_neg hk]
      exact iff_of_true rfl ⟨k, hk, by simp [depth]⟩

/-- A lock that succeeds is one more of the party's, and it does below the limit. -/
theorem lock_depth (h : m.lock limit i = some (m', ok)) (hlimit : m.depth i < limit) :
    ok = true ∧ m'.depth i = m.depth i + 1 ∧ ∀ j, j ≠ i → m'.depth j = m.depth j := by
  cases m with
  | free =>
    cases h
    refine ⟨rfl, if_pos rfl, ?_⟩
    intro j hj
    exact if_neg hj.symm
  | held k n =>
    by_cases hk : k = i
    · subst hk
      rw [depth, if_pos rfl] at hlimit
      rw [lock, if_pos rfl, if_pos hlimit] at h
      cases h
      refine ⟨rfl, by simp [depth], ?_⟩
      intro j hj
      rw [depth, depth, if_neg hj.symm, if_neg hj.symm]
    · rw [lock, if_neg hk] at h
      cases h

theorem unlock_depth (i : ι) (m : RecMutex ι) :
    (m.unlock i).depth i = m.depth i - 1 ∧ ∀ j, j ≠ i → (m.unlock i).depth j = m.depth j := by
  cases m with
  | free => exact ⟨rfl, fun _ _ => rfl⟩
  | held k n =>
    by_cases hk : k = i
    · subst hk
      cases n with
      | zero =>
        rw [unlock, if_pos rfl]
        refine ⟨by simp [depth], ?_⟩
        intro j hj
        exact (if_neg hj.symm).symm
      | succ n =>
        rw [unlock, if_pos rfl]
        refine ⟨by simp [depth], ?_⟩
        intro j hj
        rw [depth, depth, if_neg hj.symm, if_neg hj.symm]
    · have hsame : (held k n).unlock i = held k n := by
        cases n <;> exact if_neg hk
      rw [hsame]
      refine ⟨?_, fun _ _ => rfl⟩
      rw [depth, if_neg hk]

/-- A try is a lock, or changes nothing and fails. -/
theorem trylock_cases (limit : Nat) (i : ι) (m : RecMutex ι) :
    m.lock limit i = some (m.trylock limit i) ∨
      m.lock limit i = none ∧ m.trylock limit i = (m, false) := by
  unfold trylock
  cases m.lock limit i with
  | none => exact .inr ⟨rfl, rfl⟩
  | some r => exact .inl rfl

theorem free_of_depth (h : ∀ i, m.depth i = 0) : m = free := by
  cases m with
  | free => rfl
  | held k n => exact absurd (h k) (by simp [depth])

end RecMutex

end Base
