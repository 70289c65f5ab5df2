import Mathlib.Logic.Basic

/-!
# Resources and who has them

`Assigned there has`: each resource that is there is had by exactly one party, and what is not there
by none. Resources and parties come in groups `κ` (the processes of a system, say), and a party has
resources of its own group only. It is kept when a new resource is given to one party, and when one
is given back.
-/

set_option autoImplicit false

namespace Base

variable {κ P R : Type}

structure Assigned (there : κ × R → Prop) (has : κ × P → R → Prop) : Prop where
  iff : ∀ k r, there (k, r) ↔ ∃ p, has (k, p) r
  once : ∀ k p q r, has (k, p) r → has (k, q) r → p = q

namespace Assigned

variable {there there' : κ × R → Prop} {has has' : κ × P → R → Prop} {k : κ} {p : P} {r : R}

theorem of_has (h : Assigned there has) (hp : has (k, p) r) : there (k, r) := (h.iff k r).2 ⟨p, hp⟩

theorem same (h : Assigned there has) (hthere : ∀ x, there' x ↔ there x)
    (hhas : ∀ y s, has' y s ↔ has y s) : Assigned there' has' := by
  refine ⟨?_, ?_⟩
  · intro k r
    rw [hthere, h.iff]
    exact exists_congr fun p => (hhas (k, p) r).symm
  · intro k p q r hp hq
    exact h.once k p q r ((hhas _ _).1 hp) ((hhas _ _).1 hq)

theorem add (h : Assigned there has) (hnew : ¬ there (k, r))
    (hthere : ∀ x, there' x ↔ there x ∨ x = (k, r))
    (hhas : ∀ y s, has' y s ↔ has y s ∨ y = (k, p) ∧ s = r) : Assigned there' has' := by
  refine ⟨?_, ?_⟩
  · intro k' r'
    rw [hthere]
    constructor
    · intro hx
      cases hx with
      | inl hx =>
        obtain ⟨q, hq⟩ := (h.iff k' r').1 hx
        exact ⟨q, (hhas _ _).2 (.inl hq)⟩
      | inr hx =>
        cases hx
        exact ⟨p, (hhas _ _).2 (.inr ⟨rfl, rfl⟩)⟩
    · intro hx
      obtain ⟨q, hq⟩ := hx
      cases (hhas _ _).1 hq with
      | inl hq => exact .inl (h.of_has hq)
      | inr hq =>
        cases hq.1
        exact .inr (by rw [hq.2])
  · intro k' q q' r' hq hq'
    rcases (hhas _ _).1 hq with hq | ⟨hq, rfl⟩
    · rcases (hhas _ _).1 hq' with hq' | ⟨hq', rfl⟩
      · exact h.once k' q q' r' hq hq'
      · cases hq'
        exact absurd (h.of_has hq) hnew
    · rcases (hhas _ _).1 hq' with hq' | ⟨hq', -⟩
      · cases hq
        exact absurd (h.of_has hq') hnew
      · cases hq
        cases hq'
        rfl

theorem remove (h : Assigned there has) (hp : has (k, p) r)
    (hthere : ∀ x, there' x ↔ there x ∧ x ≠ (k, r))
    (hhas : ∀ y s, has' y s ↔ has y s ∧ ¬ (y = (k, p) ∧ s = r)) : Assigned there' has' := by
  refine ⟨?_, ?_⟩
  · intro k' r'
    rw [hthere]
    constructor
    · intro hx
      obtain ⟨q, hq⟩ := (h.iff k' r').1 hx.1
      refine ⟨q, (hhas _ _).2 ⟨hq, ?_⟩⟩
      intro hc
      obtain ⟨hc, rfl⟩ := hc
      cases hc
      exact hx.2 rfl
    · intro hx
      obtain ⟨q, hq⟩ := hx
      obtain ⟨hq, hne⟩ := (hhas _ _).1 hq
      refine ⟨h.of_has hq, ?_⟩
      intro hc
      cases hc
      exact hne ⟨by rw [h.once k p q r hp hq], rfl⟩
  · intro k' q q' r' hq hq'
    exact h.once k' q q' r' ((hhas _ _).1 hq).1 ((hhas _ _).1 hq').1

end Assigned

end Base
