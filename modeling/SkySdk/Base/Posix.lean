import Mathlib.Data.List.Basic
import Mathlib.Order.Defs.LinearOrder
import SkySdk.Base.Regexp

/-!
# The matches that POSIX takes

Of the longest matches the one whose parts are the longest, from left to right, where a part that
matches no characters is longer than none (`Tree.norms`, in lexicographic order). Trees of one
expression with the same norms are the same (`norms_injective`), so this is a `Rule` for whatever is
reported of a tree. `groupSpans` is what `regexec` reports: of each group its last match, and of the
groups in it those of that match.
-/

set_option autoImplicit false

namespace Base.Regexp

variable {α β : Type} {e : Regexp α} {t t' : Tree}

/-! ## The order -/

/-- One more than the width of each part, from left to right, and 0 for one that is not there. -/
def Tree.norms : Tree → List Nat
  | .empty => [1]
  | .char => [2]
  | .seq t u => (t.width + u.width + 1) :: (t.norms ++ u.norms)
  | .left t => (t.width + 1) :: t.norms
  | .right t => (t.width + 1) :: 0 :: t.norms
  | .starNil => [1, 0]
  | .starOnce t => (t.width + 1) :: t.norms
  | .starCons t u => (t.width + u.width + 1) :: (t.norms ++ u.norms)
  | .group _ t => (t.width + 1) :: t.norms

theorem Tree.norms_eq (t : Tree) : ∃ ns, t.norms = (t.width + 1) :: ns := by
  cases t <;> exact ⟨_, rfl⟩

/-- A tree is never taken for one that is not there. -/
theorem Tree.norms_ne_zero {r r' : List Nat} : t.norms ++ r ≠ 0 :: r' := by
  obtain ⟨ns, hns⟩ := t.norms_eq
  rw [hns]
  intro h
  cases h

theorem norms_parts {t u t' u' : Tree} {n n' : Nat} {r r' : List Nat}
    (h : n :: (t.norms ++ u.norms) ++ r = n' :: (t'.norms ++ u'.norms) ++ r') :
    t.norms ++ (u.norms ++ r) = t'.norms ++ (u'.norms ++ r') := by
  rw [← List.append_assoc, ← List.append_assoc]
  exact (List.cons.inj h).2

/-- The norms in front of any others say which tree of the expression it is. -/
def NormsTell (e : Regexp α) : Prop :=
  ∀ {t t' : Tree} {r r' : List Nat}, Fits e t → Fits e t' → t.norms ++ r = t'.norms ++ r' →
    t = t' ∧ r = r'

/-- By induction on the iterations of the first tree; the second one has the same width. -/
theorem normsTell_star (ih : NormsTell e) : NormsTell (.star e) := by
  intro t
  induction t with
  | starNil =>
    intro t' r r' _ ht' h
    cases t' with
    | starNil => exact ⟨rfl, (List.cons.inj (List.cons.inj h).2).2⟩
    | starOnce t' => exact absurd (List.cons.inj h).2.symm Tree.norms_ne_zero
    | starCons t' u' =>
      have hwidth := (List.cons.inj h).1
      have hpos := ht'.2.1
      omega
    | _ => exact ht'.elim
  | starOnce t =>
    intro t' r r' ht ht' h
    cases t' with
    | starNil => exact absurd (List.cons.inj h).2 Tree.norms_ne_zero
    | starOnce t' =>
      obtain ⟨rfl, hr⟩ := ih ht.1 ht'.1 (List.cons.inj h).2
      exact ⟨rfl, hr⟩
    | starCons t' u' =>
      have hwidth := (List.cons.inj h).1
      have hzero := ht.2
      have hpos := ht'.2.1
      omega
    | _ => exact ht'.elim
  | starCons t u _ ihu =>
    intro t' r r' ht ht' h
    have hpos := ht.2.1
    cases t' with
    | starNil =>
      have hwidth := (List.cons.inj h).1
      omega
    | starOnce t' =>
      have hwidth := (List.cons.inj h).1
      have hzero := ht'.2
      omega
    | starCons t' u' =>
      obtain ⟨rfl, hrest⟩ := ih ht.1 ht'.1 (norms_parts h)
      obtain ⟨rfl, hr⟩ := ihu ht.2.2 ht'.2.2 hrest
      exact ⟨rfl, hr⟩
    | _ => exact ht'.elim
  | _ => exact fun ht => ht.elim

theorem norms_injective (e : Regexp α) : NormsTell e := by
  induction e with
  | empty | bol | eol =>
    intro t t' r r' ht ht' h
    cases t with
    | empty =>
      cases t' with
      | empty => exact ⟨rfl, (List.cons.inj h).2⟩
      | _ => exact ht'.elim
    | _ => exact ht.elim
  | set p =>
    intro t t' r r' ht ht' h
    cases t with
    | char =>
      cases t' with
      | char => exact ⟨rfl, (List.cons.inj h).2⟩
      | _ => exact ht'.elim
    | _ => exact ht.elim
  | seq e f ihe ihf =>
    intro t t' r r' ht ht' h
    cases t with
    | seq t u =>
      cases t' with
      | seq t' u' =>
        obtain ⟨rfl, hrest⟩ := ihe ht.1 ht'.1 (norms_parts h)
        obtain ⟨rfl, hr⟩ := ihf ht.2 ht'.2 hrest
        exact ⟨rfl, hr⟩
      | _ => exact ht'.elim
    | _ => exact ht.elim
  | alt e f ihe ihf =>
    intro t t' r r' ht ht' h
    cases t with
    | left t =>
      cases t' with
      | left t' =>
        obtain ⟨rfl, hr⟩ := ihe ht ht' (List.cons.inj h).2
        exact ⟨rfl, hr⟩
      | right t' => exact absurd (List.cons.inj h).2 Tree.norms_ne_zero
      | _ => exact ht'.elim
    | right t =>
      cases t' with
      | left t' => exact absurd (List.cons.inj h).2.symm Tree.norms_ne_zero
      | right t' =>
        obtain ⟨rfl, hr⟩ := ihf ht ht' (List.cons.inj (List.cons.inj h).2).2
        exact ⟨rfl, hr⟩
      | _ => exact ht'.elim
    | _ => exact ht.elim
  | star e ih => exact normsTell_star ih
  | group k e ih =>
    intro t t' r r' ht ht' h
    cases t with
    | group k t =>
      cases t' with
      | group k' t' =>
        obtain ⟨rfl, ht⟩ := ht
        obtain ⟨rfl, ht'⟩ := ht'
        obtain ⟨rfl, hr⟩ := ih ht ht' (List.cons.inj h).2
        exact ⟨rfl, hr⟩
      | _ => exact ht'.elim
    | _ => exact ht.elim

/-- The tree whose norms come last is taken. -/
def posix (e : Regexp α) (report : Tree → β) : Rule e β where
  better t t' := t'.norms < t.norms
  report := report
  longer t t' hlt := by
    obtain ⟨ns, hns⟩ := t.norms_eq
    obtain ⟨ns', hns'⟩ := t'.norms_eq
    rw [hns, hns']
    exact .rel (Nat.succ_lt_succ hlt)
  tie t t' ht ht' h h' := by
    have heq : t.norms ++ [] = t'.norms ++ [] := by
      rw [le_antisymm (not_lt.1 h) (not_lt.1 h')]
    rw [(norms_injective e ht ht' heq).1]

/-! ## The groups -/

def hasGroup (k : Nat) : Regexp α → Bool
  | .empty => false
  | .set _ => false
  | .bol => false
  | .eol => false
  | .seq e f => e.hasGroup k || f.hasGroup k
  | .alt e f => e.hasGroup k || f.hasGroup k
  | .star e => e.hasGroup k
  | .group j e => j == k || e.hasGroup k

/-- The offsets of the groups after a match from `i` on; a group that takes part again forgets those
in it. -/
def Tree.spans : Tree → Regexp α → Nat → (Nat → Option (Nat × Nat)) → Nat → Option (Nat × Nat)
  | .group _ t, .group k e, i, g => t.spans e i fun n =>
      if n = k then some (i, i + t.width) else if e.hasGroup n then none else g n
  | .seq t u, .seq e f, i, g => u.spans f (i + t.width) (t.spans e i g)
  | .left t, .alt e _, i, g => t.spans e i g
  | .right t, .alt _ f, i, g => t.spans f i g
  | .starOnce t, .star e, i, g => t.spans e i g
  | .starCons t u, .star e, i, g => u.spans (.star e) (i + t.width) (t.spans e i g)
  | _, _, _, g => g

/-- The first `n` groups of a match, from its start on. -/
def groupSpans (n : Nat) (e : Regexp α) (t : Tree) : List (Option (Nat × Nat)) :=
  (List.range' 1 n).map (t.spans e 0 fun _ => none)

/-- `((a)|b)*` on `"ab"`: the outer group is the `b`, and the inner one is unset. -/
example : groupSpans 2 (.star (.group 1 (.alt (.group 2 (.set (· = 'a'))) (.set (· = 'b')))))
    (.starCons (.group 1 (.left (.group 2 .char))) (.starCons (.group 1 (.right .char)) .starNil)) =
      [some (1, 2), none] := by decide

end Base.Regexp
