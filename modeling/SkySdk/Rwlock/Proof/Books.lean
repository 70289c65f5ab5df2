import Mathlib.Tactic.ByContra
import SkySdk.Base.Assigned
import SkySdk.Rwlock.Proof.Stakes
import SkySdk.Rwlock.World

/-!
# Blocks, descriptors and locks against what is had

`own` says which structs there are, and what each has besides. `Books own w`: the blocks and the
open files of `w` are exactly those, each had once, and a lock is on a file that is open. It is kept
by each way in which a request gets or gives back something.
-/

set_option autoImplicit false

namespace Sky.Rwlock.Ledger

open Base

variable {ι κ : Type} {w w' : World ι κ} {own : κ × Addr → Option Holding} {h : κ × Addr} {k : κ}
  {p n : Addr} {fd : Nat} {name : Option Addr} {file : Option Nat}

/-- What the struct at `h` has; nothing if there is none. -/
def held (own : κ × Addr → Option Holding) (h : κ × Addr) : Holding := (own h).getD (none, none)

structure Books (own : κ × Addr → Option Holding) (w : World ι κ) : Prop where
  structs : ∀ h, (∃ d, w.blocks h = some (.lock d)) ↔ own h ≠ none
  names : Assigned (fun x => w.blocks x = some .name) fun h n => (held own h).1 = some n
  files : Assigned (fun x => w.opened x ≠ none) fun h fd => (held own h).2 = some fd
  locks : ∀ a ∈ w.locks, w.opened a.file ≠ none

theorem held_eq {x : Holding} (hown : own h = some x) : held own h = x := by
  rw [held, hown, Option.getD_some]

theorem Books.block (B : Books own w) {x : Holding} (hown : own h = some x) :
    ∃ d, w.blocks h = some (.lock d) := (B.structs h).2 (by simp [hown])

theorem Books.own_none (B : Books own w) (hb : w.blocks h = none) : own h = none := by
  by_contra hc
  obtain ⟨d, hd⟩ := (B.structs h).2 hc
  rw [hb] at hd
  cases hd

theorem Books.same (B : Books own w) (hb : w'.blocks = w.blocks) (ho : w'.opened = w.opened)
    (hl : ∀ a ∈ w'.locks, w.opened a.file ≠ none) : Books own w' where
  structs h := by
    rw [hb]
    exact B.structs h
  names := B.names.same (fun x => by rw [hb]) fun _ _ => Iff.rfl
  files := B.files.same (fun x => by rw [ho]) fun _ _ => Iff.rfl
  locks a ha := by
    rw [ho]
    exact hl a ha

variable [DecidableEq κ]

theorem held_update (x : Option Holding) (y : κ × Addr) :
    held (Function.update own h x) y = if y = h then x.getD (none, none) else held own y := by
  unfold held
  by_cases hy : y = h
  · subst hy
    rw [Function.update_self, if_pos rfl]
  · rw [Function.update_of_ne hy, if_neg hy]

section
variable {R : Type} {f : Holding → Option R} {x y : Holding} {r : R}

theorem held_keep (hown : own h = some x) (hf : f y = f x) (h' : κ × Addr) (s : R) :
    f (held (Function.update own h (some y)) h') = some s ↔ f (held own h') = some s := by
  rw [held_update]
  by_cases hh : h' = h
  · rw [if_pos hh, hh, held_eq hown, Option.getD_some, hf]
  · rw [if_neg hh]

theorem held_add (hown : own h = some x) (hx : f x = none) (hy : f y = some r) (h' : κ × Addr)
    (s : R) :
    f (held (Function.update own h (some y)) h') = some s ↔
      f (held own h') = some s ∨ h' = h ∧ s = r := by
  rw [held_update]
  by_cases hh : h' = h
  · subst hh
    simp [held_eq hown, hx, hy, eq_comm]
  · simp [hh]

theorem held_remove (hown : own h = some x) (hx : f x = some r) (hy : f y = none) (h' : κ × Addr)
    (s : R) :
    f (held (Function.update own h (some y)) h') = some s ↔
      f (held own h') = some s ∧ ¬ (h' = h ∧ s = r) := by
  rw [held_update]
  by_cases hh : h' = h
  · subst hh
    simp [held_eq hown, hx, hy, eq_comm]
  · simp [hh]

end

/-- A struct is made, written or given back, without a change of what it has. -/
theorem Books.setStruct (B : Books own w) {v : Option Block} {x : Option Holding}
    (hold : w.blocks h ≠ some .name) (hnew : v ≠ some .name)
    (hv : (∃ d, v = some (.lock d)) ↔ x ≠ none) (hx : x.getD (none, none) = held own h) :
    Books (Function.update own h x) (w.setBlock h v) := by
  have hheld : ∀ y, held (Function.update own h x) y = held own y := by
    intro y
    rw [held_update]
    split
    · next hy => rw [hx, hy]
    · rfl
  refine ⟨?_, B.names.same ?_ fun y s => by rw [hheld], B.files.same (fun _ => Iff.rfl)
    fun y s => by rw [hheld], B.locks⟩
  · intro y
    unfold World.setBlock
    by_cases hy : y = h
    · subst hy
      simpa only [Function.update_self] using hv
    · simpa only [Function.update_of_ne hy] using B.structs y
  · intro y
    unfold World.setBlock
    by_cases hy : y = h
    · subst hy
      simp only [Function.update_self]
      exact iff_of_false hnew hold
    · simp only [Function.update_of_ne hy]

/-- The struct at `h` is another value of what it has; the rest is as it was. -/
theorem Books.structs_update (B : Books own w) {x y : Holding} (hown : own h = some x)
    (hb : ∀ h', (∃ d, w'.blocks h' = some (.lock d)) ↔ ∃ d, w.blocks h' = some (.lock d))
    (h' : κ × Addr) :
    (∃ d, w'.blocks h' = some (.lock d)) ↔ Function.update own h (some y) h' ≠ none := by
  rw [hb, B.structs]
  by_cases hh : h' = h
  · subst hh
    simp [hown]
  · rw [Function.update_of_ne hh]

theorem locks_setBlock {v : Option Block} (hold : ∀ d, w.blocks h ≠ some (.lock d))
    (hnew : ∀ d, v ≠ some (.lock d)) (h' : κ × Addr) :
    (∃ d, (w.setBlock h v).blocks h' = some (.lock d)) ↔ ∃ d, w.blocks h' = some (.lock d) := by
  unfold World.setBlock
  by_cases hh : h' = h
  · subst hh
    simp only [Function.update_self]
    exact iff_of_false (fun hc => hnew _ hc.choose_spec) fun hc => hold _ hc.choose_spec
  · simp only [Function.update_of_ne hh]

theorem Books.giveName (B : Books own w) (hnone : w.blocks (k, n) = none)
    (hown : own (k, p) = some (none, file)) :
    Books (Function.update own (k, p) (some (some n, file))) (w.setBlock (k, n) (some .name)) := by
  refine ⟨B.structs_update hown (locks_setBlock (by simp [hnone]) (by simp)),
    B.names.add (p := p) (show ¬ w.blocks (k, n) = some .name by simp [hnone]) ?_
      (held_add (f := Prod.fst) hown rfl rfl),
    B.files.same (fun _ => Iff.rfl) (held_keep (f := Prod.snd) hown rfl), B.locks⟩
  intro x
  unfold World.setBlock
  by_cases hx : x = (k, n)
  · subst hx
    simp
  · simp [hx]

theorem Books.takeName (B : Books own w) (hown : own (k, p) = some (some n, file)) :
    Books (Function.update own (k, p) (some (none, file))) (w.setBlock (k, n) none) := by
  have hheld : (held own (k, p)).1 = some n := by rw [held_eq hown]
  have hname : w.blocks (k, n) = some .name := B.names.of_has hheld
  refine ⟨B.structs_update hown (locks_setBlock (by simp [hname]) (by simp)),
    B.names.remove hheld ?_ (held_remove (f := Prod.fst) hown rfl rfl),
    B.files.same (fun _ => Iff.rfl) (held_keep (f := Prod.snd) hown rfl), B.locks⟩
  intro x
  unfold World.setBlock
  by_cases hx : x = (k, n)
  · subst hx
    simp
  · simp [hx]

theorem Books.openFile (B : Books own w) (f : OpenFile) (hnone : w.opened (k, fd) = none)
    (hown : own (k, p) = some (name, none)) (hb : w'.blocks = w.blocks)
    (ho : w'.opened = Function.update w.opened (k, fd) (some f)) (hl : w'.locks = w.locks) :
    Books (Function.update own (k, p) (some (name, some fd))) w' := by
  have hthere : ∀ x, w'.opened x ≠ none ↔ w.opened x ≠ none ∨ x = (k, fd) := by
    intro x
    rw [ho]
    by_cases hx : x = (k, fd)
    · subst hx
      simp
    · simp [hx]
  refine ⟨B.structs_update hown fun h' => by rw [hb],
    B.names.same (fun x => by rw [hb]) (held_keep (f := Prod.fst) hown rfl),
    B.files.add (p := p) (not_not.2 hnone) hthere (held_add (f := Prod.snd) hown rfl rfl), ?_⟩
  intro a ha
  exact (hthere a.file).2 (.inl (B.locks a (hl ▸ ha)))

theorem Books.closeAt (B : Books own w) (hown : own (k, p) = some (name, some fd)) :
    Books (Function.update own (k, p) (some (name, none))) (w.closeAt (k, fd)) := by
  have hheld : (held own (k, p)).2 = some fd := by rw [held_eq hown]
  have hthere : ∀ x, (w.closeAt (k, fd)).opened x ≠ none ↔ w.opened x ≠ none ∧ x ≠ (k, fd) := by
    intro x
    unfold World.closeAt
    by_cases hx : x = (k, fd)
    · subst hx
      simp
    · simp [hx]
  refine ⟨B.structs_update hown fun _ => Iff.rfl,
    B.names.same (fun _ => Iff.rfl) (held_keep (f := Prod.fst) hown rfl),
    B.files.remove hheld hthere (held_remove (f := Prod.snd) hown rfl rfl), ?_⟩
  intro a ha
  obtain ⟨ha, hne⟩ := FileLock.mem_release.1 ha
  exact (hthere a.file).2 ⟨B.locks a ha, hne⟩

end Sky.Rwlock.Ledger
