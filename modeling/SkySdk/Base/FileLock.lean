import Mathlib.Data.List.Basic

/-!
# Advisory locks of open files

The lock table of a kernel with `flock` locks: a lock is held by an open file `D`, not by who uses
it, and is on the inode `I` the file was opened on. `grant` converts whatever lock the file held
before, so only the locks of other files stand in its way (`Free`). `Compatible` is what a table
keeps: the locks of two files on one inode are both shared.
-/

set_option autoImplicit false

namespace Base

inductive LockMode
  | shared
  | exclusive
deriving DecidableEq, Repr

structure FileLock (D I : Type) where
  file : D
  inode : I
  mode : LockMode
deriving DecidableEq, Repr

namespace FileLock

variable {D I : Type}

/-- No two open files have locks on one inode, unless both are shared. -/
def Compatible (locks : List (FileLock D I)) : Prop :=
  ∀ a ∈ locks, ∀ b ∈ locks, a.file ≠ b.file → a.inode = b.inode →
    a.mode = .shared ∧ b.mode = .shared

theorem compatible_nil : Compatible ([] : List (FileLock D I)) := by
  intro a ha
  cases ha

theorem Compatible.sublist {locks locks' : List (FileLock D I)} (h : Compatible locks)
    (hs : ∀ a ∈ locks', a ∈ locks) : Compatible locks' :=
  fun a ha b hb => h a (hs a ha) b (hs b hb)

variable [DecidableEq D] {locks : List (FileLock D I)} {file : D} {inode : I}
  {mode : LockMode} {a : FileLock D I}

/-- A lock of the file on the inode is compatible with those of the other files. -/
def Free (locks : List (FileLock D I)) (file : D) (inode : I) (mode : LockMode) : Prop :=
  ∀ a ∈ locks, a.file ≠ file → a.inode = inode → a.mode = .shared ∧ mode = .shared

instance [DecidableEq I] : Decidable (Free locks file inode mode) :=
  inferInstanceAs (Decidable (∀ a ∈ locks, _))

def release (locks : List (FileLock D I)) (file : D) : List (FileLock D I) :=
  locks.filter (·.file ≠ file)

def grant (locks : List (FileLock D I)) (file : D) (inode : I) (mode : LockMode) :
    List (FileLock D I) :=
  ⟨file, inode, mode⟩ :: release locks file

@[simp] theorem mem_release : a ∈ release locks file ↔ a ∈ locks ∧ a.file ≠ file := by
  simp [release]

@[simp] theorem mem_grant :
    a ∈ grant locks file inode mode ↔ a = ⟨file, inode, mode⟩ ∨ a ∈ locks ∧ a.file ≠ file := by
  simp [grant]

theorem Compatible.release (h : Compatible locks) : Compatible (release locks file) :=
  h.sublist fun _ ha => (mem_release.1 ha).1

theorem Compatible.grant (h : Compatible locks) (hfree : Free locks file inode mode) :
    Compatible (grant locks file inode mode) := by
  intro a ha b hb hne hinode
  rw [mem_grant] at ha hb
  cases ha with
  | inl ha =>
    subst ha
    cases hb with
    | inl hb =>
      subst hb
      exact absurd rfl hne
    | inr hb => exact (hfree b hb.1 hb.2 hinode.symm).symm
  | inr ha =>
    cases hb with
    | inl hb =>
      subst hb
      exact hfree a ha.1 ha.2 hinode
    | inr hb => exact h a ha.1 b hb.1 hne hinode

end FileLock

end Base
