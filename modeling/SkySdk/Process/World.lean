import SkySdk.Base.FileLock
import SkySdk.Base.Interleave
import SkySdk.Process.Defs

/-!
# Processes that look for a first instance

The programs of `sky_process.c` in any number of processes `κ`, in the steps of their requests. A
process may die at any of them, and then its descriptors are closed. A descriptor stands for the
open file behind it, and files are told apart by their inodes `I`. Nothing removes a pid file, so
that a path leads to the same one throughout (`Machine.inodeOf`); paths may lead to one file.

No step of a call reads `first`: the live processes that were told that they are the first instance,
each with the file it was told so for.
-/

set_option autoImplicit false

namespace Sky.Process

open Base

/-- The files of a machine; `null` is `/dev/null`. -/
structure Machine (I : Type) where
  pathMax : Nat
  inodeOf : List UInt8 → I
  null : I

structure World (κ I : Type) where
  opened : κ × Nat → Option I
  locks : List (FileLock (κ × Nat) I)
  alive : κ → Bool
  background : κ → Bool
  first : List (κ × I)

/-- How the environment answers: as it should, with a failure, with a descriptor, or with the text
that a failing `vsnprintf` leaves; or the process dies. -/
inductive Choice
  | succeed
  | fail
  | place (file : Nat)
  | text (left : List UInt8)
  | die
deriving DecidableEq, Repr

variable {κ I : Type} [DecidableEq κ]

namespace World

variable (w : World κ I) (k : κ)

def openAt (file : Nat) (inode : I) : World κ I :=
  { w with opened := Function.update w.opened (k, file) (some inode) }

def setLocks (locks : List (FileLock (κ × Nat) I)) : World κ I := { w with locks := locks }

/-- The descriptors `files` of a process are closed, and stand for `inode` then, if that is some. -/
def reopen (files : Nat → Bool) (inode : Option I) : World κ I :=
  { w with
    opened := fun f => if f.1 = k ∧ files f.2 then inode else w.opened f
    locks := w.locks.filter fun l => ¬ (l.file.1 = k ∧ files l.file.2) }

/-- `daemon( 0, 0 )` replaces the standard descriptors. The process goes on as its child, which has
the same open files. -/
def daemonise (null : I) : World κ I := w.reopen k (· < 3) (some null)

def die : World κ I :=
  { w.reopen k (fun _ => true) none with
    alive := Function.update w.alive k false
    first := w.first.filter (·.1 ≠ k) }

def setBackground : World κ I := { w with background := Function.update w.background k true }

def setFirst (inode : I) : World κ I := { w with first := (k, inode) :: w.first }

end World

variable [DecidableEq I] (M : Machine I)

/-- The file of a name. -/
def Machine.pidFile (name : CStr) : I := M.inodeOf (pidFileName M.pathMax name)

/-- `flock` with `LOCK_EX | LOCK_NB`. -/
def World.flock (w : World κ I) (k : κ) (file : Nat) : World κ I × Int :=
  match w.opened (k, file) with
  | none => (w, -1)
  | some inode =>
    if FileLock.Free w.locks (k, file) inode .exclusive then
      (w.setLocks (FileLock.grant w.locks (k, file) inode .exclusive), 0)
    else (w, -1)

/-- The answer to a request. System calls may fail for reasons of their own. -/
def answer (k : κ) (o : Request) (x : Choice) (w : World κ I) : Option (World κ I × o.Reply) :=
  match o with
  | .print name =>
    match x with
    | .text left => some (w, (skyStrPrintf (M.pathMax + 1) pidFilePattern (withPid name) left).2)
    | _ => some (w, (skyStrPrintf (M.pathMax + 1) pidFilePattern (withPid name) []).2)
  | .openFile path =>
    match x with
    | .place file =>
      if w.opened (k, file) = none then some (w.openAt k file (M.inodeOf path), some file)
      else none
    | _ => some (w, none)
  | .flock file => if x = .fail then some (w, -1) else some (w.flock k file)
  | .daemon => if x = .fail then some (w, -1) else some (w.daemonise k M.null, 0)
  | .setBackground => some (w.setBackground k, ())
  | .isBackground => some (w, w.background k)
  | .exit => none

/-- One request of a live process; one that it dies in is not answered. -/
def exec (k : κ) (o : Request) (x : Choice) (w : World κ I) :
    Option (World κ I × Option o.Reply) :=
  if w.alive k = false then none
  else if x = .die then some (w.die k, none)
  else (answer M k o x w).map fun r => (r.1, some r.2)

/-- A live process is told that it is the first instance. -/
def putDown (k : κ) (c : Call) (r : Bool) (w : World κ I) : World κ I :=
  match c with
  | .isFirstInstance name =>
    if r ∧ w.alive k then w.setFirst k (M.pidFile name) else w
  | _ => w

def processes : System κ (World κ I) Request Request.Reply Call Bool Choice where
  body := call
  enter _ _ w := w
  exec := exec M
  leave := putDown M

/-- Before the first call: a process has its standard descriptors, and may have others. -/
structure World.Starts (w : World κ I) : Prop where
  locks : w.locks = []
  first : w.first = []
  standard : ∀ k file, file < 3 → w.opened (k, file) ≠ none

/-- The file name of a name does not exceed an `int`. -/
def Takes (name : CStr) : Prop := pidFilePattern.length + (withPid name).length ≤ intMax

def MayCall (k : κ) (c : Call) (w : World κ I) : Prop :=
  w.alive k = true ∧ match c with
    | .isFirstInstance name => Takes name
    | _ => True

/-- At most one live process has been told that it is the first instance of a file, and once. -/
def Unique (w : World κ I) : Prop := (w.first.map Prod.snd).Nodup

end Sky.Process
