import SkySdk.Base.Interleave
import SkySdk.Rwlock.Defs

/-!
# Threads and processes that share locks by name

The programs of `sky_rwlock.c` in any number of threads `ι` of any number of processes `κ`, in the
steps of their requests. The paths, the open files and their locks are the kernel's; blocks and
descriptors are a process's own, so `κ × Addr` is a handle and `κ × Nat` a descriptor, which stands
for the open file behind it. The number of a closed descriptor may be given out again.

Three fields are what the callers know, and no step of a call reads them. `handed` is the path of
each handle they have (`none` for a lock without a name), `user` the thread that is in a call on it
or holds its lock, and `holds i p` the lock that thread `i` got from its last call on `p`: a lock
call that has returned `true`, with no call of the thread on the handle since.
-/

set_option autoImplicit false

namespace Sky.Rwlock

open Base

inductive Block
  | lock (d : SkyHandleRwlock)
  | name
deriving DecidableEq, Repr

/-- A file that has been opened by a path; another file gets another inode. -/
structure OpenFile where
  path : List UInt8
  inode : Nat
deriving DecidableEq, Repr

structure World (ι κ : Type) where
  files : List UInt8 → Option Nat
  inodes : Nat
  opened : κ × Nat → Option OpenFile
  locks : List (FileLock (κ × Nat) Nat)
  blocks : κ × Addr → Option Block
  handed : κ × Addr → Option (Option (List UInt8))
  user : κ × Addr → Option ι
  holds : ι → Addr → Option LockMode

/-- How the environment answers: as it should, with a failure, with an address or a number, with the
text that a failing `vsnprintf` leaves, with a time, or, for `flock`, by taking the first step of a
conversion, which drops the lock there was. -/
inductive Choice
  | succeed
  | fail
  | place (a : Nat)
  | text (left : List UInt8)
  | tick (t : UInt32)
  | drop
deriving DecidableEq, Repr

namespace World

variable {ι κ : Type} [DecidableEq ι] [DecidableEq κ] (w : World ι κ) (i : ι) (h : κ × Addr)
  (f : κ × Nat)

def setBlock (b : Option Block) : World ι κ := { w with blocks := Function.update w.blocks h b }

def setFile (path : List UInt8) (inode : Option Nat) : World ι κ :=
  { w with files := Function.update w.files path inode }

def setHanded (x : Option (Option (List UInt8))) : World ι κ :=
  { w with handed := Function.update w.handed h x }

def setUser (u : Option ι) : World ι κ := { w with user := Function.update w.user h u }

def setHolds (p : Addr) (m : Option LockMode) : World ι κ :=
  { w with holds := Function.update w.holds i (Function.update (w.holds i) p m) }

def setLocks (locks : List (FileLock (κ × Nat) Nat)) : World ι κ := { w with locks := locks }

/-- `f` stands for a new open file without a lock. -/
def openAt (file : OpenFile) : World ι κ :=
  { w with opened := Function.update w.opened f (some file) }

/-- The open file is gone, with its lock. -/
def closeAt : World ι κ :=
  { w with opened := Function.update w.opened f none, locks := FileLock.release w.locks f }

/-- `open` with `O_CREAT | O_EXCL`, or without either. -/
def openFile (path : List UInt8) (create : Bool) : Option (World ι κ) :=
  match create, w.files path with
  | true, none =>
    some { (w.setFile path (some w.inodes)).openAt f ⟨path, w.inodes⟩ with inodes := w.inodes + 1 }
  | false, some inode => some (w.openAt f ⟨path, inode⟩)
  | _, _ => none

/-- A step of `flock`. It waits while another open file of the inode has a lock in the way; with
`LOCK_NB` it fails then. -/
def flock (mode : Option LockMode) (nonBlocking : Bool) : Option (World ι κ × Option Int) :=
  match w.opened f, mode with
  | none, _ => some (w, some (-1))
  | some _, none => some (w.setLocks (FileLock.release w.locks f), some 0)
  | some file, some mode =>
    if FileLock.Free w.locks f file.inode mode then
      some (w.setLocks (FileLock.grant w.locks f file.inode mode), some 0)
    else if nonBlocking then some (w, some (-1))
    else none

/-- The file of a handle. -/
def fileOf : Option OpenFile :=
  match w.blocks h with
  | some (.lock d) => d.fdRwlock.bind fun fd => w.opened (h.1, fd)
  | _ => none

end World

variable {ι κ : Type} [DecidableEq ι] [DecidableEq κ]

/-- A block where none is, or NULL. -/
def allocate (k : κ) (b : Block) (x : Choice) (w : World ι κ) : Option (World ι κ × Option Addr) :=
  match x with
  | .place p =>
    if p ≠ 0 ∧ w.blocks (k, p) = none then some (w.setBlock (k, p) (some b), some p) else none
  | _ => some (w, some 0)

/-- The result of a function that returns 0 unless it fails. -/
def returns (x : Choice) : Int := if x = .fail then -1 else 0

/-- One request of a thread of process `k`. System calls may fail for reasons of their own. Memory
that is not what it should be has no step. -/
def exec (b : Build) (k : κ) (o : Request) (x : Choice) (w : World ι κ) :
    Option (World ι κ × Option o.Reply) :=
  match o with
  | .alloc => allocate k (.lock zeroRwlock) x w
  | .free p =>
    match w.blocks (k, p) with
    | some (.lock _) => some (w.setBlock (k, p) none, some ())
    | _ => none
  | .allocName _ => allocate k .name x w
  | .freeName p =>
    if w.blocks (k, p) = some .name then some (w.setBlock (k, p) none, some ()) else none
  | .store p d =>
    match w.blocks (k, p) with
    | some (.lock _) => some (w.setBlock (k, p) (some (.lock d)), some ())
    | _ => none
  | .load p =>
    match w.blocks (k, p) with
    | some (.lock d) => some (w, some d)
    | _ => none
  | .print size before name =>
    match x with
    | .text left => some (w, some (skyStrPrintf size before name left))
    | _ => some (w, some (skyStrPrintf size before name []))
  | .openFile path create =>
    match x with
    | .place fd =>
      if w.opened (k, fd) = none then
        match w.openFile (k, fd) path create with
        | some w => some (w, some (some fd))
        | none => some (w, some none)
      else none
    | _ => some (w, some none)
  | .close fd => some (w.closeAt (k, fd), some ())
  | .remove path => if x = .fail then some (w, some ()) else some (w.setFile path none, some ())
  | .flock fd mode nonBlocking =>
    match x with
    | .fail => some (w, some (-1))
    | .drop =>
      if mode = none then none else some (w.setLocks (FileLock.release w.locks (k, fd)), none)
    | _ => w.flock (k, fd) mode nonBlocking
  | .pthreadInit _ => some (w, some (returns x))
  | .pthreadDestroy _ => some (w, some (returns x))
  | .pthreadLock _ _ _ => some (w, some (returns x))
  | .pthreadUnlock _ => some (w, some (returns x))
  | .systickGet =>
    match x with
    | .tick t => if t = 0 then none else some (w, some t)
    | _ => none
  | .systickSleep _ => some (w, some ())
  | .rounds =>
    match x with
    | .place n => some (w, some n)
    | _ => none
  | .spin => none
  | .validate p =>
    if b.assertAborts = true ∧ (p = 0 ∨ w.blocks (k, p) = none) then none else some (w, some ())

/-! ## What the callers know -/

/-- The handle that a call is on; 0 for none. -/
def Call.handle : Call → Addr
  | .create _ | .open _ => 0
  | .wrlock p _ | .rdlock p _ | .unlock p | .destroy p => p

/-- A call on a handle gives up what the thread holds there, and a `destroy` the handle. -/
def takeUp (k : κ) (i : ι) (c : Call) (w : World ι κ) : World ι κ :=
  if c.handle = 0 then w
  else match c with
    | .destroy p => ((w.setHolds i p none).setUser (k, p) none).setHanded (k, p) none
    | _ => (w.setHolds i c.handle none).setUser (k, c.handle) (some i)

/-- The callers have a new handle, unless it is `SKY_INVALID_HANDLE`. -/
def handOut (k : κ) (path : Option (List UInt8)) (p : Addr) (w : World ι κ) : World ι κ :=
  if p = 0 then w else (w.setUser (k, p) none).setHanded (k, p) (some path)

/-- A lock call has returned. -/
def locked (k : κ) (i : ι) (p : Addr) (mode : LockMode) (r : Bool) (w : World ι κ) : World ι κ :=
  if p = 0 then w
  else if r then w.setHolds i p (some mode)
  else w.setUser (k, p) none

def putDown (nameMax : Nat) (k : κ) (i : ι) (c : Call) (r : Resp) (w : World ι κ) : World ι κ :=
  match c, r with
  | .create name, .handle p => handOut k (name.map (pathOf nameMax)) p w
  | .open name, .handle p => handOut k (name.map (pathOf nameMax)) p w
  | .wrlock p _, .locked r => locked k i p .exclusive r w
  | .rdlock p _, .locked r => locked k i p .shared r w
  | .unlock p, _ => if p = 0 then w else w.setUser (k, p) none
  | _, _ => w

/-- The threads, each of a process. -/
def threads (proc : ι → κ) (b : Build) (nameMax : Nat) :
    System ι (World ι κ) Request Request.Reply Call Resp Choice where
  body := call nameMax
  enter i := takeUp (proc i) i
  exec i := exec b (proc i)
  leave i := putDown nameMax (proc i) i

/-- Before the first call. -/
def World.start (ι κ : Type) : World ι κ :=
  { files := fun _ => none
    inodes := 0
    opened := fun _ => none
    locks := []
    blocks := fun _ => none
    handed := fun _ => none
    user := fun _ => none
    holds := fun _ _ => none }

/-- Of the locks two threads hold under one name, none is for writing. -/
def ExcludesByName (proc : ι → κ) (w : World ι κ) : Prop :=
  ∀ i j p q path m m', i ≠ j →
    w.handed (proc i, p) = some (some path) → w.handed (proc j, q) = some (some path) →
    w.holds i p = some m → w.holds j q = some m' → m = .shared ∧ m' = .shared

/-- Of the locks two threads hold on one file, none is for writing. -/
def ExcludesByFile (proc : ι → κ) (w : World ι κ) : Prop :=
  ∀ i j p q file m m', i ≠ j →
    w.fileOf (proc i, p) = some file → w.fileOf (proc j, q) = some file →
    w.holds i p = some m → w.holds j q = some m' → m = .shared ∧ m' = .shared

/-- The handles of a name are on files that were opened by its path. -/
def NamesFiles (w : World ι κ) : Prop :=
  ∀ h path, w.handed h = some (some path) → ∃ inode, w.fileOf h = some ⟨path, inode⟩

/-- A call on a handle that the callers have, and that no other thread is using. -/
def InTurn (proc : ι → κ) (i : ι) (c : Call) (w : World ι κ) : Prop :=
  c.handle = 0 ∨ w.handed (proc i, c.handle) ≠ none ∧
    (w.user (proc i, c.handle) = none ∨ w.user (proc i, c.handle) = some i)

end Sky.Rwlock
