import SkySdk.Base.Interleave
import SkySdk.Base.RecMutex
import SkySdk.CriticalSection.Defs

/-!
# Threads in critical sections

The programs of `sky_critical_section.c` in any number of threads `ι` of one process, in the steps
of their requests. Four fields are what the callers know, and no step of a call reads them: `handed`
are the handles they have, `busy i` the handle of the call that thread `i` is in, `inside i p` how
often it has entered `p` without leaving it since, and `owed i` whether the `leave` that it is in is
one of those.
-/

set_option autoImplicit false

namespace Sky.CriticalSection

open Base

/-- A struct: whether its attributes are those of a recursive mutex, if they are initialised, and
its mutex, if that is. -/
structure Block (ι : Type) where
  header : SkyHandleCriticalSection
  attr : Option Bool
  mutex : Option (RecMutex ι)

structure World (ι : Type) where
  blocks : Addr → Option (Block ι)
  handed : Addr → Bool
  busy : ι → Addr
  inside : ι → Addr → Nat
  owed : ι → Nat

/-- How the environment answers: as it should, with a failure, or with an address. -/
inductive Choice
  | succeed
  | fail
  | place (p : Addr)
deriving DecidableEq, Repr

/-- How often a mutex can be locked: the count is an `unsigned int`. -/
def lockMax : Nat := 4294967295

namespace World

variable {ι : Type} [DecidableEq ι] (w : World ι) (i : ι) (p : Addr)

def setBlock (b : Option (Block ι)) : World ι := { w with blocks := Function.update w.blocks p b }

def setMutex (m : Option (RecMutex ι)) : World ι :=
  w.setBlock p ((w.blocks p).map fun b => { b with mutex := m })

def setAttr (a : Option Bool) : World ι :=
  w.setBlock p ((w.blocks p).map fun b => { b with attr := a })

def mutexAt : Option (RecMutex ι) := (w.blocks p).bind Block.mutex

def setHanded (r : Bool) : World ι := { w with handed := Function.update w.handed p r }

def setBusy (q : Addr) : World ι := { w with busy := Function.update w.busy i q }

def setOwed (n : Nat) : World ι := { w with owed := Function.update w.owed i n }

def setInside (n : Nat) : World ι :=
  { w with inside := Function.update w.inside i (Function.update (w.inside i) p n) }

end World

variable {ι : Type} [DecidableEq ι]

/-- A block of zeros, which is neither a mutex nor its attributes. -/
def zeroBlock : Block ι := { header := { cb := 0, type := 0 }, attr := none, mutex := none }

/-- One request of a thread. The functions that make and destroy a mutex and its attributes do not
fail on Linux, but for a mutex that is locked, which stays. Memory that is not what it should be has
no step. -/
def exec (b : Build) (i : ι) (o : Request) (x : Choice) (w : World ι) :
    Option (World ι × Option o.Reply) :=
  match o with
  | .alloc =>
    match x with
    | .place p =>
      match w.blocks p with
      | none => if p = 0 then none else some (w.setBlock p (some zeroBlock), some p)
      | some _ => none
    | _ => some (w, some 0)
  | .free p => (w.blocks p).map fun _ => (w.setBlock p none, some ())
  | .store p cs =>
    (w.blocks p).map fun block => (w.setBlock p (some { block with header := cs }), some ())
  | .attrInit p => (w.blocks p).map fun _ => (w.setAttr p (some false), some ())
  | .attrSettype p =>
    ((w.blocks p).bind Block.attr).map fun _ => (w.setAttr p (some true), some ())
  | .mutexInit p =>
    match (w.blocks p).bind Block.attr with
    | some true => some (w.setMutex p (some .free), some ())
    | _ => none
  | .mutexDestroy p =>
    (w.mutexAt p).map fun m =>
      if m = .free then (w.setMutex p none, some ()) else (w, some ())
  | .attrDestroy p => ((w.blocks p).bind Block.attr).map fun _ => (w.setAttr p none, some ())
  | .mutexLock p =>
    ((w.mutexAt p).bind (·.lock lockMax i)).map fun r =>
      (w.setMutex p (some r.1), some (if r.2 then 0 else 11))
  | .mutexUnlock p => (w.mutexAt p).map fun m => (w.setMutex p (some (m.unlock i)), some ())
  | .mutexTrylock p =>
    (w.mutexAt p).map fun m =>
      let r := m.trylock lockMax i
      (w.setMutex p (some r.1), some (if r.2 then 0 else 16))
  | .validate p =>
    if b.assertAborts = true ∧ ((w.blocks p).map fun block => block.header.type) ≠
      some SkyHandleType.criticalSection.code then none
    else some (w, some ())

/-! ## What the callers know -/

/-- The handle that a call is on; 0 for none. -/
def Call.handle : Call → Addr
  | .create => 0
  | .destroy p | .enter p | .leave p | .tryEnter p => p

/-- A call takes up its handle; a `leave` gives up an entry, and a `destroy` the handle. -/
def takeUp (i : ι) (c : Call) (w : World ι) : World ι :=
  if c.handle = 0 then w
  else match c with
    | .destroy p => w.setHanded p false
    | .leave p =>
      ((w.setInside i p (w.inside i p - 1)).setOwed i (min (w.inside i p) 1)).setBusy i p
    | c => w.setBusy i c.handle

/-- A call returns. -/
def putDown (i : ι) (c : Call) (r : Resp) (w : World ι) : World ι :=
  match c, r with
  | .create, .handle p => if p = 0 then w else w.setHanded p true
  | .enter p, _ => if p = 0 then w else (w.setInside i p (w.inside i p + 1)).setBusy i 0
  | .tryEnter p, .entered r =>
    if p = 0 then w
    else if r then (w.setInside i p (w.inside i p + 1)).setBusy i 0
    else w.setBusy i 0
  | _, _ => w.setBusy i 0

/-- The threads of a process. -/
def threads (ι : Type) [DecidableEq ι] (b : Build) :
    System ι (World ι) Request Request.Reply Call Resp Choice where
  body := call
  enter := takeUp
  exec := exec b
  leave := putDown

/-- Before the first call. -/
def World.start (ι : Type) : World ι :=
  { blocks := fun _ => none
    handed := fun _ => false
    busy := fun _ => 0
    inside := fun _ _ => 0
    owed := fun _ => 0 }

/-- A call is on a handle that the callers have. A section is not entered more often than a mutex
can be locked, and not destroyed while a thread is inside or in a call on it. -/
def InTurn (i : ι) (c : Call) (w : World ι) : Prop :=
  c.handle = 0 ∨ w.handed c.handle = true ∧
    match c with
    | .enter p | .tryEnter p => w.inside i p < lockMax
    | .destroy p => ∀ j, w.inside j p = 0 ∧ w.busy j ≠ p
    | _ => True

/-- No two threads are inside of one section. -/
def Excludes (w : World ι) : Prop :=
  ∀ i j p, i ≠ j → w.inside i p = 0 ∨ w.inside j p = 0

end Sky.CriticalSection
