import SkySdk.Base.RecMutex
import SkySdk.Shm.World

/-!
# Threads that share the registry

The programs of `sky_ipc_shm.c` in any number of threads `ι` of one process. An operation on
`share_mem_list` takes two steps: it reads the list, and later writes what it has made of what it
read (`Shared.listOp`), so that an operation in between would be lost. What keeps others out is
`share_mem_list_cs`, a recursive mutex. `atomicThreads` are threads whose operations take one step.

No step of a call reads `live`: the handles that the callers have, from the return of the call that
made them to the start of a `destroy`.
-/

set_option autoImplicit false

namespace Sky.Shm

open Base

/-- A process and what its callers know. -/
structure Local where
  process : World Unit
  live : Addr → Bool

/-- `reading i` is the list that an operation of thread `i` has read. -/
structure Shared (ι : Type) where
  toLocal : Local
  mutex : RecMutex ι
  reading : ι → Option (List Addr)

namespace Local

variable (w : Local) (p : Addr)

def registry : List Addr := w.process.registry ()

def block : Option SkyHandleShareMem := w.process.blocks () p

def setLive (r : Bool) : Local := { w with live := Function.update w.live p r }

/-- One request, with the operations on the list in one step. -/
def exec (b : Build) (o : Request) (x : Choice) : Option (Local × Option o.Reply) :=
  (Shm.exec b () o x w.process).map fun r => ({ w with process := r.1 }, r.2)

/-- A `destroy` takes the handle from the callers. -/
def takeBack (c : Call) : Local :=
  match c with
  | .destroy p => w.setLive p false
  | _ => w

/-- The callers have a new handle, unless it is `SKY_INVALID_HANDLE`. -/
def handOut (c : Call) (r : Resp) : Local :=
  match c, r with
  | .destroy _, _ => w
  | _, .handle p => if p = 0 then w else w.setLive p true
  | _, _ => w

/-- After `sky_share_memory_init`. -/
def start : Local :=
  { process := World.start Unit
    live := fun _ => false }

end Local

/-- How often a mutex can be locked: the count is an `unsigned int`. -/
def lockMax : Nat := 4294967295

namespace Shared

variable {ι : Type} [DecidableEq ι] (s : Shared ι) (i : ι)

def onLocal (f : Local → Local) : Shared ι := { s with toLocal := f s.toLocal }

/-- An operation on the list reads it in a first step, and in a second one writes what it makes of
what it has read. -/
def listOp {α : Type} (op : Local → Option (Local × Option α)) :
    Option (Shared ι × Option α) :=
  match s.reading i with
  | none =>
    some ({ s with reading := Function.update s.reading i (some s.toLocal.registry) }, none)
  | some ps =>
    (op { s.toLocal with process := s.toLocal.process.setRegistry () ps }).map fun r =>
      ({ s with toLocal := r.1, reading := Function.update s.reading i none }, r.2)

def exec (b : Build) (i : ι) (o : Request) (x : Choice) (s : Shared ι) :
    Option (Shared ι × Option o.Reply) :=
  match o with
  | .enter => (s.mutex.lock lockMax i).map fun r => ({ s with mutex := r.1 }, some ())
  | .leave => some ({ s with mutex := s.mutex.unlock i }, some ())
  | .pushBack p => s.listOp i fun w => w.exec b (.pushBack p) x
  | .remove p => s.listOp i fun w => w.exec b (.remove p) x
  | o => (s.toLocal.exec b o x).map fun r => ({ s with toLocal := r.1 }, r.2)

def start (ι : Type) : Shared ι :=
  { toLocal := .start
    mutex := .free
    reading := fun _ => none }

end Shared

variable (ι : Type) [DecidableEq ι] (b : Build) (nameMax : Nat)

/-- Threads whose operations on the list take one step, whatever the section does. -/
def atomicThreads : System ι Local Request Request.Reply Call Resp Choice where
  body := call nameMax
  enter _ c w := w.takeBack c
  exec _ o x w := w.exec b o x
  leave _ c r w := w.handOut c r

/-- The threads of a process. -/
def threads : System ι (Shared ι) Request Request.Reply Call Resp Choice where
  body := call nameMax
  enter _ c s := s.onLocal (·.takeBack c)
  exec := Shared.exec b
  leave _ c r s := s.onLocal (·.handOut c r)

/-- A `destroy` is of a handle that the callers have, or of `SKY_INVALID_HANDLE`. -/
def OfLive {ι : Type} (_ : ι) (c : Call) (w : Local) : Prop :=
  ∀ p, c = .destroy p → p = 0 ∨ w.live p = true

end Sky.Shm
