import SkySdk.Base.Interleave
import SkySdk.Shm.Defs

/-!
# Processes that share memory by name

The programs of `sky_ipc_shm.c` in any number of processes `ι`, in the steps of their requests. The
names, the objects and their sizes are the kernel's; the blocks and the registry are each process's
own. A descriptor is the open file it stands for, so that its number is not used again, and the
object behind it is found in `opened`; a mapping is only its result.

`handed i p` is what the callers of process `i` know: the name and the object of a handle that a
`create` has returned and that has not been given to a `destroy` since.
-/

set_option autoImplicit false

namespace Sky.Shm

open Base

structure World (ι : Type) where
  names : List UInt8 → Option Nat
  sizes : Nat → Nat
  objects : Nat
  opened : List Nat
  blocks : ι → Addr → Option SkyHandleShareMem
  registry : ι → List Addr
  handed : ι → Addr → Option (List UInt8 × Nat)

/-- How the environment answers: as it should, with a failure, with an address, or with the text
that a failing `vsnprintf` leaves. -/
inductive Choice
  | succeed
  | fail
  | place (a : Addr)
  | text (left : List UInt8)
deriving DecidableEq, Repr

namespace World

variable {ι : Type} [DecidableEq ι] (w : World ι) (i : ι)

def setBlock (p : Addr) (sm : Option SkyHandleShareMem) : World ι :=
  { w with blocks := Function.update w.blocks i (Function.update (w.blocks i) p sm) }

def setRegistry (ps : List Addr) : World ι :=
  { w with registry := Function.update w.registry i ps }

def setName (name : List UInt8) (object : Option Nat) : World ι :=
  { w with names := Function.update w.names name object }

def setHanded (p : Addr) (x : Option (List UInt8 × Nat)) : World ι :=
  { w with handed := Function.update w.handed i (Function.update (w.handed i) p x) }

/-- A new descriptor of an object. -/
def openObject (object : Nat) : World ι := { w with opened := w.opened ++ [object] }

/-- A new object of size 0 under a name. -/
def makeObject (name : List UInt8) : World ι :=
  { w.setName name (some w.objects) with
    sizes := Function.update w.sizes w.objects 0
    objects := w.objects + 1 }

/-- The descriptor -1 and the object of an open one. -/
def objectOf (file : Option Nat) : Option Nat := file.bind fun fd => w.opened[fd]?

def shmOpen (name : List UInt8) (create : Bool) : World ι × Option Nat :=
  match create, w.names name with
  | true, none => ((w.makeObject name).openObject w.objects, some w.opened.length)
  | true, some _ => (w, none)
  | false, some object => (w.openObject object, some w.opened.length)
  | false, none => (w, none)

def ftruncate (file : Nat) (size : UInt32) : World ι × Bool :=
  match w.opened[file]? with
  | some object => ({ w with sizes := Function.update w.sizes object size.toNat }, true)
  | none => (w, false)

def fstat (file : Nat) : Option Nat := (w.opened[file]?).map w.sizes

end World

/-- One request of process `i`. System calls may fail for reasons of their own; the allocator may
refuse and puts a block where none is; `mmap` of length 0 fails; the registry takes at most
`maxShareMemCount` handles and may fail to allocate a node. -/
def exec {ι : Type} [DecidableEq ι] (b : Build) (i : ι) (o : Request) (x : Choice) (w : World ι) :
    Option (World ι × Option o.Reply) :=
  match o with
  | .alloc =>
    match x with
    | .place p =>
      if p ≠ 0 ∧ w.blocks i p = none then some (w.setBlock i p (some zeroShareMem), some p)
      else none
    | _ => some (w, some 0)
  | .free p => some (w.setBlock i p none, some ())
  | .store p sm => some (w.setBlock i p (some sm), some ())
  | .load p => (w.blocks i p).map fun sm => (w, some sm)
  | .print size before name =>
    match x with
    | .text left => some (w, some (skyStrPrintf size before name left))
    | _ => some (w, some (skyStrPrintf size before name []))
  | .shmOpen name create =>
    if x = .fail then some (w, some none)
    else some ((w.shmOpen name create).1, some (w.shmOpen name create).2)
  | .ftruncate file size =>
    if x = .fail then some (w, some false)
    else some ((w.ftruncate file size).1, some (w.ftruncate file size).2)
  | .fstat file => if x = .fail then some (w, some none) else some (w, some (w.fstat file))
  | .mmap length file =>
    match x with
    | .place a =>
      if length = 0 ∨ w.opened[file]? = none then some (w, some none) else some (w, some (some a))
    | _ => some (w, some none)
  | .munmap _ _ => some (w, some ())
  | .close _ => some (w, some ())
  | .shmUnlink name =>
    if x = .fail then some (w, some ()) else some (w.setName name none, some ())
  | .enter => some (w, some ())
  | .leave => some (w, some ())
  | .pushBack p =>
    if (w.registry i).length < maxShareMemCount ∧ x ≠ .fail then
      some (w.setRegistry i (w.registry i ++ [p]), some true)
    else some (w, some false)
  | .remove p =>
    if p ∈ w.registry i then some (w.setRegistry i ((w.registry i).erase p), some p)
    else some (w, some 0)
  | .validate p =>
    if b.assertAborts = true ∧ (p = 0 ∨ w.blocks i p = none) then none else some (w, some ())
  | .assertFalse => if b.assertAborts then none else some (w, some ())

/-- A `destroy` takes the handle back from the callers when it starts. -/
def takeBack {ι : Type} [DecidableEq ι] (i : ι) (c : Call) (w : World ι) : World ι :=
  match c with
  | .destroy p => w.setHanded i p none
  | _ => w

/-- A `create` that does not return `SKY_INVALID_HANDLE` hands out the handle. -/
def handOut {ι : Type} [DecidableEq ι] (i : ι) (c : Call) (r : Resp) (w : World ι) : World ι :=
  match c, r with
  | .create (some name) _, .handle p =>
    if p = 0 then w
    else w.setHanded i p (((w.blocks i p).bind fun sm => w.objectOf sm.file).map fun object =>
      (formatted nameSize shareMemNamePattern name, object))
  | _, _ => w

/-- The processes. -/
def processes (ι : Type) [DecidableEq ι] (b : Build) (nameMax : Nat) :
    System ι (World ι) Request Request.Reply Call Resp Choice where
  body := call nameMax
  enter := takeBack
  exec := exec b
  leave := handOut

/-- Before the first call. -/
def World.start (ι : Type) : World ι :=
  { names := fun _ => none
    sizes := fun _ => 0
    objects := 0
    opened := []
    blocks := fun _ _ => none
    registry := fun _ => []
    handed := fun _ _ => none }

/-- Every handle handed out by a `create` has its name bound to its object. -/
def NamesBound {ι : Type} (w : World ι) : Prop :=
  ∀ i p name object, w.handed i p = some (name, object) → w.names name = some object

end Sky.Shm
