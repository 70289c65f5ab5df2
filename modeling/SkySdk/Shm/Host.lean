import SkySdk.Shm.Process

/-!
# Calls that fail

A process and the names of the machine it runs on. The requests of the programs act on the process
as `Shm.handle` says, and `shm_open` and `shm_unlink` on the names. Objects may be of any size here:
what `fstat` answers is said by `sizes`.

A call that fails should leave everything as it was (`Unchanged`). `TouchesOther` and `OpensInVain`
are when it does not.
-/

set_option autoImplicit false

namespace Sky.Shm

open Base

/-- `names` gives the object that a name is bound to, and the next new object is `objects`. -/
structure Host where
  process : Process
  names : List UInt8 → Option Nat
  objects : Nat

abbrev HostM (α : Type) := Prog Host α

def onProcess {α : Type} (x : ProcessM α) : HostM α :=
  zoom Host.process (fun s h => { h with process := s }) x

def setName (name : List UInt8) (object : Option Nat) (h : Host) : Host :=
  { h with names := Function.update h.names name object }

/-- With `O_CREAT | O_EXCL` only a new name is opened, else only one that is bound. -/
def shmOpen (E : Env) (name : List UInt8) (create : Bool) : HostM (Option Nat) := fun h =>
  let refused := create = (h.names name).isSome
  let file := if refused then none else E.shmOpen h.process.log.length
  let h' := if create = true ∧ file ≠ none then
      { setName name (some h.objects) h with objects := h.objects + 1 }
    else h
  .ok (file, { h' with
    process := { addFile file h.process with
      log := h.process.log ++ [.shmOpen name create] } })

def shmUnlink (E : Env) (b : Build) (name : List UInt8) : HostM Unit := do
  onProcess (handle E b (.shmUnlink name))
  fun h => .ok ((), setName name none h)

/-- What a request does. -/
def handleHost (E : Env) (sizes : Nat → Option Nat) (b : Build) : (o : Request) → HostM o.Reply
  | .shmOpen name create => shmOpen E name create
  | .shmUnlink name => shmUnlink E b name
  | .fstat file => onProcess (sysCall (.fstat file) sizes fun _ => id)
  | o => onProcess (handle E b o)

/-- Blocks, mappings, descriptors, the registry and the names are as before. -/
structure Unchanged (h h' : Host) : Prop where
  blocks : h'.process.blocks.entries = h.process.blocks.entries
  maps : h'.process.maps = h.process.maps
  files : h'.process.files = h.process.files
  registry : registry h'.process = registry h.process
  names : h'.names = h.names

/-- A call ends, and when it returns `SKY_INVALID_HANDLE` nothing has changed. -/
def FailsClean (E : Env) (sizes : Nat → Option Nat) (b : Build) (x : ShmM Addr) (h : Host) : Prop :=
  Ends (x.run (handleHost E sizes b)) h fun p h' => p = 0 → Unchanged h h'

/-! ## What goes wrong -/

/-- The struct is zero-filled: when the name cannot be formatted, the clean-up closes descriptor 0
and unlinks what is left of the name. -/
def TouchesOther (E : Env) (h : Host) (name : CStr) : Prop :=
  E.blocks.grants h.process.blocks.time = true ∧ intMax ≤ name.length ∧
    (0 ∈ h.process.files ∨ h.names (E.left h.process.log.length) ≠ none)

/-- A pushed handle would be taken. -/
def Registers (E : Env) (s : Process) : Prop :=
  (registry s).length < maxShareMemCount ∧
    LinkedList.hasRoom E.nodes s.nodes s.shareMemList = true

/-- A name is opened, and a later step fails: the clean-up unlinks the name, which was there
before. -/
def OpensInVain (E : Env) (sizes : Nat → Option Nat) (h : Host) (name : CStr) : Prop :=
  let t := h.process.log.length
  E.blocks.grants h.process.blocks.time = true ∧ name.length < intMax ∧
    h.names (formatted nameSize shareMemNamePattern name) ≠ none ∧ E.shmOpen t ≠ none ∧
    (sizes (t + 1) = none ∨ sizes (t + 1) = some 0 ∨ E.mmap (t + 2) = none ∨
      ¬ Registers E h.process)

end Sky.Shm
