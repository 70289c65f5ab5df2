import SkySdk.List.Links
import SkySdk.Shm.Defs

/-!
# Share memory in one process

`sky_share_memory_init`, and the programs of `sky_ipc_shm.c` run by one process: the registry
`share_mem_list` is the list of `sky_list.c`, the blocks are a heap, and the system calls are
answered by an environment `Env`, by the number of system calls made before. `maps` and `files` are
what the process has mapped and opened by them. The nodes of the list and the structs are two heaps,
as if they came from two allocators; no address of one is compared with one of the other. Nobody
else is in the critical section.
-/

set_option autoImplicit false

namespace Sky.Shm

open Base

inductive SysCall
  | shmOpen (name : List UInt8) (create : Bool)
  | ftruncate (file : Nat) (size : UInt32)
  | fstat (file : Nat)
  | mmap (length file : Nat)
  | munmap (ptr : Option Addr) (length : UInt32)
  | close (file : Option Nat)
  | shmUnlink (name : List UInt8)
deriving DecidableEq, Repr

/-- What is not decided by the process: the two allocators, whether a critical section can be had,
the answers of the system calls, and the text that a failing `vsnprintf` leaves. Objects are smaller
than 4 GiB. -/
structure Env where
  blocks : Allocator
  nodes : Allocator
  criticalSection : Addr
  shmOpen : Nat → Option Nat
  ftruncate : Nat → Bool
  fstat : Nat → Option Nat
  mmap : Nat → Option Addr
  left : Nat → List UInt8
  fstat_lt : ∀ t n, fstat t = some n → n < 2 ^ 32

/-- An environment that refuses nothing. -/
structure Env.Willing (E : Env) : Prop where
  blocks : ∀ t, E.blocks.grants t = true
  nodes : ∀ t, E.nodes.grants t = true
  shmOpen : ∀ t, E.shmOpen t ≠ none
  ftruncate : ∀ t, E.ftruncate t = true
  fstat : ∀ t, E.fstat t ≠ none ∧ E.fstat t ≠ some 0
  mmap : ∀ t, E.mmap t ≠ none

structure Process where
  shareMemList : Addr
  shareMemListCs : Addr
  nodes : Heap LinkedList.Block
  blocks : Heap SkyHandleShareMem
  maps : Multiset (Addr × Nat)
  files : Multiset Nat
  log : List SysCall

abbrev ProcessM (α : Type) := Prog Process α

def onNodes {α : Type} (x : LinkedList.ListM α) : ProcessM α :=
  zoom Process.nodes (fun h s => { s with nodes := h }) x

def onBlocks {α : Type} (x : Prog (Heap SkyHandleShareMem) α) : ProcessM α :=
  zoom Process.blocks (fun h s => { s with blocks := h }) x

/-- `share_mem_list` -/
def readList : ProcessM Addr := fun s => .ok (s.shareMemList, s)

/-- `MAX_SHARE_MEM_COUNT` -/
def maxCount : UInt32 := .ofNat maxShareMemCount

/-- The first `if` of `sky_share_memory_init`. -/
def initList (E : Env) (b : Build) : ProcessM Bool := do
  if (← readList) = 0 then do
    let list ← onNodes (LinkedList.skyListCreate E.nodes b maxCount)
    fun s => .ok (decide (list ≠ 0), { s with shareMemList := list })
  else pure true

/-- The second. -/
def initCs (E : Env) : ProcessM Bool := fun s =>
  if s.shareMemListCs = 0 then
    .ok (decide (E.criticalSection ≠ 0), { s with shareMemListCs := E.criticalSection })
  else .ok (true, s)

def skyShareMemoryInit (E : Env) (b : Build) : ProcessM Bool := do
  if ← initList E b then initCs E else pure false

/-- A system call, answered by the number of those before it, with its effect on the process. -/
def sysCall {α : Type} (c : SysCall) (answer : Nat → α) (effect : α → Process → Process) :
    ProcessM α := fun s =>
  .ok (answer s.log.length,
    { effect (answer s.log.length) s with log := s.log ++ [c] })

/-- A new descriptor. -/
def addFile (file : Option Nat) (s : Process) : Process :=
  match file with
  | some fd => { s with files := fd ::ₘ s.files }
  | none => s

def removeFile (file : Option Nat) (s : Process) : Process :=
  match file with
  | some fd => { s with files := s.files.erase fd }
  | none => s

/-- A new mapping. -/
def addMap (length : Nat) (ptr : Option Addr) (s : Process) : Process :=
  match ptr with
  | some a => { s with maps := (a, length) ::ₘ s.maps }
  | none => s

/-- The mapping of this length; a length of 0 is an error. -/
def removeMap (ptr : Option Addr) (length : UInt32) (s : Process) : Process :=
  match ptr with
  | some a => if length = 0 then s else { s with maps := s.maps.erase (a, length.toNat) }
  | none => s

/-- `SKY_VALIDATE_HANDLE( SKY_HANDLE_TYPE_SHARE_MEMORY, share_mem )` -/
def skyValidateHandle (b : Build) (p : Addr) : ProcessM Unit :=
  skyAssert b (if p = 0 then pure false
    else do pure ((← onBlocks (load p)).handleType == SkyHandleType.shareMemory.code))

/-- What a request does in the process. `mmap` of length 0 fails. -/
def handle (E : Env) (b : Build) : (o : Request) → ProcessM o.Reply
  | .alloc => onBlocks (malloc E.blocks zeroShareMem)
  | .free p => onBlocks (free p)
  | .store p sm => onBlocks (store p sm)
  | .load p => onBlocks (load p)
  | .print size before name => fun s =>
    .ok (skyStrPrintf size before name (E.left s.log.length), s)
  | .shmOpen name create => sysCall (.shmOpen name create) E.shmOpen addFile
  | .ftruncate file size => sysCall (.ftruncate file size) E.ftruncate fun _ => id
  | .fstat file => sysCall (.fstat file) E.fstat fun _ => id
  | .mmap length file =>
    sysCall (.mmap length file) (fun t => if length = 0 then none else E.mmap t) (addMap length)
  | .munmap ptr length => sysCall (.munmap ptr length) (fun _ => ()) fun _ => removeMap ptr length
  | .close file => sysCall (.close file) (fun _ => ()) fun _ => removeFile file
  | .shmUnlink name => sysCall (.shmUnlink name) (fun _ => ()) fun _ => id
  | .enter => pure ()
  | .leave => pure ()
  | .pushBack p => do onNodes (LinkedList.skyListPushBack E.nodes b (← readList) p)
  | .remove p => do onNodes (LinkedList.skyListRemove b (← readList) p)
  | .validate p => skyValidateHandle b p
  | .assertFalse => skyAssert b (pure false)

/-! ## Handles -/

/-- A handle that `sky_share_memory_create` or `sky_share_memory_open` has returned, and the name it
was given. -/
structure Handle where
  addr : Addr
  created : Bool
  name : CStr
deriving DecidableEq, Repr

/-- The handles that are live after a call. -/
def liveAfter (live : List Handle) : Call → Resp → List Handle
  | .create (some name) _, .handle p => if p = 0 then live else live ++ [⟨p, true, name⟩]
  | .open (some name), .handle p => if p = 0 then live else live ++ [⟨p, false, name⟩]
  | .destroy p, _ => live.filter fun x => x.addr ≠ p
  | _, _ => live

/-- A call in the process, with the live handles beside it. -/
def callLive (E : Env) (b : Build) (nameMax : Nat) (c : Call) :
    Prog (Process × List Handle) Resp := fun t =>
  match (call nameMax c).run (handle E b) t.1 with
  | .ok (r, s) => .ok (r, (s, liveAfter t.2 c r))
  | .error e => .error e

/-- The contents of `share_mem_list`. -/
def registry (s : Process) : List Addr := LinkedList.seqOf s.nodes s.shareMemList

end Sky.Shm
