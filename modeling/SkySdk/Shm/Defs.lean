import SkySdk.Base.Heap
import SkySdk.Base.Proc
import SkySdk.Define
import SkySdk.Str.Defs

/-!
# `sky_ipc_shm.c`: named shared memory

The functions of `sky_ipc_shm.c` as programs that request what other code does for them: the
allocator, `sky_str_printf`, the system calls, the registry `share_mem_list` under its critical
section, and failing assertions. What these do is said where the programs are run: by a process
alone (`Shm.Process`), or in the steps of many processes (`Shm.World`).

The struct that a call fills in is its own until it is put on the registry, so `sm` is a value of
the program that is stored in the block just before. `share_mem_list_cs` and log output need no
names here.
-/

set_option autoImplicit false

namespace Sky.Shm

open Base

def maxShareMemCount : Nat := 1000

/-- `file` is `none` for -1, `ptr` for `MAP_FAILED`. -/
structure SkyHandleShareMem where
  cb : UInt16
  handleType : UInt16
  file : Option Nat
  ptr : Option Addr
  size : UInt32
  isCreator : Bool
  name : List UInt8
deriving DecidableEq, Repr

/-- A block from `sky_mem_alloc` is all zero. -/
def zeroShareMem : SkyHandleShareMem :=
  { cb := 0, handleType := 0, file := some 0, ptr := some 0, size := 0, isCreator := false
    name := [] }

inductive Request
  | alloc
  | free (p : Addr)
  | store (p : Addr) (sm : SkyHandleShareMem)
  | load (p : Addr)
  | print (size : Nat) (before : List UInt8) (name : CStr)
  | shmOpen (name : List UInt8) (create : Bool)
  | ftruncate (file : Nat) (size : UInt32)
  | fstat (file : Nat)
  | mmap (length file : Nat)
  | munmap (ptr : Option Addr) (length : UInt32)
  | close (file : Option Nat)
  | shmUnlink (name : List UInt8)
  | enter
  | leave
  | pushBack (p : Addr)
  | remove (p : Addr)
  | validate (p : Addr)
  | assertFalse
deriving DecidableEq, Repr

/-- The type of the replies: `alloc` gives a block or NULL, `shmOpen` a descriptor or -1, `fstat`
the size or -1, `mmap` an address or `MAP_FAILED`. -/
abbrev Request.Reply : Request → Type
  | alloc => Addr
  | load _ => SkyHandleShareMem
  | print _ _ _ => Int × List UInt8
  | shmOpen _ _ => Option Nat
  | ftruncate _ _ => Bool
  | fstat _ => Option Nat
  | mmap _ _ => Option Addr
  | pushBack _ => Bool
  | remove _ => Addr
  | _ => Unit

abbrev ShmM (α : Type) := Proc Request Request.Reply α

def request (o : Request) : ShmM o.Reply := Proc.call o

/-- `SHARE_MEM_NAME_PATTERN` up to its `%s`, and the size of `name`. -/
def shareMemNamePattern : List UInt8 := [47]

def nameSize : Nat := 128

/-- The way out of `sky_share_memory_create` and `sky_share_memory_open` when a step has failed. -/
def cleanUp (p : Addr) (sm : SkyHandleShareMem) : ShmM Addr := do
  (if sm.ptr ≠ none then request (.munmap sm.ptr sm.size) else pure () : ShmM Unit)
  (if sm.file ≠ none then do
    request (.close sm.file)
    request (.shmUnlink sm.name)
  else pure () : ShmM Unit)
  request (.free p)
  pure 0

/-- "add to share memory list" -/
def register (p : Addr) (sm : SkyHandleShareMem) : ShmM Addr := do
  request (.store p sm)
  request .enter
  if ← request (.pushBack p) then do
    request .leave
    pure p
  else do
    request .leave
    cleanUp p sm

/-- `nameMax` is `SKY_NAME_MAX`. -/
def skyShareMemoryCreate (nameMax : Nat) (name : Option CStr) (size : UInt32) : ShmM Addr :=
  match name with
  | none => do
    request .assertFalse
    pure 0
  | some name =>
    if (skyStrLen name).toNat > nameMax - 1 then do
      request .assertFalse
      pure 0
    else do
      let p ← request .alloc
      if p = 0 then pure 0
      else do
        let sm := { zeroShareMem with cb := 152, handleType := SkyHandleType.shareMemory.code }
        let printed ← request (.print nameSize shareMemNamePattern name)
        let sm := { sm with name := printed.2 }
        if printed.1 ≤ 0 then cleanUp p sm
        else do
          let file ← request (.shmOpen sm.name true)
          let sm := { sm with file := file }
          match file with
          | none => cleanUp p sm
          | some fd => do
            if ← request (.ftruncate fd size) then do
              let ptr ← request (.mmap size.toNat fd)
              let sm := { sm with ptr := ptr }
              if ptr = none then cleanUp p sm
              else register p { sm with size := size, isCreator := true }
            else cleanUp p sm

def skyShareMemoryOpen (nameMax : Nat) (name : Option CStr) : ShmM Addr :=
  match name with
  | none => pure 0
  | some name =>
    if (skyStrLen name).toNat > nameMax - 1 then do
      request .assertFalse
      pure 0
    else do
      let p ← request .alloc
      if p = 0 then pure 0
      else do
        let sm := { zeroShareMem with cb := 152, handleType := SkyHandleType.shareMemory.code }
        let printed ← request (.print nameSize shareMemNamePattern name)
        let sm := { sm with name := printed.2 }
        if printed.1 ≤ 0 then cleanUp p sm
        else do
          let file ← request (.shmOpen sm.name false)
          let sm := { sm with file := file }
          match file with
          | none => cleanUp p sm
          | some fd => do
            match ← request (.fstat fd) with
            | none => cleanUp p sm
            | some stSize => do
              let ptr ← request (.mmap stSize fd)
              let sm := { sm with ptr := ptr }
              if ptr = none then cleanUp p sm
              else register p { sm with size := .ofNat stSize, isCreator := false }

def skyShareMemoryDestroy (shareMem : Addr) : ShmM Bool := do
  request (.validate shareMem)
  request .enter
  let p ← request (.remove shareMem)
  request .leave
  if p = 0 then pure false
  else do
    let sm ← request (.load p)
    request (.munmap sm.ptr sm.size)
    request (.close sm.file)
    (if sm.isCreator then request (.shmUnlink sm.name) else pure () : ShmM Unit)
    request (.free p)
    pure true

inductive Call
  | create (name : Option CStr) (size : UInt32)
  | open (name : Option CStr)
  | destroy (shareMem : Addr)
deriving DecidableEq, Repr

inductive Resp
  | handle (p : Addr)
  | destroyed (r : Bool)
deriving DecidableEq, Repr

def call (nameMax : Nat) : Call → ShmM Resp
  | .create name size => do pure (.handle (← skyShareMemoryCreate nameMax name size))
  | .open name => do pure (.handle (← skyShareMemoryOpen nameMax name))
  | .destroy p => do pure (.destroyed (← skyShareMemoryDestroy p))

end Sky.Shm
