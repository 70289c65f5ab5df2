import SkySdk.Base.FileLock
import SkySdk.Base.Heap
import SkySdk.Base.Proc
import SkySdk.Define
import SkySdk.Str.Defs

/-!
# `sky_rwlock.c`: locks between processes

The functions of `sky_rwlock.c` as programs that request what other code does for them: the
allocator, `sky_str_printf`, the system calls, `pthread_rwlock_t`, the clock, and
`SKY_VALIDATE_HANDLE`. A lock with a name is an open file that is locked by `flock`; one without is
a `pthread_rwlock_t`, which is only known here by what its functions return.

The struct that a call fills in is its own until it returns the handle, so it is a value of the
program that is stored in the block just before. The timed lock polls: `Request.rounds` says how
often at most in this run, and a program that would poll once more waits forever (`Request.spin`).
-/

set_option autoImplicit false

namespace Sky

open Base

/-- `SKY_INFINITE` -/
def skyInfinite : UInt32 := 0xffffffff

/-- `sky_systick_diff` of `sky_sys.c`. -/
def skySystickDiff (earlyTick laterTick : UInt32) : UInt32 :=
  if earlyTick ≠ 0 then
    if laterTick < earlyTick then 0xffffffff - earlyTick + laterTick + 1
    else laterTick - earlyTick
  else laterTick

end Sky

namespace Sky.Rwlock

open Base

/-- `fdRwlock` is `none` for -1; `fileName` is `none` for NULL, else the block and the text in it,
which only this struct leads to. -/
structure SkyHandleRwlock where
  cb : UInt16
  handleType : UInt16
  fdRwlock : Option Nat
  fileName : Option (Addr × List UInt8)
deriving DecidableEq, Repr

/-- A block from `sky_mem_alloc` is all zero. -/
def zeroRwlock : SkyHandleRwlock :=
  { cb := 0, handleType := 0, fdRwlock := some 0, fileName := none }

/-- How long a `pthread_rwlock_t` is waited for: `lock`, `trylock` and `timedlock`. -/
inductive Wait
  | forever
  | never
  | after (milliseconds : UInt32)
deriving DecidableEq, Repr

/-- `alloc` and `free` are of a block for the struct, `allocName` and `freeName` of one for
`file_name`; `flock` is without a mode for `LOCK_UN`. -/
inductive Request
  | alloc
  | free (p : Addr)
  | allocName (size : Nat)
  | freeName (p : Addr)
  | store (p : Addr) (lock : SkyHandleRwlock)
  | load (p : Addr)
  | print (size : Nat) (before : List UInt8) (name : CStr)
  | openFile (path : List UInt8) (create : Bool)
  | close (file : Nat)
  | remove (path : List UInt8)
  | flock (file : Nat) (mode : Option LockMode) (nonBlocking : Bool)
  | pthreadInit (p : Addr)
  | pthreadDestroy (p : Addr)
  | pthreadLock (p : Addr) (mode : LockMode) (wait : Wait)
  | pthreadUnlock (p : Addr)
  | systickGet
  | systickSleep (milliseconds : UInt32)
  | rounds
  | spin
  | validate (p : Addr)
deriving DecidableEq, Repr

/-- The type of the replies: the allocators give a block or NULL, `openFile` a descriptor or -1. -/
abbrev Request.Reply : Request → Type
  | alloc => Addr
  | allocName _ => Addr
  | load _ => SkyHandleRwlock
  | print _ _ _ => Int × List UInt8
  | openFile _ _ => Option Nat
  | flock _ _ _ => Int
  | pthreadInit _ => Int
  | pthreadDestroy _ => Int
  | pthreadLock _ _ _ => Int
  | pthreadUnlock _ => Int
  | systickGet => UInt32
  | rounds => Nat
  | _ => Unit

abbrev RwlockM (α : Type) := Proc Request Request.Reply α

def request (o : Request) : RwlockM o.Reply := Proc.call o

/-- `RWLOCK_NAME_PATTERN` up to its `%s`: `"/tmp/SKY_RWLOCK_"`. -/
def rwlockNamePattern : List UInt8 :=
  [47, 116, 109, 112, 47, 83, 75, 89, 95, 82, 87, 76, 79, 67, 75, 95]

/-- The path of the file of a name; `nameMax` is `SKY_NAME_MAX`. -/
def pathOf (nameMax : Nat) (name : CStr) : List UInt8 := formatted nameMax rwlockNamePattern name

/-- The struct with its size and type. -/
def newRwlock : SkyHandleRwlock :=
  { zeroRwlock with cb := 80, handleType := SkyHandleType.rwlock.code }

def skyRwlockCreate (nameMax : Nat) (name : Option CStr) : RwlockM Addr := do
  let p ← request .alloc
  if p = 0 then pure 0
  else do
    let lock := { newRwlock with fdRwlock := none }
    match name with
    | some name => do
      let fileName ← request (.allocName (nameMax + 1))
      if fileName = 0 then do
        request (.free p)
        pure 0
      else do
        let printed ← request (.print nameMax rwlockNamePattern name)
        if printed.1 ≤ 0 then do
          request (.freeName fileName)
          request (.free p)
          pure 0
        else do
          match ← request (.openFile printed.2 true) with
          | none => do
            request (.freeName fileName)
            request (.free p)
            pure 0
          | some fd => do
            request (.store p
              { lock with fdRwlock := some fd, fileName := some (fileName, printed.2) })
            pure p
    | none => do
      if (← request (.pthreadInit p)) ≠ 0 then do
        request (.free p)
        pure 0
      else do
        request (.store p lock)
        pure p

def skyRwlockOpen (nameMax : Nat) (name : Option CStr) : RwlockM Addr :=
  match name with
  | none => pure 0
  | some name =>
    if skyStrLen name > 0 then do
      let printed ← request (.print nameMax rwlockNamePattern name)
      if printed.1 > 0 then do
        let p ← request .alloc
        if p = 0 then pure 0
        else do
          match ← request (.openFile printed.2 false) with
          | none => do
            request (.free p)
            pure 0
          | some fd => do
            request (.store p { newRwlock with fdRwlock := some fd })
            pure p
      else pure 0
    else pure 0

def skyRwlockDestroy (rwlock : Addr) : RwlockM Unit := do
  request (.validate rwlock)
  if rwlock ≠ 0 then do
    let p ← request (.load rwlock)
    (match p.fdRwlock with
      | some fd => do
        request (.close fd)
        request (.store rwlock { p with fdRwlock := none })
        match p.fileName with
        | some (fileName, path) => do
          request (.remove path)
          request (.freeName fileName)
          request (.store rwlock { p with fdRwlock := none, fileName := none })
        | none => pure ()
      | none => do
        let _ ← request (.pthreadDestroy rwlock)
        pure () : RwlockM Unit)
    request (.free rwlock)
  else pure ()

/-! ## Locking -/

def skySystickElapsed (lastTick : UInt32) : RwlockM UInt32 := do
  pure (skySystickDiff lastTick (← request .systickGet))

/-- The `do … while` of a timed lock, with at most this many rounds. -/
def poll (fd : Nat) (mode : LockMode) (tick timeout : UInt32) : Nat → RwlockM Int
  | 0 => do
    request .spin
    pure (-1)
  | rounds + 1 => do
    let rc ← request (.flock fd (some mode) true)
    if rc ≠ 0 then do
      request (.systickSleep 100)
      if (← skySystickElapsed tick) < timeout then poll fd mode tick timeout rounds
      else pure rc
    else pure rc

/-- The lock of a file. -/
def lockFile (fd : Nat) (mode : LockMode) (timeout : UInt32) : RwlockM Int :=
  if timeout = skyInfinite then request (.flock fd (some mode) false)
  else if timeout = 0 then request (.flock fd (some mode) true)
  else do
    let tick ← request .systickGet
    poll fd mode tick timeout (← request .rounds)

/-- The lock of a `pthread_rwlock_t`. -/
def lockThread (p : Addr) (mode : LockMode) (timeout : UInt32) : RwlockM Int :=
  if timeout = skyInfinite then request (.pthreadLock p mode .forever)
  else if timeout = 0 then request (.pthreadLock p mode .never)
  else request (.pthreadLock p mode (.after timeout))

/-- `sky_rwlock_wrlock` and `sky_rwlock_rdlock`, which differ in the mode only. -/
def lockWith (mode : LockMode) (rwlock : Addr) (timeout : UInt32) : RwlockM Bool := do
  request (.validate rwlock)
  if rwlock ≠ 0 then do
    let p ← request (.load rwlock)
    match p.fdRwlock with
    | some fd => do
      let rc ← lockFile fd mode timeout
      pure (decide (rc = 0))
    | none => do
      let rc ← lockThread rwlock mode timeout
      pure (decide (rc = 0))
  else pure false

def skyRwlockWrlock : Addr → UInt32 → RwlockM Bool := lockWith .exclusive

def skyRwlockRdlock : Addr → UInt32 → RwlockM Bool := lockWith .shared

def skyRwlockUnlock (rwlock : Addr) : RwlockM Unit := do
  request (.validate rwlock)
  if rwlock ≠ 0 then do
    let p ← request (.load rwlock)
    match p.fdRwlock with
    | some fd => do
      let _ ← request (.flock fd none false)
      pure ()
    | none => do
      let _ ← request (.pthreadUnlock rwlock)
      pure ()
  else pure ()

inductive Call
  | create (name : Option CStr)
  | open (name : Option CStr)
  | wrlock (rwlock : Addr) (timeout : UInt32)
  | rdlock (rwlock : Addr) (timeout : UInt32)
  | unlock (rwlock : Addr)
  | destroy (rwlock : Addr)
deriving DecidableEq, Repr

inductive Resp
  | handle (p : Addr)
  | locked (r : Bool)
  | done
deriving DecidableEq, Repr

def call (nameMax : Nat) : Call → RwlockM Resp
  | .create name => do pure (.handle (← skyRwlockCreate nameMax name))
  | .open name => do pure (.handle (← skyRwlockOpen nameMax name))
  | .wrlock p timeout => do pure (.locked (← skyRwlockWrlock p timeout))
  | .rdlock p timeout => do pure (.locked (← skyRwlockRdlock p timeout))
  | .unlock p => do
    skyRwlockUnlock p
    pure .done
  | .destroy p => do
    skyRwlockDestroy p
    pure .done

end Sky.Rwlock
