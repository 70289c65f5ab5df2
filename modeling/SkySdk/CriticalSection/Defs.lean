import SkySdk.Base.Heap
import SkySdk.Base.Proc
import SkySdk.Define

/-!
# `sky_critical_section.c`: recursive locks of threads

The functions of `sky_critical_section.c` as programs that request what other code does for them:
the allocator, the functions of `pthread_mutex_t` and `pthread_mutexattr_t`, and
`SKY_VALIDATE_HANDLE`. The mutex and its attributes are members of the struct that only their own
functions look at, so that the struct is its header here, and the address of the block stands for
theirs.
-/

set_option autoImplicit false

namespace Sky.CriticalSection

open Base

structure SkyHandleCriticalSection where
  cb : UInt16
  type : UInt16
deriving DecidableEq, Repr

inductive Request
  | alloc
  | free (p : Addr)
  | store (p : Addr) (cs : SkyHandleCriticalSection)
  | attrInit (p : Addr)
  | attrSettype (p : Addr)
  | mutexInit (p : Addr)
  | mutexDestroy (p : Addr)
  | attrDestroy (p : Addr)
  | mutexLock (p : Addr)
  | mutexUnlock (p : Addr)
  | mutexTrylock (p : Addr)
  | validate (p : Addr)
deriving DecidableEq, Repr

/-- The type of the replies. Those of `pthread_mutex_lock` and `pthread_mutex_unlock` are not looked
at. -/
abbrev Request.Reply : Request → Type
  | alloc => Addr
  | mutexLock _ => Int
  | mutexTrylock _ => Int
  | _ => Unit

abbrev CsM (α : Type) := Proc Request Request.Reply α

def request (o : Request) : CsM o.Reply := Proc.call o

/-- `sizeof( SKY_HANDLE_CRITICAL_SECTION )`, with 40 bytes for the mutex, 4 for the attributes. -/
def newCriticalSection : SkyHandleCriticalSection :=
  { cb := 56, type := SkyHandleType.criticalSection.code }

def skyCriticalSectionCreate : CsM Addr := do
  let p ← request .alloc
  if p = 0 then pure 0
  else do
    request (.store p newCriticalSection)
    request (.attrInit p)
    request (.attrSettype p)
    request (.mutexInit p)
    pure p

def skyCriticalSectionDestroy (critSect : Addr) : CsM Unit := do
  request (.validate critSect)
  if critSect ≠ 0 then do
    request (.mutexDestroy critSect)
    request (.attrDestroy critSect)
    request (.free critSect)
  else pure ()

def skyCriticalSectionEnter (critSect : Addr) : CsM Unit := do
  request (.validate critSect)
  if critSect ≠ 0 then do
    let _ ← request (.mutexLock critSect)
    pure ()
  else pure ()

def skyCriticalSectionLeave (critSect : Addr) : CsM Unit := do
  request (.validate critSect)
  if critSect ≠ 0 then request (.mutexUnlock critSect) else pure ()

def skyCriticalSectionTry (critSect : Addr) : CsM Bool := do
  request (.validate critSect)
  if critSect ≠ 0 then do
    if (← request (.mutexTrylock critSect)) = 0 then pure true else pure false
  else pure false

inductive Call
  | create
  | destroy (critSect : Addr)
  | enter (critSect : Addr)
  | leave (critSect : Addr)
  | tryEnter (critSect : Addr)
deriving DecidableEq, Repr

inductive Resp
  | handle (p : Addr)
  | entered (r : Bool)
  | done
deriving DecidableEq, Repr

def call : Call → CsM Resp
  | .create => do pure (.handle (← skyCriticalSectionCreate))
  | .destroy p => do
    skyCriticalSectionDestroy p
    pure .done
  | .enter p => do
    skyCriticalSectionEnter p
    pure .done
  | .leave p => do
    skyCriticalSectionLeave p
    pure .done
  | .tryEnter p => do pure (.entered (← skyCriticalSectionTry p))

end Sky.CriticalSection
