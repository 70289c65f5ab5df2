import SkySdk.Base.Buf

/-!
# `sky_init` and `sky_uninit`

The two tables of `sky.c`, read as comma-separated lists of their entries, and the two functions
over them. `env` says which calls of an initialiser succeed, by the number of such calls made
before. A module is up from a successful call of its initialiser to the next call of its
uninitialiser; the log keeps what each call did. `init_count` is an `int`: counting past its range
is a fault.
-/

set_option autoImplicit false

namespace Sky.Init

open Base

/-- The modules that `sky.c` names. -/
inductive Module
  | debug
  | criticalSection
  | mem
  | list
  | sys
  | str
  | hash
  | regex
  | dll
  | process
  | rwlock
  | shareMemory
  | base64
  | map
deriving DecidableEq, Repr

/-- A table entry: `sky_…_init` or `sky_…_uninit`. -/
inductive Func
  | init (m : Module)
  | uninit (m : Module)
deriving DecidableEq, Repr

def initFuncs : List Func :=
  [ .init .debug, .init .criticalSection, .init .mem, .init .list, .init .sys, .init .str,
    .init .hash, .init .regex, .init .dll, .init .process, .init .rwlock, .init .shareMemory,
    .init .base64, .init .map ]

/-- The entry before `sky_critical_section_uninit` is `sky_mem_init`. -/
def uninitFuncs : List Func :=
  [ .uninit .map, .uninit .base64, .uninit .shareMemory, .uninit .rwlock, .uninit .process,
    .uninit .dll, .uninit .regex, .uninit .hash, .uninit .str, .uninit .sys, .uninit .list,
    .init .mem, .uninit .criticalSection, .uninit .debug ]

def initFuncCnt : Nat := initFuncs.length

/-- What a call of a table entry did: brought a module up, failed to, or took it down, having been
up or not. -/
inductive Event
  | up (m : Module)
  | failed (m : Module)
  | down (m : Module) (was : Bool)
deriving DecidableEq, Repr

structure State where
  initCount : Int
  up : Module → Bool
  /-- Calls of initialisers made so far. -/
  tries : Nat
  /-- Newest first. -/
  log : List Event

/-- Before the first call. -/
def start : State := { initCount := 0, up := fun _ => false, tries := 0, log := [] }

abbrev InitM (α : Type) := Prog State α

def getCount : InitM Int := fun s => .ok (s.initCount, s)

/-- `init_count++` -/
def incCount : InitM Unit := fun s =>
  if s.initCount < intMax then .ok ((), { s with initCount := s.initCount + 1 })
  else .error .overflow

/-- `init_count--` -/
def decCount : InitM Unit := fun s =>
  if -intMax ≤ s.initCount then .ok ((), { s with initCount := s.initCount - 1 })
  else .error .overflow

/-- `table[ i ]` -/
def entry (table : List Func) (i : Nat) : InitM Func := fun s =>
  match table[i]? with
  | some f => .ok (f, s)
  | none => .error .outOfBounds

section
variable (env : Nat → Bool)

/-- A call of a table entry; an uninitialiser has no result. -/
def callFunc : Func → InitM Bool
  | .init m => fun s =>
    if env s.tries then
      .ok (true, { s with up := Function.update s.up m true, tries := s.tries + 1,
                          log := .up m :: s.log })
    else .ok (false, { s with tries := s.tries + 1, log := .failed m :: s.log })
  | .uninit m => fun s =>
    .ok (true, { s with up := Function.update s.up m false, log := .down m (s.up m) :: s.log })

/-- `for ( j = i - 1; j >= 0; j-- )`, with the number of rounds for `i`. -/
def undoFrom : Nat → InitM Unit
  | 0 => pure ()
  | j + 1 => do
    let _ ← callFunc env (← entry uninitFuncs j)
    undoFrom j

/-- The rounds of the loop of `sky_init` that are left, at `i`: whether it came to its end. -/
def initFrom (i : Nat) : Nat → InitM Bool
  | 0 => pure true
  | n + 1 => do
    if ← callFunc env (← entry initFuncs i) then initFrom (i + 1) n
    else do
      undoFrom env i
      pure false

def skyInit : InitM Bool := do
  if (← getCount) = 0 then
    if ← initFrom env 0 initFuncCnt then do
      incCount
      pure true
    else pure false
  else do
    incCount
    pure true

/-- The rounds of the loop of `sky_uninit` that are left, at `i`. -/
def uninitFrom (i : Nat) : Nat → InitM Unit
  | 0 => pure ()
  | n + 1 => do
    let _ ← callFunc env (← entry uninitFuncs i)
    uninitFrom (i + 1) n

def skyUninit : InitM Unit := do
  if (← getCount) = 1 then do
    uninitFrom env 0 initFuncCnt
    decCount
  else decCount

inductive Call
  | init
  | uninit
deriving DecidableEq, Repr

/-- What the caller gets: `none` of `sky_uninit`. -/
def call : Call → InitM (Option Bool)
  | .init => do pure (some (← skyInit env))
  | .uninit => do
    skyUninit env
    pure none

end

end Sky.Init
