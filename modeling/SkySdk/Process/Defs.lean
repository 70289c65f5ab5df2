import SkySdk.Base.Proc
import SkySdk.Str.Defs

/-!
# `sky_process.c`: the first instance of a program

The functions of `sky_process.c` that use files, and what a process does between them, as programs
that request the system calls. The descriptor that `sky_process_is_first_instance` opens is never
closed: what it locked stays locked until the process exits. `sky_str_printf` is asked for its text
alone, as its result is not looked at.
-/

set_option autoImplicit false

namespace Sky.Process

open Base

/-- `setBackground` and `isBackground` are of `run_in_background`. -/
inductive Request
  | print (procName : CStr)
  | openFile (path : List UInt8)
  | flock (file : Nat)
  | daemon
  | setBackground
  | isBackground
  | exit
deriving DecidableEq, Repr

/-- The type of the replies: `openFile` gives a descriptor or -1, `exit` does not return. -/
abbrev Request.Reply : Request → Type
  | print _ => List UInt8
  | openFile _ => Option Nat
  | flock _ => Int
  | daemon => Int
  | setBackground => Unit
  | isBackground => Bool
  | exit => Empty

abbrev ProcessM (α : Type) := Proc Request Request.Reply α

def request (o : Request) : ProcessM o.Reply := Proc.call o

/-- `"/tmp/sky_proc_"`, up to the `%s` of the format. -/
def pidFilePattern : List UInt8 := [47, 116, 109, 112, 47, 115, 107, 121, 95, 112, 114, 111, 99, 95]

theorem noNul_pid {name : CStr} : (0 : UInt8) ∉ name.bytes ++ [46, 112, 105, 100] := by
  intro h
  cases List.mem_append.1 h with
  | inl h => exact name.noNul h
  | inr h => revert h; decide

/-- The name with what follows the `%s`: `".pid"`. -/
def withPid (name : CStr) : CStr := ⟨name.bytes ++ [46, 112, 105, 100], noNul_pid⟩

/-- The path of the file of a name; `pathMax` is `SKY_PATH_MAX`. -/
def pidFileName (pathMax : Nat) (name : CStr) : List UInt8 :=
  formatted (pathMax + 1) pidFilePattern (withPid name)

def skyProcessIsFirstInstance (procName : CStr) : ProcessM Bool := do
  let path ← request (.print procName)
  match ← request (.openFile path) with
  | none => pure false
  | some pidFile => do
    if (← request (.flock pidFile)) = 0 then pure true else pure false

def skyProcessSetRunInBackground : ProcessM Bool := do
  if (← request .daemon) ≠ 0 then pure false
  else do
    request .setBackground
    pure true

def skyProcessIsRunInBackground : ProcessM Bool := request .isBackground

/-- `exit` is the process's own. -/
inductive Call
  | isFirstInstance (procName : CStr)
  | setRunInBackground
  | isRunInBackground
  | exit
deriving DecidableEq, Repr

def call : Call → ProcessM Bool
  | .isFirstInstance procName => skyProcessIsFirstInstance procName
  | .setRunInBackground => skyProcessSetRunInBackground
  | .isRunInBackground => skyProcessIsRunInBackground
  | .exit => do
    let r ← request .exit
    nomatch r

end Sky.Process
