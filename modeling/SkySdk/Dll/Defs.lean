import SkySdk.Handle.Defs
import SkySdk.Base.Heap

/-!
# `sky_dll.c`

The dynamic loader counts how often each library is open: `opened` has a library as many times, and
a library that is not in it can neither be closed nor searched. `Loader` says what it finds; what
`dlopen` gives may change from call to call.

`World` has the handles that `sky_dll_load` returned and that are not closed yet; `World.step` is
one call with one of them.
-/

set_option autoImplicit false

namespace Sky.Dll

open Base
open Handle (SkyHandleDll)

/-- `dlopen` by the number of calls before it, and `dlsym`; `0` is NULL. -/
structure Loader where
  dlopen : Nat → Option CStr → Addr
  dlsym : Addr → CStr → Addr

structure Process where
  heap : Heap SkyHandleDll
  opened : Multiset Addr
  asked : Nat

abbrev DllM (α : Type) := Prog Process α

def onHeap {α : Type} (x : Prog (Heap SkyHandleDll) α) : DllM α := fun p =>
  match x p.heap with
  | .ok (a, h) => .ok (a, { p with heap := h })
  | .error e => .error e

def modifyDll (dll : Addr) (f : SkyHandleDll → SkyHandleDll) : DllM Unit := do
  let d ← onHeap (load dll)
  onHeap (store dll (f d))

def dlopen (L : Loader) (dllName : Option CStr) : DllM Addr := fun p =>
  let lib := L.dlopen p.asked dllName
  .ok (lib, { p with
    asked := p.asked + 1
    opened := if lib = 0 then p.opened else lib ::ₘ p.opened })

def dlclose (lib : Addr) : DllM Unit := fun p =>
  if lib ∈ p.opened then .ok ((), { p with opened := p.opened.erase lib }) else .error .badFree

def dlsym (L : Loader) (lib : Addr) (funcName : CStr) : DllM Addr := fun p =>
  if lib ∈ p.opened then .ok (L.dlsym lib funcName, p) else .error .badAccess

def skyValidateHandle (b : Build) (dll : Addr) : DllM Unit :=
  skyAssert b (if dll = 0 then pure false
    else do pure ((← onHeap (load dll)).handleType == SkyHandleType.dll.code))

def skyDllLoad (A : Allocator) (L : Loader) (dllName : Option CStr) : DllM Addr := do
  let dll ← onHeap (malloc A { cb := 0, handleType := 0, dllHandle := 0 })
  if dll = 0 then pure 0
  else do
    modifyDll dll fun d => { d with cb := 16, handleType := SkyHandleType.dll.code }
    let lib ← dlopen L dllName
    modifyDll dll fun d => { d with dllHandle := lib }
    if lib = 0 then do
      onHeap (free dll)
      pure 0
    else pure dll

/-- `if ( d->dll_handle != NULL )` of `sky_dll_close` -/
def closeLib (lib : Addr) : DllM Unit := if lib ≠ 0 then dlclose lib else pure ()

def skyDllClose (b : Build) (dll : Addr) : DllM Unit := do
  skyValidateHandle b dll
  if dll ≠ 0 then do
    let d ← onHeap (load dll)
    closeLib d.dllHandle
    onHeap (free dll)
  else pure ()

def skyDllGetFunction (b : Build) (L : Loader) (dllHandle : Addr) (funcName : CStr) :
    DllM Addr := do
  skyValidateHandle b dllHandle
  if dllHandle = 0 then pure 0
  else do
    let d ← onHeap (load dllHandle)
    dlsym L d.dllHandle funcName

/-! ## Any number of libraries -/

structure World where
  process : Process
  live : Multiset Addr

def World.empty : World := ⟨⟨.empty, 0, 0⟩, 0⟩

inductive Op
  | load (dllName : Option CStr)
  | getFunction (dll : Addr) (funcName : CStr)
  | close (dll : Addr)

/-- The handle an operation is called with is live. -/
def Op.Valid (w : World) : Op → Prop
  | .load _ => True
  | .getFunction dll _ | .close dll => dll ∈ w.live

/-- Run a function and register its effect on the live handles. -/
def register {α : Type} (x : DllM α) (upd : α → Multiset Addr → Multiset Addr) :
    Prog World Unit := fun w =>
  match x w.process with
  | .ok (a, p) => .ok ((), ⟨p, upd a w.live⟩)
  | .error e => .error e

def World.step (A : Allocator) (L : Loader) (b : Build) : Op → Prog World Unit
  | .load dllName => register (skyDllLoad A L dllName) fun dll live =>
    if dll = 0 then live else dll ::ₘ live
  | .getFunction dll funcName => register (skyDllGetFunction b L dll funcName) fun _ live => live
  | .close dll => register (skyDllClose b dll) fun _ live => live.erase dll

/-- The library of a handle. -/
def libOf (h : Heap SkyHandleDll) (dll : Addr) : Addr :=
  match h.get? dll with
  | some d => d.dllHandle
  | none => 0

end Sky.Dll
