import SkySdk.Handle.Defs
import SkySdk.List.Proof.Run
import SkySdk.Hash.Proof.Header
import SkySdk.Regex.Proof.Ledger
import SkySdk.Dll.Proof.Ledger
import SkySdk.CriticalSection.Proof.Exclusion
import SkySdk.Rwlock.Proof.Ledger
import SkySdk.Shm.Proof.Registry

/-!
# The objects that the callers have

Each is the struct that its own module leaves: in the heap of a process after any run of calls that
begins with the create function, or, for the locks, in any interleaving of the calls of any number
of threads that use the handles as they should. A member of the C library may have any bytes at any
time. So the type in the header is that of the module (`Reachable.header`), but for a map, which has
no header.
-/

set_option autoImplicit false

namespace Sky.Handle

open Base

/-! ## The structs of the modules -/

def ofCriticalSection {ι : Type} (block : CriticalSection.Block ι) (mutex attr : Field) :
    SkyHandleCriticalSection :=
  { cb := block.header.cb, type := block.header.type, mutex, attr }

def ofHash (d : Hash.SkyHandleHash) (htab : Field) : SkyHandleHash :=
  { cb := d.cb, type := d.handleType, htab, keyArray := d.keyArray }

def ofRegex (r : Regex.SkyHandleRegex) (regex : Field) : SkyHandleRegex :=
  { cb := r.cb, type := r.handleType, regex, subStr := r.subStr }

/-- A descriptor, or -1. -/
def fileInt (file : Option Nat) : Int32 := file.elim (-1) Int32.ofNat

def ofRwlock (d : Rwlock.SkyHandleRwlock) (rwlock : Field) : SkyHandleRwlock :=
  { cb := d.cb, type := d.handleType, rwlock, fdRwlock := fileInt d.fdRwlock
    fileName := d.fileName.elim 0 Prod.fst }

/-- `MAP_FAILED` is the address -1. -/
def ofShareMem (sm : Shm.SkyHandleShareMem) : SkyHandleShareMem :=
  { cb := sm.cb, handleType := sm.handleType, file := fileInt sm.file
    ptr := sm.ptr.getD (2 ^ 64 - 1), size := sm.size, isCreator := sm.isCreator, name := sm.name }

/-- An object that a create function has returned and the functions of its module have used. -/
inductive Reachable : Object → Prop
  | criticalSection {ι : Type} [DecidableEq ι] {b : Build}
      {as : List (Act ι CriticalSection.Call CriticalSection.Choice)}
      {t : Conf ι (CriticalSection.World ι) CriticalSection.Request CriticalSection.Request.Reply
        CriticalSection.Call CriticalSection.Resp}
      {p : Addr} {block : CriticalSection.Block ι} (mutex attr : Field) :
      (CriticalSection.threads ι b).Runs CriticalSection.InTurn (fun _ _ _ _ => True)
        (System.idle (CriticalSection.World.start ι)) as t →
      t.shared.handed p = true → t.shared.blocks p = some block →
      Reachable (.criticalSection (ofCriticalSection block mutex attr))
  | list {A : Allocator} {b : Build} {m : UInt32} {h0 h1 h : Heap LinkedList.Block} {l : Addr}
      {cs : List LinkedList.Call} {s : LinkedList.SkyHandleList} :
      LinkedList.skyListCreate A b m h0 = .ok (l, h1) → l ≠ 0 →
      Steps (LinkedList.call A b l) (fun _ _ => True) h1 cs h → h.get? l = some (.list s) →
      Reachable (.list s)
  | hash {A : Allocator} {b : Build} {hcreate : UInt32 → Option Nat} {size : UInt32}
      {h0 h1 h : Heap Hash.Block} {p : Addr} {cs : List Hash.Call} {d : Hash.SkyHandleHash}
      (htab : Field) :
      Hash.skyHashCreate A hcreate size h0 = .ok (p, h1) → p ≠ 0 →
      Steps (Hash.call A b p) (fun _ _ => True) h1 cs h → h.get? p = some (.hash d) →
      Reachable (.hash (ofHash d htab))
  | regex {A : Allocator} {b : Build} {h0 h1 h : Heap Regex.Block} {p : Addr}
      {cs : List Regex.Call} {r : Regex.SkyHandleRegex} (regex : Field) :
      Regex.skyRegexCreate A true h0 = .ok (p, h1) → p ≠ 0 →
      Steps (Regex.call A b p) (fun _ _ => True) h1 cs h → h.get? p = some (.regex r) →
      Reachable (.regex (ofRegex r regex))
  | dll {A : Allocator} {L : Dll.Loader} {b : Build} {ops : List Dll.Op} {w : Dll.World}
      {p : Addr} {d : SkyHandleDll} :
      Steps (Dll.World.step A L b) Dll.Op.Valid Dll.World.empty ops w →
      w.process.heap.get? p = some d → Reachable (.dll d)
  | rwlock {ι κ : Type} [DecidableEq ι] [DecidableEq κ] {proc : ι → κ} {b : Build} {nameMax : Nat}
      {as : List (Act ι Rwlock.Call Rwlock.Choice)}
      {t : Conf ι (Rwlock.World ι κ) Rwlock.Request Rwlock.Request.Reply Rwlock.Call Rwlock.Resp}
      {h : κ × Addr} {d : Rwlock.SkyHandleRwlock} (rwlock : Field) :
      (Rwlock.threads proc b nameMax).Runs (Rwlock.Ledger.Gives proc) (fun _ _ _ _ => True)
        (System.idle (Rwlock.World.start ι κ)) as t →
      t.shared.handed h ≠ none → t.shared.blocks h = some (.lock d) →
      Reachable (.rwlock (ofRwlock d rwlock))
  | shareMemory {E : Shm.Env} {b : Build} {nameMax : Nat} {s0 s1 s : Shm.Process}
      {cs : List Shm.Call} {live : List Shm.Handle} {x : Shm.Handle}
      {sm : Shm.SkyHandleShareMem} :
      s0.shareMemList = 0 → Shm.skyShareMemoryInit E b s0 = .ok (true, s1) →
      Steps (Shm.callLive E b nameMax) (fun _ _ => True) (s1, []) cs (s, live) → x ∈ live →
      s.blocks.get? x.addr = some sm → Reachable (.shareMemory (ofShareMem sm))
  | map {A : Allocator} {f : Option Map.MapFilterCallback} {h0 h1 h : Heap Map.Block} {m : Addr}
      {cs : List Map.Call} {d : Map.SkyHandleMap} (callback : Addr) :
      Map.skyMapCreate A f h0 = .ok (m, h1) → m ≠ 0 →
      Steps (Map.call A m) (fun _ _ => True) h1 cs h → h.get? m = some (.map d) →
      Reachable (.map d callback)

variable {o : Object}

/-- A header is written once, by the create function. -/
theorem Reachable.header (h : Reachable o) :
    o.header = some o.type.code ∨ ∃ d callback, o = .map d callback := by
  cases h with
  | criticalSection mutex attr hr hp hb =>
    exact .inl (congrArg some (CriticalSection.run_typed hr hp hb))
  | list hc hl hr hg =>
    obtain ⟨xs, ps, S⟩ := LinkedList.reach_shape hc hl hr
    have hs := S.get_struct
    rw [hg] at hs
    cases hs
    exact .inl rfl
  | hash htab hc hp hr hd =>
    obtain ⟨d, hd', hcode⟩ := Hash.reach_typed hc hp hr
    rw [hd] at hd'
    cases hd'
    exact .inl (congrArg some hcode)
  | regex regex hc hp hr hg => exact .inl (congrArg some (Regex.reach_typed hc hp hr hg))
  | dll hs hd => exact .inl (congrArg some (Dll.run_typed hs hd))
  | rwlock rwlock hr hh hd =>
    exact .inl (congrArg some ((Rwlock.Ledger.holds_of_runs hr).typed hh hd))
  | shareMemory h0 hinit hr hx hsm =>
    exact .inl (congrArg some (Shm.run_typed h0 hinit hr hx hsm))
  | map callback _ _ _ _ => exact .inr ⟨_, callback, rfl⟩

end Sky.Handle
