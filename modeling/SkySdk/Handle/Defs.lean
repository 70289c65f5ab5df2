import SkySdk.Base.Layout
import SkySdk.List.Defs
import SkySdk.Map.Defs

/-!
# `sky_close_handle` and the objects it is given

The structs of the eight kinds of object, member by member. A member whose type belongs to the C
library (`pthread_mutex_t`, `struct hsearch_data`, `regex_t`, …) is a `Field` with whatever
alignment and bytes it has. A list and a map are the structs that `sky_list.c` and `sky_map.c` leave
in the heap.
-/

set_option autoImplicit false

namespace Sky.Handle

open Base

/-! ## The structs -/

structure SkyHandleCriticalSection where
  cb : UInt16
  type : UInt16
  mutex : Field
  attr : Field

def SkyHandleCriticalSection.fields (p : SkyHandleCriticalSection) : List Field :=
  [.u16 p.cb, .u16 p.type, p.mutex, p.attr]

structure SkyHandleHash where
  cb : UInt16
  type : UInt16
  htab : Field
  keyArray : Addr

def SkyHandleHash.fields (h : SkyHandleHash) : List Field :=
  [.u16 h.cb, .u16 h.type, h.htab, .word h.keyArray]

structure SkyHandleRegex where
  cb : UInt16
  type : UInt16
  regex : Field
  subStr : Addr

def SkyHandleRegex.fields (r : SkyHandleRegex) : List Field :=
  [.u16 r.cb, .u16 r.type, r.regex, .word r.subStr]

structure SkyHandleDll where
  cb : UInt16
  handleType : UInt16
  dllHandle : Addr

def SkyHandleDll.fields (d : SkyHandleDll) : List Field :=
  [.u16 d.cb, .u16 d.handleType, .word d.dllHandle]

structure SkyHandleRwlock where
  cb : UInt16
  type : UInt16
  rwlock : Field
  fdRwlock : Int32
  fileName : Addr

def SkyHandleRwlock.fields (p : SkyHandleRwlock) : List Field :=
  [.u16 p.cb, .u16 p.type, p.rwlock, .i32 p.fdRwlock, .word p.fileName]

structure SkyHandleShareMem where
  cb : UInt16
  handleType : UInt16
  file : Int32
  ptr : Addr
  size : UInt32
  isCreator : Bool
  name : List UInt8

def SkyHandleShareMem.fields (sm : SkyHandleShareMem) : List Field :=
  [.u16 sm.cb, .u16 sm.handleType, .i32 sm.file, .word sm.ptr, .u32 sm.size,
    .u8 (if sm.isCreator then 1 else 0), ⟨1, sm.name⟩]

/-- The address of an item: a sentinel is a member of its list's struct. -/
def itemAddr : LinkedList.ItemPtr → Addr
  | .null => 0
  | .head l => l + 8
  | .tail l => l + 32
  | .node a => a

def itemFields (x : LinkedList.SkyListItem) : List Field :=
  [.word x.data, .word (itemAddr x.next), .word (itemAddr x.prev)]

def listFields (l : LinkedList.SkyHandleList) : List Field :=
  [.u16 l.cb, .u16 l.handleType] ++ itemFields l.head ++ itemFields l.tail ++
    [.word (itemAddr l.prealloc), .u32 l.count, .u32 l.maxSize]

/-- A map, with the address of its filter callback. -/
def mapFields (d : Map.SkyHandleMap) (callback : Addr) : List Field :=
  [.word d.keys, .word d.values, .word d.count, .word callback]

inductive Object
  | criticalSection (p : SkyHandleCriticalSection)
  | list (l : LinkedList.SkyHandleList)
  | rwlock (p : SkyHandleRwlock)
  | shareMemory (sm : SkyHandleShareMem)
  | regex (r : SkyHandleRegex)
  | hash (h : SkyHandleHash)
  | dll (d : SkyHandleDll)
  | map (d : Map.SkyHandleMap) (callback : Addr)

def Object.fields : Object → List Field
  | .criticalSection p => p.fields
  | .list l => listFields l
  | .rwlock p => p.fields
  | .shareMemory sm => sm.fields
  | .regex r => r.fields
  | .hash h => h.fields
  | .dll d => d.fields
  | .map d callback => mapFields d callback

/-- The object in memory. -/
def Object.bytes (o : Object) : List UInt8 := place 0 o.fields

/-! ## Close -/

inductive DestroyFunc
  | skyCriticalSectionDestroy
  | skyListDestroy
  | skyHashDestroy
  | skyRegexDestroy
  | skyDllClose
  | skyRwlockDestroy
  | skyShareMemoryDestroy
  | skyMapDestroy
deriving DecidableEq, Repr

/-- The `switch` of `sky_close_handle`: the functions it calls, in order. -/
def closeSwitch (type : UInt16) : List DestroyFunc :=
  if type = SkyHandleType.criticalSection.code then [.skyCriticalSectionDestroy]
  else if type = SkyHandleType.list.code then [.skyListDestroy]
  else if type = SkyHandleType.hash.code then [.skyHashDestroy]
  else if type = SkyHandleType.regex.code then [.skyRegexDestroy]
  else if type = SkyHandleType.dll.code then [.skyDllClose]
  else if type = SkyHandleType.rwlock.code then [.skyRwlockDestroy]
  else if type = SkyHandleType.shareMemory.code then [.skyShareMemoryDestroy]
  -- the last case falls through to the empty default
  else if type = SkyHandleType.map.code then [.skyMapDestroy]
  else []

/-- `sky_close_handle` on an object in memory: `type` is at the offset 2 of `struct sky_handle`. -/
def skyCloseHandle (obj : List UInt8) : Except Fault (List DestroyFunc) := do
  pure (closeSwitch (← readU16 obj 2))

/-- The destroy function of the object's own module. -/
def Object.own : Object → DestroyFunc
  | .criticalSection _ => .skyCriticalSectionDestroy
  | .list _ => .skyListDestroy
  | .rwlock _ => .skyRwlockDestroy
  | .shareMemory _ => .skyShareMemoryDestroy
  | .regex _ => .skyRegexDestroy
  | .hash _ => .skyHashDestroy
  | .dll _ => .skyDllClose
  | .map _ _ => .skyMapDestroy

/-- The type in the object's header, if it has one. -/
def Object.header : Object → Option UInt16
  | .criticalSection p => some p.type
  | .list l => some l.handleType
  | .rwlock p => some p.type
  | .shareMemory sm => some sm.handleType
  | .regex r => some r.type
  | .hash h => some h.type
  | .dll d => some d.handleType
  | .map _ _ => none

/-- The type of the object's module. -/
def Object.type : Object → SkyHandleType
  | .criticalSection _ => .criticalSection
  | .list _ => .list
  | .rwlock _ => .rwlock
  | .shareMemory _ => .shareMemory
  | .regex _ => .regex
  | .hash _ => .hash
  | .dll _ => .dll
  | .map _ _ => .map

end Sky.Handle
