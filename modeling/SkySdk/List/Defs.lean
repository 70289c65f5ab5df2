import SkySdk.Base.Dll
import SkySdk.Define

/-!
# `sky_list.c`: a bounded list with a pool of spare nodes

The list's struct holds two sentinel nodes, so a `SKY_LIST_ITEM*` is NULL, the address of one of the
two sentinels of a struct, or the address of a node of its own (`ItemPtr`). `sky_mem_alloc` is
`calloc`: a new block is all zero. The `void*` items are opaque addresses. Log output is left out.

A loop that follows links until it meets a pointer has as many rounds as there are live blocks and
one more: a walk that is not done by then has come back to a node it has already visited, and is
`endless`.
-/

set_option autoImplicit false

namespace Sky.LinkedList

open Base

/-- A `SKY_LIST_ITEM*`. -/
inductive ItemPtr
  | null
  | head (list : Addr)
  | tail (list : Addr)
  | node (a : Addr)
deriving DecidableEq, Repr

structure SkyListItem where
  data : Addr
  next : ItemPtr
  prev : ItemPtr
deriving DecidableEq, Repr

structure SkyHandleList where
  cb : UInt16
  handleType : UInt16
  head : SkyListItem
  tail : SkyListItem
  prealloc : ItemPtr
  count : UInt32
  maxSize : UInt32
deriving DecidableEq, Repr

/-- A block: a list's struct or a node. -/
inductive Block
  | list (l : SkyHandleList)
  | item (x : SkyListItem)
deriving DecidableEq, Repr

abbrev ListM (α : Type) := Prog (Heap Block) α

/-! ## Access -/

def loadList (list : Addr) : ListM SkyHandleList := do
  match ← load list with
  | .list l => pure l
  | _ => fault .badAccess

def modifyList (list : Addr) (f : SkyHandleList → SkyHandleList) : ListM Unit := do
  let l ← loadList list
  store list (.list (f l))

/-- `*p` of an item pointer. -/
def loadItem : ItemPtr → ListM SkyListItem
  | .null => fault .badAccess
  | .head list => do pure (← loadList list).head
  | .tail list => do pure (← loadList list).tail
  | .node a => do
    match ← load a with
    | .item x => pure x
    | _ => fault .badAccess

def modifyItem (p : ItemPtr) (f : SkyListItem → SkyListItem) : ListM Unit :=
  match p with
  | .null => fault .badAccess
  | .head list => modifyList list fun l => { l with head := f l.head }
  | .tail list => modifyList list fun l => { l with tail := f l.tail }
  | .node a => do
    match ← load a with
    | .item x => store a (.item (f x))
    | _ => fault .badAccess

def setData (p : ItemPtr) (data : Addr) : ListM Unit :=
  modifyItem p fun x => { x with data := data }

def setNext (p q : ItemPtr) : ListM Unit := modifyItem p fun x => { x with next := q }

def setPrev (p q : ItemPtr) : ListM Unit := modifyItem p fun x => { x with prev := q }

/-- `sky_mem_free` of an item pointer; a sentinel is not a block. -/
def freeItem : ItemPtr → ListM Unit
  | .null => free 0
  | .head _ => fault .badFree
  | .tail _ => fault .badFree
  | .node a => free a

/-- The rounds a walk over the links may take. -/
def walkRounds : ListM Nat := fun h => .ok (h.size + 1, h)

def zeroItem : SkyListItem := { data := 0, next := .null, prev := .null }

def zeroList : SkyHandleList :=
  { cb := 0, handleType := 0, head := zeroItem, tail := zeroItem, prealloc := .null, count := 0,
    maxSize := 0 }

section
variable (A : Allocator)

/-- `sky_mem_alloc( sizeof( SKY_LIST_ITEM ) )` -/
def allocItem : ListM ItemPtr := do
  let a ← malloc A (.item zeroItem)
  if a = 0 then pure .null else pure (.node a)

def skyValidateHandle (b : Build) (list : Addr) : ListM Unit :=
  skyAssert b (if list = 0 then pure false
    else do pure ((← loadList list).handleType == SkyHandleType.list.code))

/-! ## Create and destroy -/

/-- `while ( list->prealloc != NULL )` -/
def freePool (list : Addr) : Nat → ListM Unit
  | 0 => fault .endless
  | n + 1 => do
    let l ← loadList list
    if l.prealloc = .null then pure ()
    else do
      let item := (← loadItem l.prealloc).next
      freeItem l.prealloc
      modifyList list fun l => { l with prealloc := item }
      freePool list n

/-- `item->next = list->prealloc; list->prealloc = item` -/
def poolItem (list : Addr) (item : ItemPtr) : ListM Unit := do
  setNext item (← loadList list).prealloc
  modifyList list fun l => { l with prealloc := item }

/-- The rounds of the pre-allocation loop that are left: whether it came to its end. -/
def preallocItems (b : Build) (list : Addr) : Nat → ListM Bool
  | 0 => pure true
  | n + 1 => do
    let item ← allocItem A
    if item = .null then do
      skyAssert b (pure false)
      free list
      freePool list (← walkRounds)
      pure false
    else do
      setData item 0
      poolItem list item
      preallocItems b list n

def skyListCreate (b : Build) (maxSize : UInt32) : ListM Addr :=
  if maxSize > 0 then do
    let list ← malloc A (.list zeroList)
    if list = 0 then pure 0
    else do
      modifyList list fun l => { l with
        cb := 72
        handleType := SkyHandleType.list.code
        head := { data := 0, prev := .null, next := .tail list }
        tail := { data := 0, prev := .head list, next := .null }
        prealloc := .null }
      if ← preallocItems A b list b.preallocNum then do
        modifyList list fun l => { l with count := 0, maxSize := maxSize }
        pure list
      else pure 0
  else pure 0

/-- `while ( l->head.next != &l->tail )` of `sky_list_destroy` -/
def freeItems (list : Addr) : Nat → ListM Unit
  | 0 => fault .endless
  | n + 1 => do
    let temp := (← loadItem (.head list)).next
    if temp = .tail list then pure ()
    else do
      setNext (.head list) (← loadItem temp).next
      freeItem temp
      modifyList list fun l => { l with count := l.count - 1 }
      freeItems list n

def skyListDestroy (b : Build) (list : Addr) : ListM Unit := do
  skyValidateHandle b list
  freeItems list (← walkRounds)
  freePool list (← walkRounds)
  free list

/-! ## Queries -/

def skyListSize (b : Build) (list : Addr) : ListM UInt32 := do
  skyValidateHandle b list
  pure (← loadList list).count

def skyListMaxSize (b : Build) (list : Addr) : ListM UInt32 := do
  skyValidateHandle b list
  pure (← loadList list).maxSize

def skyListFull (b : Build) (list : Addr) : ListM Bool := do
  skyValidateHandle b list
  let l ← loadList list
  pure (l.count == l.maxSize)

def skyListEmpty (b : Build) (list : Addr) : ListM Bool := do
  skyValidateHandle b list
  pure ((← loadList list).count == 0)

def skyListFront (b : Build) (list : Addr) : ListM Addr := do
  skyValidateHandle b list
  let p := (← loadItem (.head list)).next
  if p ≠ .tail list then do pure (← loadItem p).data else pure 0

def skyListBack (b : Build) (list : Addr) : ListM Addr := do
  skyValidateHandle b list
  let p := (← loadItem (.tail list)).prev
  if p ≠ .head list then do pure (← loadItem p).data else pure 0

/-- `while ( item != NULL && index-- > 0 )` of `sky_list_get_at` and
`while ( index-- && itor != NULL )` of `sky_list_insert`: the index is not read after it wraps. -/
def stepsTo (itor : ItemPtr) : Nat → ListM ItemPtr
  | 0 => pure itor
  | n + 1 => if itor = .null then pure itor else do stepsTo (← loadItem itor).next n

def skyListGetAt (b : Build) (list : Addr) (index : UInt32) : ListM Addr := do
  skyValidateHandle b list
  let l ← loadList list
  if l.count > 0 then
    if index < l.count then do
      let item ← stepsTo (← loadItem (.head list)).next index.toNat
      if item ≠ .null then do pure (← loadItem item).data else pure 0
    else pure 0
  else pure 0

/-! ## Additions -/

/-- A node of the pool, else a new one; `onEmpty` runs before the allocation. -/
def takeItem (onEmpty : ListM Unit) (list : Addr) : ListM ItemPtr := do
  let l ← loadList list
  if l.prealloc = .null then do
    onEmpty
    allocItem A
  else do
    let next := (← loadItem l.prealloc).next
    modifyList list fun l => { l with prealloc := next }
    pure l.prealloc

/-- `item->prev->next = item; item->next->prev = item; l->count += 1` -/
def linkItem (list : Addr) (item : ItemPtr) : ListM Unit := do
  setNext (← loadItem item).prev item
  setPrev (← loadItem item).next item
  modifyList list fun l => { l with count := l.count + 1 }

def skyListPushFront (b : Build) (list data : Addr) : ListM Bool := do
  skyValidateHandle b list
  let l ← loadList list
  if l.count < l.maxSize then do
    let item ← takeItem A (pure ()) list
    if item = .null then pure false
    else do
      setData item data
      setPrev item (.head list)
      setNext item (← loadItem (.head list)).next
      linkItem list item
      pure true
  else pure false

def skyListPushBack (b : Build) (list data : Addr) : ListM Bool := do
  skyValidateHandle b list
  let l ← loadList list
  if l.count < l.maxSize then do
    let item ← takeItem A (pure ()) list
    if item = .null then pure false
    else do
      setData item data
      setPrev item (← loadItem (.tail list)).prev
      setNext item (.tail list)
      linkItem list item
      pure true
  else pure false

def skyListInsert (b : Build) (list : Addr) (index : UInt32) (data : Addr) : ListM Bool := do
  skyValidateHandle b list
  let l ← loadList list
  if l.count < l.maxSize then do
    -- the list does not expect to outgrow the pool here
    let item ← takeItem A (skyAssert b (pure false)) list
    if item = .null then pure false
    else do
      let itor ← stepsTo (← loadItem (.head list)).next index.toNat
      let itor := if itor = .null then .tail list else itor
      setData item data
      setNext item itor
      setPrev item (← loadItem itor).prev
      linkItem list item
      pure true
  else pure false

end

/-! ## Removals -/

def skyListPopFront (b : Build) (list : Addr) : ListM Addr := do
  skyValidateHandle b list
  let l ← loadList list
  if l.count > 0 then
    if l.head.next ≠ .tail list then do
      let item := l.head.next
      setNext (.head list) (← loadItem item).next
      let x ← loadItem item
      setPrev x.next x.prev
      modifyList list fun l => { l with count := l.count - 1 }
      poolItem list item
      pure (← loadItem item).data
    else pure 0
  else pure 0

def skyListPopBack (b : Build) (list : Addr) : ListM Addr := do
  skyValidateHandle b list
  let l ← loadList list
  if l.count > 0 then
    if l.head.next ≠ .tail list then do
      let item := l.tail.prev
      setPrev (.tail list) (← loadItem item).prev
      let x ← loadItem item
      setNext x.prev x.next
      modifyList list fun l => { l with count := l.count - 1 }
      poolItem list item
      pure (← loadItem item).data
    else pure 0
  else pure 0

abbrev SkyListCmpFunc := Addr → Addr → Addr → Bool

def compareDataPtr : SkyListCmpFunc := fun itemData param1 _ => itemData == param1

/-- A call through a function pointer, `none` for NULL. -/
def callCmp (cmpFunc : Option SkyListCmpFunc) (data param1 param2 : Addr) : ListM Bool :=
  match cmpFunc with
  | some f => pure (f data param1 param2)
  | none => fault .badAccess

/-- The rounds of `findItem` that are left, at `itor`. -/
def findFrom (list : Addr) (cmpFunc : Option SkyListCmpFunc) (param1 param2 : Addr)
    (itor : ItemPtr) : Nat → ListM ItemPtr
  | 0 => fault .endless
  | n + 1 =>
    if itor = .tail list then pure itor
    else do
      let x ← loadItem itor
      if ← callCmp cmpFunc x.data param1 param2 then pure itor
      else findFrom list cmpFunc param1 param2 x.next n

/-- `for ( itor = l->head.next; itor != &l->tail; itor = itor->next )` up to the `break` at the
first match. -/
def findItem (list : Addr) (cmpFunc : Option SkyListCmpFunc) (param1 param2 : Addr) :
    ListM ItemPtr := do
  findFrom list cmpFunc param1 param2 (← loadItem (.head list)).next (← walkRounds)

def skyListRemoveIf (b : Build) (list : Addr) (cmpFunc : Option SkyListCmpFunc)
    (param1 param2 : Addr) : ListM Addr := do
  skyValidateHandle b list
  let itor ← findItem list cmpFunc param1 param2
  if itor ≠ .tail list then do
    -- the body of the `if` in the loop, which ends in `break`
    let x ← loadItem itor
    setNext x.prev x.next
    let x ← loadItem itor
    setPrev x.next x.prev
    modifyList list fun l => { l with count := l.count - 1 }
    poolItem list itor
    pure (← loadItem itor).data
  else pure 0

def skyListRemove (b : Build) (list data : Addr) : ListM Addr :=
  skyListRemoveIf b list (some compareDataPtr) data 0

def skyListFindIf (b : Build) (list : Addr) (cmpFunc : Option SkyListCmpFunc)
    (param1 param2 : Addr) : ListM Addr := do
  skyValidateHandle b list
  skyAssert b (pure cmpFunc.isSome)
  let itor ← findItem list cmpFunc param1 param2
  if itor ≠ .tail list then do pure (← loadItem itor).data else pure 0

def skyListContain (b : Build) (list data : Addr) : ListM Bool := do
  let ret ← skyListFindIf b list (some compareDataPtr) data 0
  pure (ret ≠ 0 && ret == data)

/-- `while ( l->head.next != &l->tail )` of `sky_list_clear` -/
def poolItems (list : Addr) : Nat → ListM Unit
  | 0 => fault .endless
  | n + 1 => do
    let item := (← loadItem (.head list)).next
    if item = .tail list then pure ()
    else do
      let temp := (← loadItem item).next
      poolItem list item
      setNext (.head list) temp
      modifyList list fun l => { l with count := l.count - 1 }
      poolItems list n

def skyListClear (b : Build) (list : Addr) : ListM Unit := do
  skyValidateHandle b list
  poolItems list (← walkRounds)
  setPrev (.tail list) (.head list)

/-! ## Calls -/

/-- A call on a list, with a comparison function that is not NULL. -/
inductive Call
  | pushFront (data : Addr)
  | pushBack (data : Addr)
  | insert (index : UInt32) (data : Addr)
  | popFront
  | popBack
  | remove (data : Addr)
  | removeIf (cmpFunc : SkyListCmpFunc) (param1 param2 : Addr)
  | clear
  | size
  | maxSize
  | full
  | empty
  | front
  | back
  | getAt (index : UInt32)
  | contain (data : Addr)
  | findIf (cmpFunc : SkyListCmpFunc) (param1 param2 : Addr)

inductive Resp
  | unit
  | bool (b : Bool)
  | num (n : Nat)
  | ptr (p : Addr)
deriving DecidableEq, Repr

def call (A : Allocator) (b : Build) (l : Addr) : Call → ListM Resp
  | .pushFront d => do pure (.bool (← skyListPushFront A b l d))
  | .pushBack d => do pure (.bool (← skyListPushBack A b l d))
  | .insert i d => do pure (.bool (← skyListInsert A b l i d))
  | .popFront => do pure (.ptr (← skyListPopFront b l))
  | .popBack => do pure (.ptr (← skyListPopBack b l))
  | .remove d => do pure (.ptr (← skyListRemove b l d))
  | .removeIf f p1 p2 => do pure (.ptr (← skyListRemoveIf b l (some f) p1 p2))
  | .clear => do
    skyListClear b l
    pure .unit
  | .size => do pure (.num (← skyListSize b l).toNat)
  | .maxSize => do pure (.num (← skyListMaxSize b l).toNat)
  | .full => do pure (.bool (← skyListFull b l))
  | .empty => do pure (.bool (← skyListEmpty b l))
  | .front => do pure (.ptr (← skyListFront b l))
  | .back => do pure (.ptr (← skyListBack b l))
  | .getAt i => do pure (.ptr (← skyListGetAt b l i))
  | .contain d => do pure (.bool (← skyListContain b l d))
  | .findIf f p1 p2 => do pure (.ptr (← skyListFindIf b l (some f) p1 p2))

end Sky.LinkedList
