import SkySdk.Shm.World

/-!
# The memory behind a handle

`sky_share_memory_get_buffer` and `sky_share_memory_size`, which read the struct of a handle, and
what they return in a state of the processes (`answer`). `World.behind` is the object that a handle
has open and mapped.
-/

set_option autoImplicit false

namespace Sky.Shm

open Base

def skyShareMemoryGetBuffer (shareMem : Addr) : ShmM (Option Addr) := do
  request (.validate shareMem)
  let p ← request (.load shareMem)
  pure p.ptr

def skyShareMemorySize (shareMem : Addr) : ShmM UInt32 := do
  request (.validate shareMem)
  let p ← request (.load shareMem)
  pure p.size

section
variable {ι : Type} [DecidableEq ι]

/-- A request of process `i` without the steps of others, where nothing fails. -/
def answer (b : Build) (i : ι) (o : Request) : Prog (World ι) o.Reply := fun w =>
  match exec b i o .succeed w with
  | some (w', some r) => .ok (r, w')
  | _ => .error .aborted

end

def World.behind {ι : Type} (w : World ι) (i : ι) (p : Addr) : Option Nat :=
  (w.blocks i p).bind fun sm => w.objectOf sm.file

end Sky.Shm
