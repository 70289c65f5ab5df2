import SkySdk.LocalSocket.Defs

/-!
# Route dumps

What the kernel answers a request for all routes with: a message for each route and one that says
that these were all, in datagrams that each hold one or more of them.
-/

set_option autoImplicit false

namespace Sky.LocalSocket

open Base

/-- A message without its length, which is that of the header and the payload. -/
structure Msg where
  nlmsgType : UInt16
  nlmsgFlags : UInt16
  nlmsgSeq : UInt32
  nlmsgPid : UInt32
  payload : List UInt8
deriving DecidableEq, Repr

namespace Msg

def hdr (m : Msg) : Nlmsghdr where
  nlmsgLen := .ofNat (nlmsghdrSize + m.payload.length)
  nlmsgType := m.nlmsgType
  nlmsgFlags := m.nlmsgFlags
  nlmsgSeq := m.nlmsgSeq
  nlmsgPid := m.nlmsgPid

/-- What is sent of a message: it fills whole words (`NLMSG_ALIGN`). -/
def bytes (m : Msg) : List UInt8 :=
  place 0 m.hdr.fields ++ m.payload ++ .replicate (padding m.payload.length 4) 0

/-- A route of a dump. -/
structure IsRoute (m : Msg) : Prop where
  type : m.nlmsgType ≠ nlmsgError ∧ m.nlmsgType ≠ nlmsgDone
  multi : m.nlmsgFlags &&& nlmFMulti ≠ 0

/-- The message is one that the caller asked for. -/
def Answers (seqNum pid : Int32) (m : Msg) : Prop :=
  m.nlmsgSeq = seqNum.toUInt32 ∧ m.nlmsgPid = pid.toUInt32

instance {seqNum pid : Int32} {m : Msg} : Decidable (m.Answers seqNum pid) :=
  inferInstanceAs (Decidable (_ ∧ _))

end Msg

/-- The messages one behind the other. -/
def bytesOf (ms : List Msg) : List UInt8 := ms.flatMap Msg.bytes

/-- A dump that a buffer of `size` bytes can hold. -/
structure Dump (size : Nat) where
  routes : List Msg
  done : Msg
  datagrams : List (List Msg)
  isRoute : ∀ m ∈ routes, m.IsRoute
  isDone : done.nlmsgType = nlmsgDone
  grouped : datagrams.flatten = routes ++ [done]
  nonempty : ∀ g ∈ datagrams, g ≠ []
  fits : (bytesOf (routes ++ [done])).length ≤ size

namespace Dump

variable {size : Nat}

/-- What comes in on the socket. -/
def sent (d : Dump size) : Socket := d.datagrams.map fun g => some (bytesOf g)

/-- The first message of each datagram. -/
def heads (d : Dump size) : List Msg := d.datagrams.filterMap List.head?

end Dump

/-- The call has read all routes, nothing of `rest`, and never more than there was room for. -/
structure HasRead (routes : List UInt8) (size : Nat) (rest : Socket) (r : Reading) : Prop where
  consumed : r.socket = rest
  start : routes <+: r.buf
  covers : (routes.length : Int) ≤ r.ret
  within : ∀ c ∈ r.asked, c.1 + c.2 ≤ size

/-- A call reads the dump, and leaves what comes in after it. -/
def Reads (d : Dump msgBufSize) (rest : Socket) (buf : List UInt8) (seqNum pid : Int32) : Prop :=
  ∃ r, readNlSock (d.sent ++ rest) buf seqNum pid = .ok r ∧
    HasRead (bytesOf d.routes) msgBufSize rest r

/-- Of the first messages of the datagrams, the last ends the loop and the others do not. -/
def EndsInTime (seqNum pid : Int32) : List Msg → Prop
  | [] => False
  | [m] => m.nlmsgType = nlmsgDone ∨ m.Answers seqNum pid
  | m :: ms => ¬ m.Answers seqNum pid ∧ EndsInTime seqNum pid ms

end Sky.LocalSocket
