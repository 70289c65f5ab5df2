import SkySdk.Base.Buf
import SkySdk.Base.Layout

/-!
# `sky_local_socket.c`: the answer of the kernel

`read_nl_sock`, on a little-endian target. What will come in on the socket is a list: of each `recv`
the bytes of a datagram, or `none` where it fails. A `recv` with nothing left to come waits forever.
-/

set_option autoImplicit false

namespace Sky.LocalSocket

open Base

/-! ## Headers -/

/-- `struct nlmsghdr` -/
@[ext] structure Nlmsghdr where
  nlmsgLen : UInt32
  nlmsgType : UInt16
  nlmsgFlags : UInt16
  nlmsgSeq : UInt32
  nlmsgPid : UInt32
deriving DecidableEq, Repr

namespace Nlmsghdr

def fields (hdr : Nlmsghdr) : List Field :=
  [.u32 hdr.nlmsgLen, .u16 hdr.nlmsgType, .u16 hdr.nlmsgFlags, .u32 hdr.nlmsgSeq,
    .u32 hdr.nlmsgPid]

/-- The header at the offset `p`. -/
def read (buf : List UInt8) (p : Nat) : Except Fault Nlmsghdr := do
  pure { nlmsgLen := ← readU32 buf (p + 0), nlmsgType := ← readU16 buf (p + 4)
         nlmsgFlags := ← readU16 buf (p + 6), nlmsgSeq := ← readU32 buf (p + 8)
         nlmsgPid := ← readU32 buf (p + 12) }

end Nlmsghdr

/-- `sizeof(struct nlmsghdr)` -/
def nlmsghdrSize : Nat := 16

def nlmsgError : UInt16 := 2

def nlmsgDone : UInt16 := 3

def nlmFMulti : UInt16 := 2

/-- `NLMSG_OK`; the header is looked at only when there is one. -/
def nlmsgOk (buf : List UInt8) (nlHdr readLen : Nat) : Except Fault Bool :=
  if nlmsghdrSize ≤ readLen then do
    let hdr ← Nlmsghdr.read buf nlHdr
    pure (nlmsghdrSize ≤ hdr.nlmsgLen.toNat ∧ hdr.nlmsgLen.toNat ≤ readLen)
  else pure false

/-! ## Reading -/

/-- What will come in. -/
abbrev Socket := List (Option (List UInt8))

/-- What a call has done: what it returns, the buffer, the offset and the size of each `recv`, and
what is left on the socket. -/
structure Reading where
  ret : Int
  buf : List UInt8
  asked : List (Nat × Nat)
  socket : Socket
deriving DecidableEq, Repr

/-- The `do … while` loop; `buf` is the whole buffer of `bufSize` bytes, of which `msgLen` are
filled, and `asked` the calls of `recv` so far. -/
def readLoop (bufSize : Nat) (seqNum pid : Int32) :
    Socket → List UInt8 → Nat → List (Nat × Nat) → Except Fault Reading
  | [], _, _, _ => .error .waiting
  | none :: socket, buf, msgLen, asked =>
    .ok { ret := -1, buf, asked := asked ++ [(msgLen, bufSize - msgLen)], socket }
  | some datagram :: socket, buf, msgLen, asked => do
    -- what does not fit is lost
    let received := datagram.take (bufSize - msgLen)
    let asked := asked ++ [(msgLen, bufSize - msgLen)]
    let buf ← writeRun buf msgLen received
    if (← nlmsgOk buf msgLen received.length) then do
      let nlHdr ← Nlmsghdr.read buf msgLen
      if nlHdr.nlmsgType = nlmsgError then pure { ret := -1, buf, asked, socket }
      else if nlHdr.nlmsgType = nlmsgDone then pure { ret := msgLen, buf, asked, socket }
      else do
        let msgLen ← addInt msgLen received.length
        if nlHdr.nlmsgFlags &&& nlmFMulti = 0 then pure { ret := msgLen, buf, asked, socket }
        else if nlHdr.nlmsgSeq ≠ seqNum.toUInt32 ∨ nlHdr.nlmsgPid ≠ pid.toUInt32 then
          readLoop bufSize seqNum pid socket buf msgLen asked
        else pure { ret := msgLen, buf, asked, socket }
    else pure { ret := -1, buf, asked, socket }

/-- `buf` is the buffer, which is as long as `buf_size` says. -/
def readNlSock (socket : Socket) (buf : List UInt8) (seqNum pid : Int32) : Except Fault Reading :=
  readLoop buf.length seqNum pid socket buf 0 []

/-- `sizeof( msg_buf )` of `sky_if_get_gateway`. -/
def msgBufSize : Nat := 8192

end Sky.LocalSocket
