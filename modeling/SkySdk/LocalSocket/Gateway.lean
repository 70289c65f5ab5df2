import SkySdk.Base.Dotted
import SkySdk.LocalSocket.Defs
import SkySdk.Str.Search

/-!
# `sky_local_socket.c`: the gateway of an interface

`sky_if_get_gateway`. What it uses from outside of the repository is `External`. What the kernel
answers is `Kernel`; the system calls are logged with the descriptors that they are made on.
-/

set_option autoImplicit false

namespace Sky.LocalSocket

open Base

/-- `struct route_info`; `if_name` up to its NUL. -/
structure RouteInfo where
  dstAddr : UInt32
  srcAddr : UInt32
  gateway : UInt32
  ifName : CStr
deriving DecidableEq, Repr

/-- `SKY_INADDR_ANY`, `parse_routes`, which is given a message of `nlmsg_len` bytes and fails or
fills in the route, `sky_inet_ntoa` and `sky_algorithm_inet_chksum`. -/
structure External where
  inaddrAny : UInt32
  parseRoutes : List UInt8 → Option RouteInfo
  inetNtoa : UInt32 → CStr
  inetChksum : List UInt8 → UInt16

/-- The socket or a failure, whether the request can be sent, `getpid()`, and what comes in. -/
structure Kernel where
  socket : Option Nat
  sends : Bool
  pid : Int32
  incoming : Socket

inductive SysCall
  | socket
  | send (sock : Nat) (bytes : List UInt8)
  | recv (sock offset size : Nat)
  | close (sock : Nat)
deriving DecidableEq, Repr

/-- What a call of `sky_if_get_gateway` returns and has done. -/
structure Fetched where
  gatewayAddr : UInt32
  log : List SysCall
  socket : Socket
deriving DecidableEq, Repr

/-- `"0.0.0.0"` -/
def anyAddress : CStr := ⟨dottedZeros, zero_notMem_dotted 0 0 0 0⟩

/-- `NLMSG_ALIGN` -/
def nlmsgAlign (len : UInt32) : UInt32 := (len + 3) &&& ~~~3

/-- The route is one of the interface, and its destination is taken for the default. -/
def isGatewayOf (X : External) (ifName : CStr) (routeInfo : RouteInfo) : Bool :=
  skyStrCmp routeInfo.ifName ifName = 0 ∧
    (skyStrStr (X.inetNtoa routeInfo.dstAddr) anyAddress).isSome

/-- The `for` loop with at most the given number of rounds: `nl_msg` is the offset in the buffer,
`len` may become negative. -/
def findGateway (X : External) (buf : List UInt8) (ifName : CStr) :
    Nat → Nat → Int → Except Fault UInt32
  | 0, _, _ => .error .endless
  | rounds + 1, nlMsg, len => do
    if ← nlmsgOk buf nlMsg len.toNat then do
      let hdr ← Nlmsghdr.read buf nlMsg
      let next := (nlmsgAlign hdr.nlmsgLen).toNat
      match X.parseRoutes ((buf.drop nlMsg).take hdr.nlmsgLen.toNat) with
      | none => findGateway X buf ifName rounds (nlMsg + next) (len - next)
      | some routeInfo =>
        if isGatewayOf X ifName routeInfo then pure routeInfo.gateway
        else findGateway X buf ifName rounds (nlMsg + next) (len - next)
    else pure X.inaddrAny

/-- `RTM_GETROUTE` with `NLM_F_DUMP | NLM_F_REQUEST` and the sequence number 0, for a `struct rtmsg`
of 12 bytes. -/
def requestHdr (pid : Int32) : Nlmsghdr where
  nlmsgLen := 28
  nlmsgType := 26
  nlmsgFlags := 0x301
  nlmsgSeq := 0
  nlmsgPid := pid.toUInt32

def skyIfGetGateway (X : External) (K : Kernel) (ifName : CStr) : Except Fault Fetched :=
  match K.socket with
  | none => .ok { gatewayAddr := X.inaddrAny, log := [.socket], socket := K.incoming }
  | some sock => do
    let msgBuf ← writeRun (.replicate msgBufSize 0) 0 (place 0 (requestHdr K.pid).fields)
    let log := [.socket, .send sock (msgBuf.take (requestHdr K.pid).nlmsgLen.toNat)]
    if K.sends then do
      -- the sequence number is one higher by now
      let r ← readNlSock K.incoming msgBuf 1 K.pid
      let log := log ++ r.asked.map fun c => SysCall.recv sock c.1 c.2
      if r.ret < 0 then
        pure { gatewayAddr := X.inaddrAny, log := log ++ [.close sock], socket := r.socket }
      else do
        let gatewayAddr ← findGateway X r.buf ifName (r.ret.toNat + 1) 0 r.ret
        pure { gatewayAddr, log := log ++ [.close sock], socket := r.socket }
    else pure { gatewayAddr := X.inaddrAny, log := log ++ [.close sock], socket := K.incoming }

end Sky.LocalSocket
