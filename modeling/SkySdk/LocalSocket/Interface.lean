import SkySdk.LocalSocket.Gateway
import SkySdk.LocalSocket.Udp
import Mathlib.Data.Finset.Insert

/-!
# `sky_local_socket.c`: the addresses of an interface

`sky_if_get_hwaddr`, `sky_if_get_ip` and `sky_if_get_netmask`. They ask the kernel with an `ioctl`
on a socket, which they take for a failure when it is the descriptor 0; the -1 of a failure they go
on with. Two of them pass the name as a format.

A `Query` is one call of any function of the file, and `query` what it does to the descriptors that
the process has open.
-/

set_option autoImplicit false

namespace Sky.LocalSocket

open Base

/-- `SIOCGIFHWADDR`, `SIOCGIFADDR` and `SIOCGIFNETMASK` -/
inductive IfRequest
  | hwaddr
  | addr
  | netmask
deriving DecidableEq, Repr

/-- `struct sockaddr` -/
structure Sockaddr where
  saFamily : UInt16
  saData : List UInt8
  size : saData.length = 14
deriving DecidableEq, Repr

/-- The socket or a failure, and what `ioctl` answers on a socket for the 16 bytes of a name. -/
structure IfKernel where
  socket : Option Nat
  ioctl : IfRequest → List UInt8 → Option Sockaddr

inductive IfCall
  | socket
  | ioctl (sockfd : Int) (request : IfRequest) (ifrName : List UInt8)
  | close (sockfd : Int)
deriving DecidableEq, Repr

def IfKernel.sockfd (K : IfKernel) : Int :=
  match K.socket with
  | some sockfd => sockfd
  | none => -1

def IfKernel.answer (K : IfKernel) (request : IfRequest) (ifrName : List UInt8) :
    Option Sockaddr :=
  match K.socket with
  | some _ => K.ioctl request ifrName
  | none => none

/-- `IFNAMSIZ` -/
def ifnamsiz : Nat := 16

def afInet : UInt16 := 2

/-- `'%'` -/
def percent : UInt8 := 37

/-- A format that is given no arguments. What a percent sign starts other than `%%` is not known. -/
def expandFormat : List UInt8 → Except Fault (List UInt8)
  | [] => .ok []
  | c :: format =>
    if c = percent then
      match format with
      | d :: format =>
        if d = percent then do pure (percent :: (← expandFormat format))
        else .error .indeterminate
      | [] => .error .indeterminate
    else do pure (c :: (← expandFormat format))

/-- `ifr_name` after `sky_str_printf` with the name as the format. -/
def printedName (ifName : CStr) : Except Fault (List UInt8) := do
  let text ← expandFormat ifName.bytes
  pure ((text.take (ifnamsiz - 1) ++ List.replicate ifnamsiz 0).take ifnamsiz)

/-- `ifr_name` after `sky_str_cpy`. -/
def copiedName (ifName : CStr) : List UInt8 :=
  (ifName.bytes ++ List.replicate ifnamsiz 0).take ifnamsiz

/-- `hwAddr` are the bytes at `hw_addr`; as a parameter it is a pointer, and `sizeof( hw_addr )` the
size of one. -/
def skyIfGetHwaddr (pointerSize : Nat) (K : IfKernel) (ifName : CStr) (hwAddr : List UInt8) :
    Except Fault (Bool × List UInt8 × List IfCall) :=
  if K.sockfd = 0 then .ok (false, hwAddr, [.socket])
  else do
    let ifrName ← printedName ifName
    let log := [.socket, .ioctl K.sockfd .hwaddr ifrName, .close K.sockfd]
    match K.answer .hwaddr ifrName with
    | none => pure (false, hwAddr, log)
    | some sa => do
      let hwAddr ← writeRun hwAddr 0 (sa.saData.take pointerSize)
      pure (true, hwAddr, log)

/-- What `sky_if_get_ip` and `sky_if_get_netmask` share. -/
def ifAddress (X : External) (K : IfKernel) (request : IfRequest)
    (ifrName : Except Fault (List UInt8)) : Except Fault (UInt32 × List IfCall) :=
  if K.sockfd = 0 then .ok (X.inaddrAny, [.socket])
  else do
    let ifrName ← ifrName
    let log := [.socket, .ioctl K.sockfd request ifrName, .close K.sockfd]
    match K.answer request ifrName with
    | none => pure (X.inaddrAny, log)
    | some sa =>
      if sa.saFamily ≠ afInet then pure (X.inaddrAny, log)
      else do
        -- the port comes first
        let sAddr ← readU32 sa.saData 2
        pure (sAddr, log)

def skyIfGetIp (X : External) (K : IfKernel) (ifName : CStr) :
    Except Fault (UInt32 × List IfCall) :=
  ifAddress X K .addr (.ok (copiedName ifName))

def skyIfGetNetmask (X : External) (K : IfKernel) (ifName : CStr) :
    Except Fault (UInt32 × List IfCall) :=
  ifAddress X K .netmask (printedName ifName)

/-! ## Descriptors -/

/-- What a system call does to the descriptors. -/
inductive FdEvent
  | opened
  | closed (fd : Int)
deriving DecidableEq, Repr

def IfCall.event : IfCall → Option FdEvent
  | .socket => some .opened
  | .ioctl _ _ _ => none
  | .close sockfd => some (.closed sockfd)

def SysCall.event : SysCall → Option FdEvent
  | .socket => some .opened
  | .send _ _ => none
  | .recv _ _ _ => none
  | .close sock => some (.closed sock)

def PacketCall.event : PacketCall → Option FdEvent
  | .socket => some .opened
  | .bind _ _ => none
  | .sendto _ _ _ => none
  | .close sockfd => some (.closed sockfd)

/-- A call of a function of the file, with what the kernel has for it; a socket is the lowest
descriptor that is free, if `granted`. -/
inductive Query
  | hwaddr (granted : Bool) (ioctl : IfRequest → List UInt8 → Option Sockaddr) (pointerSize : Nat)
      (ifName : CStr) (hwAddr : List UInt8)
  | ip (granted : Bool) (ioctl : IfRequest → List UInt8 → Option Sockaddr) (ifName : CStr)
  | netmask (granted : Bool) (ioctl : IfRequest → List UInt8 → Option Sockaddr) (ifName : CStr)
  | gateway (granted sends : Bool) (pid : Int32) (incoming : Socket) (ifName : CStr)
  | sendRawUdp (granted binds : Bool) (sendto : Int) (ifIndex : Int32) (dstMac : List UInt8)
      (dstIp : UInt32) (dstPort : Int32) (srcIp : UInt32) (srcPort : Int32) (buf : List UInt8)
      (len : UInt32)

def Query.granted : Query → Bool
  | .hwaddr granted _ _ _ _ => granted
  | .ip granted _ _ => granted
  | .netmask granted _ _ => granted
  | .gateway granted _ _ _ _ => granted
  | .sendRawUdp granted _ _ _ _ _ _ _ _ _ _ => granted

/-- The events of a call whose socket is `got`. -/
def Query.events (X : External) (got : Option Nat) : Query → Except Fault (List FdEvent)
  | .hwaddr _ ioctl pointerSize ifName hwAddr => do
    let (_, _, log) ← skyIfGetHwaddr pointerSize { socket := got, ioctl } ifName hwAddr
    pure (log.filterMap IfCall.event)
  | .ip _ ioctl ifName => do
    let (_, log) ← skyIfGetIp X { socket := got, ioctl } ifName
    pure (log.filterMap IfCall.event)
  | .netmask _ ioctl ifName => do
    let (_, log) ← skyIfGetNetmask X { socket := got, ioctl } ifName
    pure (log.filterMap IfCall.event)
  | .gateway _ sends pid incoming ifName => do
    let fetched ← skyIfGetGateway X { socket := got, sends, pid, incoming } ifName
    pure (fetched.log.filterMap SysCall.event)
  | .sendRawUdp _ binds sendto ifIndex dstMac dstIp dstPort srcIp srcPort buf len => do
    let (_, log) ← skySocketSendRawUdp X.inetChksum { socket := got, binds, sendto } ifIndex dstMac
      dstIp dstPort srcIp srcPort buf len
    pure (log.filterMap PacketCall.event)

theorem exists_free (fds : Finset Nat) : ∃ fd, fd ∉ fds := fds.exists_notMem

/-- The descriptor that a new socket gets. -/
def lowestFree (fds : Finset Nat) : Nat := Nat.find (exists_free fds)

/-- The open descriptors after an event; to close one that is not open does nothing. -/
def FdEvent.apply (got : Option Nat) (fds : Finset Nat) : FdEvent → Finset Nat
  | .opened =>
    match got with
    | some fd => insert fd fds
    | none => fds
  | .closed fd => fds.filter fun n => (n : Int) ≠ fd

def query (X : External) (q : Query) : Prog (Finset Nat) Unit := fun fds =>
  let got := if q.granted then some (lowestFree fds) else none
  match q.events X got with
  | .ok events => .ok ((), events.foldl (FdEvent.apply got) fds)
  | .error e => .error e

end Sky.LocalSocket
