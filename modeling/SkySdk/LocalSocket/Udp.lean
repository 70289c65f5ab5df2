import SkySdk.Base.Buf
import SkySdk.Base.Checksum

/-!
# `sky_local_socket.c`: raw UDP packets

`sky_socket_send_raw_udp`, on a little-endian target, and what the receiver of a packet makes of it
(`receive`). `sky_algorithm_inet_chksum` is not in the repository: it is the parameter `inetChksum`,
a function of the bytes that it is given.
-/

set_option autoImplicit false

namespace Sky.LocalSocket

open Base

/-! ## Headers -/

/-- `struct iphdr` -/
structure Iphdr where
  ihl : Nat
  version : Nat
  tos : UInt8
  totLen : UInt16
  id : UInt16
  fragOff : UInt16
  ttl : UInt8
  protocol : UInt8
  check : UInt16
  saddr : UInt32
  daddr : UInt32

/-- `struct udphdr` -/
structure Udphdr where
  source : UInt16
  dest : UInt16
  len : UInt16
  check : UInt16

/-- The two bit-fields of four bits share a byte. -/
def Iphdr.bytes (h : Iphdr) : List UInt8 :=
  [.ofNat (h.version % 16 * 16 + h.ihl % 16), h.tos] ++ leBytes 2 h.totLen.toNat ++
    leBytes 2 h.id.toNat ++ leBytes 2 h.fragOff.toNat ++ [h.ttl, h.protocol] ++
    leBytes 2 h.check.toNat ++ leBytes 4 h.saddr.toNat ++ leBytes 4 h.daddr.toNat

def Udphdr.bytes (h : Udphdr) : List UInt8 :=
  leBytes 2 h.source.toNat ++ leBytes 2 h.dest.toNat ++ leBytes 2 h.len.toNat ++
    leBytes 2 h.check.toNat

/-- `struct ip_udp_packet`, which is packed; `data` has 512 bytes. -/
structure IpUdpPacket where
  ip : Iphdr
  udp : Udphdr
  data : List UInt8

def IpUdpPacket.bytes (packet : IpUdpPacket) : List UInt8 :=
  packet.ip.bytes ++ packet.udp.bytes ++ packet.data

/-- `sizeof( packet.data )`, `sizeof( packet.ip )` and `sizeof( packet.udp )` -/
def dataSize : Nat := 512

def iphdrSize : Nat := 20

def udphdrSize : Nat := 8

def zeroIphdr : Iphdr :=
  { ihl := 0, version := 0, tos := 0, totLen := 0, id := 0, fragOff := 0, ttl := 0, protocol := 0
    check := 0, saddr := 0, daddr := 0 }

def zeroUdphdr : Udphdr := { source := 0, dest := 0, len := 0, check := 0 }

/-- `htons` -/
def htons (n : UInt16) : UInt16 := (n <<< 8) ||| (n >>> 8)

/-- `struct sockaddr_ll`; `sll_addr` has 8 bytes. -/
structure SockaddrLl where
  sllFamily : UInt16
  sllProtocol : UInt16
  sllIfindex : Int32
  sllHatype : UInt16
  sllPkttype : UInt8
  sllHalen : UInt8
  sllAddr : List UInt8
deriving DecidableEq, Repr

/-! ## Sending -/

/-- The socket or a failure, whether it can be bound, and what `sendto` returns. -/
structure PacketKernel where
  socket : Option Nat
  binds : Bool
  sendto : Int

inductive PacketCall
  | socket
  | bind (sockfd : Nat) (destSll : SockaddrLl)
  | sendto (sockfd : Nat) (packet : List UInt8) (destSll : SockaddrLl)
  | close (sockfd : Nat)
deriving DecidableEq, Repr

def etherIp : UInt16 := 0x0800

/-- The packet with all but the fields that only the IP header needs: what is summed for UDP. -/
def summedPacket (dstIp : UInt32) (dstPort : Int32) (srcIp : UInt32) (srcPort : Int32)
    (data : List UInt8) (len : UInt32) : IpUdpPacket :=
  let udpLen := htons (.ofNat (udphdrSize + len.toNat))
  { ip := { zeroIphdr with protocol := 17, saddr := srcIp, daddr := dstIp, totLen := udpLen }
    udp := { zeroUdphdr with
      source := srcPort.toUInt32.toUInt16, dest := dstPort.toUInt32.toUInt16, len := udpLen }
    data }

/-- The packet with its checksum for UDP. -/
def withUdpCheck (inetChksum : List UInt8 → UInt16) (packet : IpUdpPacket) (len : UInt32) :
    IpUdpPacket :=
  { packet with udp := { packet.udp with
      check := inetChksum (packet.bytes.take (iphdrSize + udphdrSize + len.toNat)) } }

/-- The IP header as it is sent, but for its checksum. -/
def withIpFields (packet : IpUdpPacket) (packetLen : UInt32) : IpUdpPacket :=
  { packet with ip := { packet.ip with
      totLen := htons packetLen.toUInt16
      ihl := iphdrSize >>> 2
      version := 4
      fragOff := htons 0x4000
      ttl := 64 } }

def withIpCheck (inetChksum : List UInt8 → UInt16) (packet : IpUdpPacket) : IpUdpPacket :=
  { packet with ip := { packet.ip with check := inetChksum packet.ip.bytes } }

/-- `dest_sll` -/
def destSllOf (ifIndex : Int32) (dstMac : List UInt8) : SockaddrLl where
  sllFamily := 17
  sllProtocol := htons etherIp
  sllIfindex := ifIndex
  sllHatype := 0
  sllPkttype := 0
  sllHalen := 6
  sllAddr := dstMac.take 6 ++ [0, 0]

/-- `dst_mac` and `buf` are the bytes that the pointers lead to. -/
def skySocketSendRawUdp (inetChksum : List UInt8 → UInt16) (K : PacketKernel) (ifIndex : Int32)
    (dstMac : List UInt8) (dstIp : UInt32) (dstPort : Int32) (srcIp : UInt32) (srcPort : Int32)
    (buf : List UInt8) (len : UInt32) : Except Fault (Int × List PacketCall) :=
  if dataSize < len.toNat then .ok (-1, [])
  else match K.socket with
    | none => .ok (-1, [.socket])
    | some sockfd =>
      if buf.length < len.toNat then .error .outOfBounds
      else if dstMac.length < 6 then .error .outOfBounds
      else do
        let data ← writeRun (.replicate dataSize 0) 0 (buf.take len.toNat)
        let packetLen : UInt32 := .ofNat (iphdrSize + udphdrSize) + len
        let destSll := destSllOf ifIndex dstMac
        if K.binds then
          let packet := summedPacket dstIp dstPort srcIp srcPort data len
          let packet := withUdpCheck inetChksum packet len
          let packet := withIpCheck inetChksum (withIpFields packet packetLen)
          pure (K.sendto, [.socket, .bind sockfd destSll,
            .sendto sockfd (packet.bytes.take packetLen.toNat) destSll, .close sockfd])
        else pure (-1, [.socket, .bind sockfd destSll, .close sockfd])

/-! ## Receiving -/

/-- What is delivered: the addresses in network byte order, the ports as numbers. -/
structure Delivered where
  srcIp : List UInt8
  dstIp : List UInt8
  srcPort : Nat
  dstPort : Nat
  payload : List UInt8
deriving DecidableEq, Repr

/-- What a host does with a UDP packet without IP options: the lengths have to be those of what has
come in, and the checksums to be right, of which that for UDP may be left out. -/
def receive : List UInt8 → Option Delivered
  | v :: tos :: l1 :: l0 :: i1 :: i0 :: f1 :: f0 :: ttl :: proto :: c1 :: c0 :: s3 :: s2 :: s1 ::
      s0 :: d3 :: d2 :: d1 :: d0 :: p1 :: p0 :: q1 :: q0 :: u1 :: u0 :: k1 :: k0 :: payload =>
    let ip := [v, tos, l1, l0, i1, i0, f1, f0, ttl, proto, c1, c0, s3, s2, s1, s0, d3, d2, d1, d0]
    let udp := [p1, p0, q1, q0, u1, u0, k1, k0]
    let pseudo := [s3, s2, s1, s0, d3, d2, d1, d0, 0, proto, u1, u0]
    if v = 0x45 ∧ ttl ≠ 0 ∧ proto = 17 ∧ onesSum beWord ip = 65535 ∧
        beWord l1 l0 = 28 + payload.length ∧ beWord u1 u0 = 8 + payload.length ∧
        (beWord k1 k0 = 0 ∨ onesSum beWord (pseudo ++ udp ++ payload) = 65535) then
      some { srcIp := [s3, s2, s1, s0], dstIp := [d3, d2, d1, d0], srcPort := beWord p1 p0
             dstPort := beWord q1 q0, payload }
    else none
  | _ => none

end Sky.LocalSocket
