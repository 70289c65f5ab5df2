import SkySdk.LocalSocket.Udp
import Mathlib.Data.Nat.Bitwise

/-!
# A raw UDP packet arrives

The checksum for UDP is taken over a packet whose IP header has only the fields of the
pseudo-header, and that for IP over the header as it is sent. The words of both sums are those that
the receiver sums, in another order (`wordSum_pseudo`, `wordSum_check`).
-/

set_option autoImplicit false

namespace Sky.LocalSocket

open Base

variable {n : UInt16} {len srcIp dstIp packetLen : UInt32} {srcPort dstPort ifIndex : Int32}
  {data buf dstMac : List UInt8} {inetChksum : List UInt8 → UInt16}

/-! ## Words in network byte order -/

theorem toNat_htons (n : UInt16) : (htons n).toNat = n.toNat % 256 * 256 + n.toNat / 256 := by
  have hlt := n.toNat_lt
  have hlow : n.toNat / 256 < 2 ^ 8 := by omega
  have hhigh : n.toNat * 256 % 65536 = n.toNat % 256 * 2 ^ 8 := by omega
  rw [htons, UInt16.toNat_or, UInt16.toNat_shiftLeft, UInt16.toNat_shiftRight]
  have h8 : (8 : UInt16).toNat % 16 = 8 := rfl
  rw [h8, Nat.shiftLeft_eq, Nat.shiftRight_eq_div_pow]
  change n.toNat * 256 % 65536 ||| n.toNat / 256 = _
  rw [hhigh, Nat.mul_comm (n.toNat % 256), ← Nat.two_pow_add_eq_or_of_lt hlow, Nat.mul_comm]

/-- The bytes of a word, read in the other order. -/
theorem beWord_ofNat (n : UInt16) :
    beWord (.ofNat n.toNat) (.ofNat (n.toNat / 256)) = (htons n).toNat := by
  have hlt := n.toNat_lt
  rw [toNat_htons, beWord]
  simp only [UInt8.toNat_ofNat']
  omega

theorem htons_htons (n : UInt16) : (htons (htons n)).toNat = n.toNat := by
  have hlt := n.toNat_lt
  rw [toNat_htons, toNat_htons]
  omega

/-! ## Sums of headers -/

/-- The words of an address. -/
def addrSum (addr : UInt32) : Nat := wordSum leWord (leBytes 4 addr.toNat)

theorem wordSum_ip (h : Iphdr) : wordSum leWord h.bytes =
    leWord (.ofNat (h.version % 16 * 16 + h.ihl % 16)) h.tos + h.totLen.toNat + h.id.toNat +
      h.fragOff.toNat + leWord h.ttl h.protocol + h.check.toNat + addrSum h.saddr +
      addrSum h.daddr := by
  simp only [Iphdr.bytes, leBytes, addrSum, List.cons_append, List.nil_append, wordSum,
    leWord_ofNat]
  omega

theorem wordSum_udp (h : Udphdr) : wordSum leWord h.bytes =
    h.source.toNat + h.dest.toNat + h.len.toNat + h.check.toNat := by
  simp only [Udphdr.bytes, leBytes, List.cons_append, List.nil_append, wordSum, leWord_ofNat]
  omega

theorem wordSum_check (packet : IpUdpPacket) (h : packet.ip.check = 0) :
    wordSum leWord (withIpCheck inetChksum packet).ip.bytes =
      wordSum leWord packet.ip.bytes + (inetChksum packet.ip.bytes).toNat := by
  have hzero : (0 : UInt16).toNat = 0 := rfl
  rw [wordSum_ip, wordSum_ip, h, hzero]
  simp only [withIpCheck]
  omega

theorem length_ip (h : Iphdr) : h.bytes.length = iphdrSize := rfl

theorem length_udp (h : Udphdr) : h.bytes.length = udphdrSize := rfl

theorem take_packet (packet : IpUdpPacket) {d z : List UInt8} (hd : packet.data = d ++ z)
    (hlen : d.length = len.toNat) :
    packet.bytes.take (iphdrSize + udphdrSize + len.toNat) =
      packet.ip.bytes ++ packet.udp.bytes ++ d := by
  have hsplit : packet.bytes = packet.ip.bytes ++ packet.udp.bytes ++ d ++ z := by
    rw [IpUdpPacket.bytes, hd, ← List.append_assoc]
  have hlength : (packet.ip.bytes ++ packet.udp.bytes ++ d).length =
      iphdrSize + udphdrSize + len.toNat := by
    rw [List.length_append, List.length_append, length_ip, length_udp, hlen]
  rw [hsplit, ← hlength, List.take_left]

/-- The pseudo-header of UDP. -/
def pseudoHeader (srcIp dstIp : UInt32) (udpLen : UInt16) : List UInt8 :=
  leBytes 4 srcIp.toNat ++ leBytes 4 dstIp.toNat ++ [0, 17] ++ leBytes 2 udpLen.toNat

theorem length_pseudo (srcIp dstIp : UInt32) (udpLen : UInt16) :
    (pseudoHeader srcIp dstIp udpLen).length = 12 := rfl

/-- The packet that is summed for UDP has the words of the pseudo-header in its IP header. -/
theorem wordSum_pseudo {d z : List UInt8} (hd : data = d ++ z) (hlen : d.length = len.toNat) :
    let packet := summedPacket dstIp dstPort srcIp srcPort data len
    wordSum leWord (pseudoHeader srcIp dstIp packet.udp.len ++
        (withUdpCheck inetChksum packet len).udp.bytes ++ d) =
      wordSum leWord (packet.bytes.take (iphdrSize + udphdrSize + len.toNat)) +
        (withUdpCheck inetChksum packet len).udp.check.toNat := by
  intro packet
  have hpseudo : wordSum leWord (pseudoHeader srcIp dstIp packet.udp.len) =
      addrSum srcIp + addrSum dstIp + leWord 0 17 + packet.udp.len.toNat := by
    simp only [pseudoHeader, leBytes, addrSum, List.cons_append, List.nil_append, wordSum,
      leWord_ofNat]
    omega
  have hip : wordSum leWord packet.ip.bytes =
      addrSum srcIp + addrSum dstIp + leWord 0 17 + packet.udp.len.toNat := by
    rw [wordSum_ip]
    simp only [packet, summedPacket, zeroIphdr]
    have hfirst : leWord (.ofNat (0 % 16 * 16 + 0 % 16)) 0 = 0 := rfl
    have hzero : (0 : UInt16).toNat = 0 := rfl
    rw [hfirst, hzero]
    omega
  have hudp : wordSum leWord (withUdpCheck inetChksum packet len).udp.bytes =
      wordSum leWord packet.udp.bytes + (withUdpCheck inetChksum packet len).udp.check.toNat := by
    rw [wordSum_udp, wordSum_udp]
    rfl
  have hheaders (xs : List UInt8) (h : xs.length % 2 = 0) (u : Udphdr) :
      wordSum leWord (xs ++ u.bytes ++ d) =
        wordSum leWord xs + wordSum leWord u.bytes + wordSum leWord d := by
    have heven : (xs ++ u.bytes).length % 2 = 0 := by
      rw [List.length_append, length_udp, udphdrSize]
      omega
    rw [wordSum_append _ _ _ heven, wordSum_append _ _ _ h]
  have hpseudoLength : (pseudoHeader srcIp dstIp packet.udp.len).length % 2 = 0 := by
    rw [length_pseudo]
  have hipLength : packet.ip.bytes.length % 2 = 0 := by rw [length_ip, iphdrSize]
  rw [take_packet packet hd hlen, hheaders _ hpseudoLength, hheaders _ hipLength, hpseudo, hip,
    hudp]
  omega

/-! ## The packet -/

/-- The packet that a call sends, of `packetLen` bytes. -/
def sentPacket (inetChksum : List UInt8 → UInt16) (dstIp : UInt32) (dstPort : Int32)
    (srcIp : UInt32) (srcPort : Int32) (data : List UInt8) (len packetLen : UInt32) :
    IpUdpPacket :=
  withIpCheck inetChksum (withIpFields
    (withUdpCheck inetChksum (summedPacket dstIp dstPort srcIp srcPort data len) len) packetLen)

/-- A packet with right lengths and checksums is delivered. -/
theorem receive_headers {ip : Iphdr} {udp : Udphdr} {d : List UInt8}
    (hfirst : ip.version = 4 ∧ ip.ihl = 5) (hip : ip.ttl ≠ 0 ∧ ip.protocol = 17)
    (hcheck : onesSum beWord ip.bytes = 65535) (htotal : (htons ip.totLen).toNat = 28 + d.length)
    (hlen : (htons udp.len).toNat = 8 + d.length)
    (hudp : onesSum beWord (pseudoHeader ip.saddr ip.daddr udp.len ++ udp.bytes ++ d) = 65535) :
    receive (ip.bytes ++ udp.bytes ++ d) =
      some { srcIp := leBytes 4 ip.saddr.toNat
             dstIp := leBytes 4 ip.daddr.toNat
             srcPort := (htons udp.source).toNat
             dstPort := (htons udp.dest).toNat
             payload := d } := by
  obtain ⟨hversion, hihl⟩ := hfirst
  obtain ⟨httl, hproto⟩ := hip
  have hbyte : UInt8.ofNat (ip.version % 16 * 16 + ip.ihl % 16) = 0x45 := by
    rw [hversion, hihl]
    rfl
  rw [← beWord_ofNat] at htotal hlen
  rw [← beWord_ofNat, ← beWord_ofNat]
  rw [pseudoHeader, ← hproto] at hudp
  exact if_pos ⟨hbyte, httl, hproto, hcheck, htotal, hlen, .inr hudp⟩

theorem receive_sent (hsum : ∀ bytes, Completes (inetChksum bytes) bytes) (srcIp dstIp : UInt32)
    (srcPort dstPort : Int32) {d z : List UInt8} (hd : data = d ++ z) (hlen : d.length = len.toNat)
    (hfit : len.toNat ≤ dataSize) (hpacket : packetLen.toNat = iphdrSize + udphdrSize + len.toNat) :
    receive ((sentPacket inetChksum dstIp dstPort srcIp srcPort data len packetLen).bytes.take
        packetLen.toNat) =
      some { srcIp := leBytes 4 srcIp.toNat
             dstIp := leBytes 4 dstIp.toNat
             srcPort := (htons srcPort.toUInt32.toUInt16).toNat
             dstPort := (htons dstPort.toUInt32.toUInt16).toNat
             payload := d } := by
  simp only [dataSize] at hfit
  have hsmall : packetLen.toUInt16.toNat = packetLen.toNat := by
    rw [UInt32.toNat_toUInt16]
    refine Nat.mod_eq_of_lt ?_
    rw [hpacket]
    simp only [iphdrSize, udphdrSize]
    omega
  have hudpLen : (UInt16.ofNat (udphdrSize + len.toNat)).toNat = udphdrSize + len.toNat := by
    rw [UInt16.toNat_ofNat']
    refine Nat.mod_eq_of_lt ?_
    simp only [udphdrSize]
    omega
  rw [hpacket, take_packet _ hd hlen]
  refine receive_headers ⟨rfl, rfl⟩ ⟨?_, rfl⟩ ((hsum _).verifies (wordSum_check _ rfl)) ?_ ?_
    ((hsum _).verifies (wordSum_pseudo hd hlen))
  · show (64 : UInt8) ≠ 0
    decide
  · show (htons (htons packetLen.toUInt16)).toNat = 28 + d.length
    rw [htons_htons, hsmall, hpacket, hlen]
    rfl
  · show (htons (htons (.ofNat (udphdrSize + len.toNat)))).toNat = 8 + d.length
    rw [htons_htons, hudpLen, hlen]
    rfl

/-- **A packet that is sent arrives.** With up to 512 bytes of data, a socket, a network and the
Internet checksum, a call sends one packet on one socket, which it closes, and the receiver is
delivered the data, from and to the addresses given. The ports are those given in network byte
order. -/
theorem sendRawUdp_delivered {sockfd : Nat} (K : PacketKernel)
    (hsum : ∀ bytes, Completes (inetChksum bytes) bytes) (hsock : K.socket = some sockfd)
    (hbinds : K.binds = true) (hlen : len.toNat ≤ dataSize) (hbuf : len.toNat ≤ buf.length)
    (hmac : 6 ≤ dstMac.length) : ∃ packet destSll,
      skySocketSendRawUdp inetChksum K ifIndex dstMac dstIp dstPort srcIp srcPort buf len =
        .ok (K.sendto, [.socket, .bind sockfd destSll, .sendto sockfd packet destSll,
          .close sockfd]) ∧
      receive packet = some
        { srcIp := leBytes 4 srcIp.toNat
          dstIp := leBytes 4 dstIp.toNat
          srcPort := (htons srcPort.toUInt32.toUInt16).toNat
          dstPort := (htons dstPort.toUInt32.toUInt16).toNat
          payload := buf.take len.toNat } ∧
      destSll.sllAddr.take destSll.sllHalen.toNat = dstMac.take 6 ∧
        destSll.sllIfindex = ifIndex := by
  have hdata : (buf.take len.toNat).length = len.toNat := List.length_take_of_le hbuf
  have hroom : (buf.take len.toNat).length ≤ (List.replicate dataSize (0 : UInt8)).length := by
    rw [hdata, List.length_replicate]
    exact hlen
  have hwrite := writeRun_append _ [] _ hroom
  rw [List.nil_append, List.length_nil, List.nil_append] at hwrite
  have hpacket : ((.ofNat (iphdrSize + udphdrSize) : UInt32) + len).toNat =
      iphdrSize + udphdrSize + len.toNat := by
    rw [UInt32.toNat_add]
    exact Nat.mod_eq_of_lt (by simp only [dataSize] at hlen; simp [iphdrSize, udphdrSize]; omega)
  have hreceive := receive_sent hsum srcIp dstIp srcPort dstPort
    (rfl : _ = buf.take len.toNat ++ (List.replicate dataSize 0).drop (buf.take len.toNat).length)
    hdata hlen hpacket
  refine ⟨_, destSllOf ifIndex dstMac, ?_, hreceive, ?_, rfl⟩
  · unfold skySocketSendRawUdp
    rw [if_neg (Nat.not_lt.2 hlen), hsock]
    dsimp only
    rw [if_neg (Nat.not_lt.2 hbuf), if_neg (Nat.not_lt.2 hmac), hwrite, ok_bind, if_pos hbinds]
    rfl
  · have htaken : (dstMac.take 6).length = 6 := List.length_take_of_le hmac
    exact List.take_left' htaken

/-- A checksum as the sum is defined. -/
def plainChksum (bytes : List UInt8) : UInt16 := .ofNat (65535 - onesSum leWord bytes)

theorem completes_plainChksum (bytes : List UInt8) : Completes (plainChksum bytes) bytes := by
  have hlt := (onesSum_spec leWord_lt bytes).1
  rw [Completes, plainChksum, UInt16.toNat_ofNat']
  omega

/-- Three bytes from port 68 to port 67, which are given as `htons` of them. -/
theorem sendRawUdp_delivered_three : ∃ packet destSll,
    skySocketSendRawUdp plainChksum { socket := some 3, binds := true, sendto := 31 } 2
        (.replicate 6 255) 0xffffffff 0x4300 0 0x4400 [1, 2, 3, 4] 3 =
      .ok (31, [.socket, .bind 3 destSll, .sendto 3 packet destSll, .close 3]) ∧
    receive packet = some
      { srcIp := [0, 0, 0, 0], dstIp := [255, 255, 255, 255], srcPort := 68, dstPort := 67
        payload := [1, 2, 3] } ∧
    destSll.sllAddr.take destSll.sllHalen.toNat = .replicate 6 255 ∧ destSll.sllIfindex = 2 :=
  sendRawUdp_delivered _ completes_plainChksum rfl rfl (by decide) (by decide) (by decide)

end Sky.LocalSocket
