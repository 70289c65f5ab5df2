import SkySdk.LocalSocket.Gateway
import SkySdk.LocalSocket.Proof.Read

/-!
# The gateway of a route dump

The messages are looked at one by one until a route is taken for the default of the interface
(`findGateway_messages`). The request has the sequence number 0 and the answers that of the request,
but `read_nl_sock` is asked for 1, so that only a datagram that starts with the end of the dump ends
the reading (`readLoop_closes`, `readLoop_goesOn`).
-/

set_option autoImplicit false

namespace Sky.LocalSocket

open Base

variable {size : Nat} {seqNum pid : Int32} {m : Msg} {ms routes : List Msg} {done : Msg}
  {rest : Socket} {before post buf : List UInt8} {asked : List (Nat × Nat)} {X : External}
  {ifName : CStr}

/-! ## One message -/

theorem and_not_three {n : Nat} (h : n < 2 ^ 32) : n &&& (2 ^ 32 - 1 - 3) = n / 4 * 4 := by
  have hhigh : (n &&& (2 ^ 32 - 1 - 3)) / 2 ^ 2 = n / 4 := by
    rw [Nat.and_div_two_pow]
    have hmask : (2 ^ 32 - 1 - 3) / 2 ^ 2 = 2 ^ 30 - 1 := by decide
    rw [hmask, Nat.and_two_pow_sub_one_eq_mod]
    omega
  have hlow : (n &&& (2 ^ 32 - 1 - 3)) % 2 ^ 2 = 0 := by
    rw [Nat.and_mod_two_pow]
    exact Nat.and_zero _
  omega

theorem toNat_nlmsgAlign {len : UInt32} (h : len.toNat ≤ intMax) :
    (nlmsgAlign len).toNat = (len.toNat + 3) / 4 * 4 := by
  unfold intMax at h
  have hadd : (len + 3).toNat = len.toNat + 3 := by
    rw [UInt32.toNat_add]
    exact Nat.mod_eq_of_lt (by simp; omega)
  have hnot : (~~~(3 : UInt32)).toNat = 2 ^ 32 - 1 - 3 := by decide
  rw [nlmsgAlign, UInt32.toNat_and, hadd, hnot, and_not_three (by omega)]

/-- What `parse_routes` is given of a message. -/
def Msg.text (m : Msg) : List UInt8 := place 0 m.hdr.fields ++ m.payload

theorem length_text (m : Msg) : m.text.length = nlmsghdrSize + m.payload.length := by
  rw [Msg.text, List.length_append, length_place]

theorem toNat_nlmsgLen (h : (bytesOf (m :: ms)).length ≤ intMax) :
    m.hdr.nlmsgLen.toNat = nlmsghdrSize + m.payload.length := by
  refine toNat_ofNat_of_lt ?_
  have hle : nlmsghdrSize + m.payload.length ≤ (bytesOf (m :: ms)).length := le_length_bytesOf
  unfold intMax at h
  omega

theorem length_bytes (m : Msg) :
    m.bytes.length = (nlmsghdrSize + m.payload.length + 3) / 4 * 4 := by
  rw [Msg.bytes, List.length_append, List.length_append, length_place, List.length_replicate]
  simp only [nlmsghdrSize, padding]
  omega

/-- `NLMSG_NEXT` goes from a message to the one behind it. -/
theorem nlmsgAlign_message (h : (bytesOf (m :: ms)).length ≤ intMax) :
    (nlmsgAlign m.hdr.nlmsgLen).toNat = m.bytes.length := by
  have hlen := toNat_nlmsgLen h
  have hle : nlmsghdrSize + m.payload.length ≤ (bytesOf (m :: ms)).length := le_length_bytesOf
  rw [toNat_nlmsgAlign (by omega), hlen, length_bytes]

theorem take_message (before post : List UInt8) (m : Msg) (ms : List Msg) :
    ((before ++ bytesOf (m :: ms) ++ post).drop before.length).take
      (nlmsghdrSize + m.payload.length) = m.text := by
  have hbytes : before ++ bytesOf (m :: ms) ++ post = before ++ (m.text ++
      (.replicate (padding m.payload.length 4) 0 ++ bytesOf ms ++ post)) := by
    simp only [bytesOf_cons, Msg.text, List.append_assoc]
  rw [hbytes, List.drop_left, ← length_text, List.take_left]

/-! ## The messages of a buffer -/

/-- The gateway of the first route that is taken for the default of the interface. -/
def gatewayOf (X : External) (ifName : CStr) (ms : List Msg) : UInt32 :=
  match (ms.filterMap fun m => X.parseRoutes m.text).find? (isGatewayOf X ifName) with
  | some routeInfo => routeInfo.gateway
  | none => X.inaddrAny

theorem gatewayOf_cons : gatewayOf X ifName (m :: ms) =
    match X.parseRoutes m.text with
    | some routeInfo =>
      if isGatewayOf X ifName routeInfo then routeInfo.gateway else gatewayOf X ifName ms
    | none => gatewayOf X ifName ms := by
  unfold gatewayOf
  rw [List.filterMap_cons]
  cases X.parseRoutes m.text with
  | none => rfl
  | some routeInfo =>
    dsimp only
    rw [List.find?_cons]
    cases isGatewayOf X ifName routeInfo <;> rfl

theorem length_le_bytesOf : ∀ ms : List Msg, ms.length ≤ (bytesOf ms).length
  | [] => Nat.le_refl _
  | m :: ms => by
    have hlen : (bytesOf (m :: ms)).length = m.bytes.length + (bytesOf ms).length := by
      rw [← List.length_append]
      rfl
    have ih := length_le_bytesOf ms
    rw [hlen, length_bytes, List.length_cons]
    simp only [nlmsghdrSize]
    omega

/-- The loop sees the messages in their order and nothing behind them. -/
theorem findGateway_messages (X : External) (ifName : CStr) (post : List UInt8) :
    ∀ (ms : List Msg) (rounds : Nat) (before : List UInt8), ms.length < rounds →
    (bytesOf ms).length ≤ intMax →
    findGateway X (before ++ bytesOf ms ++ post) ifName rounds before.length
      (bytesOf ms).length = .ok (gatewayOf X ifName ms)
  | _, 0, _, h, _ => absurd h (Nat.not_lt_zero _)
  | [], rounds + 1, before, _, _ => by
    rw [findGateway]
    rfl
  | m :: ms, rounds + 1, before, hrounds, hint => by
    have hbytes : bytesOf (m :: ms) = m.bytes ++ bytesOf ms := rfl
    have hnext := nlmsgAlign_message hint
    have hlen : (bytesOf (m :: ms)).length = m.bytes.length + (bytesOf ms).length := by
      rw [hbytes, List.length_append]
    have ih := findGateway_messages X ifName post ms rounds (before ++ m.bytes)
      (Nat.lt_of_succ_lt_succ hrounds) (by omega)
    have hbuf : before ++ m.bytes ++ bytesOf ms ++ post = before ++ bytesOf (m :: ms) ++ post := by
      rw [hbytes, List.append_assoc before]
    have hleft : ((bytesOf (m :: ms)).length : Int) - m.bytes.length = (bytesOf ms).length := by
      omega
    rw [hbuf, List.length_append] at ih
    rw [findGateway, Int.toNat_natCast, nlmsgOk_head hint, ok_bind, if_pos rfl, read_head, ok_bind,
      toNat_nlmsgLen hint, take_message, hnext]
    dsimp only
    rw [hleft, gatewayOf_cons]
    cases X.parseRoutes m.text with
    | none => exact ih
    | some routeInfo =>
      dsimp only
      by_cases hgw : isGatewayOf X ifName routeInfo = true
      · rw [if_pos hgw, if_pos hgw]
        rfl
      · rw [if_neg hgw, if_neg hgw]
        exact ih

/-! ## Reading a dump for another sequence number -/

/-- The end of the dump in a datagram of its own ends the reading, with all routes read. -/
theorem readLoop_closes (rest : Socket) (hint : size ≤ intMax) :
    ∀ (gs : List (List Msg)) (routes : List Msg) (before post : List UInt8)
      (asked : List (Nat × Nat)), Round size gs routes done before post asked →
      (∀ m ∈ routes, ¬ m.Answers seqNum pid) → gs.getLast? = some [done] →
      ∃ r, readLoop size seqNum pid (gs.map (fun g => some (bytesOf g)) ++ rest) (before ++ post)
          before.length asked = .ok r ∧
        HasRead (before ++ bytesOf routes) size rest r ∧
        r.ret = (before ++ bytesOf routes).length
  | [], _, _, _, _, _, _, hlast => by cases hlast
  | [] :: _, _, _, _, _, h, _, _ => absurd rfl (h.nonempty [] List.mem_cons_self)
  | [m :: ms], routes, before, post, asked, h, _, hlast => by
    have hg : m :: ms = [done] := Option.some.inj hlast
    have hroutes : routes = [] := by
      have hgrouped := congrArg List.length h.grouped
      rw [hg, List.flatten_singleton, List.length_append] at hgrouped
      exact List.eq_nil_of_length_eq_zero (by simpa using hgrouped)
    subst hroutes
    have hroom := h.fits
    rw [List.nil_append, ← hg] at hroom
    obtain ⟨rfl, rfl⟩ := List.cons.inj hg
    rw [List.map_singleton, List.singleton_append,
      readLoop_datagram hroom h.buffer hint (by rw [h.isDone]; decide)]
    dsimp only
    rw [if_pos h.isDone]
    have hret : ((before ++ bytesOf []).length : Int) = before.length :=
      congrArg (fun bytes => (bytes.length : Int)) (List.append_nil before)
    exact ⟨_, rfl, h.hasRead_last (Int.le_of_eq hret), hret.symm⟩
  | (m :: ms) :: g :: gs, routes, before, post, asked, h, hother, hlast => by
    obtain ⟨routes', rfl, hroom, hnext⟩ := h.next (List.cons_ne_nil g gs)
    have hm := h.isRoute m List.mem_cons_self
    have ih := readLoop_closes rest hint (g :: gs) _ _ _ _ hnext
      (fun m' hm' => hother m' (List.mem_append_right _ hm')) hlast
    rw [bytesOf_append, ← List.append_assoc]
    rw [List.map_cons, List.cons_append, readLoop_datagram hroom h.buffer hint hm.type.1]
    dsimp only
    rw [if_neg hm.type.2, if_neg hm.multi, if_neg (hother m List.mem_cons_self),
      ← List.length_append]
    exact ih

/-- The end of the dump behind a route in its datagram is not seen, and the loop goes on. -/
theorem readLoop_goesOn (rest : Socket) (hint : size ≤ intMax) :
    ∀ (gs : List (List Msg)) (routes : List Msg) (before post : List UInt8)
      (asked : List (Nat × Nat)), Round size gs routes done before post asked →
      (∀ m ∈ routes, ¬ m.Answers seqNum pid) → gs.getLast? ≠ some [done] →
      ∃ buf asked', readLoop size seqNum pid (gs.map (fun g => some (bytesOf g)) ++ rest)
          (before ++ post) before.length asked =
        readLoop size seqNum pid rest buf (before ++ bytesOf (routes ++ [done])).length asked'
  | [], routes, _, _, _, h, _, _ =>
    absurd h.grouped.symm (List.append_ne_nil_of_right_ne_nil _ (by simp))
  | [] :: _, _, _, _, _, h, _, _ => absurd rfl (h.nonempty [] List.mem_cons_self)
  | [m :: ms], routes, before, post, asked, h, hother, hlast => by
    have hg := h.grouped
    have hroom := h.fits
    rw [List.flatten_singleton] at hg
    rw [← hg] at hroom
    cases routes with
    | nil => exact absurd (congrArg some hg) hlast
    | cons m' routes =>
      obtain ⟨rfl, rfl⟩ := List.cons.inj hg
      have hm := h.isRoute m List.mem_cons_self
      rw [List.map_singleton, List.singleton_append,
        readLoop_datagram hroom h.buffer hint hm.type.1]
      dsimp only
      rw [if_neg hm.type.2, if_neg hm.multi, if_neg (hother m List.mem_cons_self),
        ← List.length_append]
      exact ⟨_, _, rfl⟩
  | (m :: ms) :: g :: gs, routes, before, post, asked, h, hother, hlast => by
    obtain ⟨routes', rfl, hroom, hnext⟩ := h.next (List.cons_ne_nil g gs)
    have hm := h.isRoute m List.mem_cons_self
    have ih := readLoop_goesOn rest hint (g :: gs) _ _ _ _ hnext
      (fun m' hm' => hother m' (List.mem_append_right _ hm')) hlast
    have hbytes : before ++ bytesOf (m :: ms ++ routes' ++ [done]) =
        before ++ bytesOf (m :: ms) ++ bytesOf (routes' ++ [done]) := by
      rw [List.append_assoc (m :: ms), bytesOf_append (m :: ms), ← List.append_assoc]
    rw [hbytes, List.map_cons, List.cons_append, readLoop_datagram hroom h.buffer hint hm.type.1]
    dsimp only
    rw [if_neg hm.type.2, if_neg hm.multi, if_neg (hother m List.mem_cons_self),
      ← List.length_append]
    exact ih

/-! ## A dump -/

/-- An address in dotted decimals. It is in network byte order, so its first number is the lowest
byte. -/
def dottedOf (addr : UInt32) : List UInt8 :=
  dotted (addr.toNat % 256) (addr.toNat / 256 % 256) (addr.toNat / 65536 % 256)
    (addr.toNat / 16777216)

/-- The first route of the interface to one of `0.0.0.0`, `10.0.0.0`, `20.0.0.0`, …, `250.0.0.0`. -/
def firstDefault (parseRoutes : List UInt8 → Option RouteInfo) (ifName : CStr) (routes : List Msg) :
    Option RouteInfo :=
  (routes.filterMap fun m => parseRoutes m.text).find? fun routeInfo =>
    routeInfo.ifName = ifName ∧ routeInfo.dstAddr.toNat < 256 ∧ routeInfo.dstAddr.toNat % 10 = 0

theorem low_byte_iff {n : Nat} : (n / 256 % 256 = 0 ∧ n / 65536 % 256 = 0 ∧ n / 16777216 = 0) ↔
    n < 256 := by
  constructor
  · intro h
    obtain ⟨h1, h2, h3⟩ := h
    have hlt : n < 16777216 := Nat.lt_of_div_eq_zero (by decide) h3
    have hlt : n < 65536 := by omega
    omega
  · omega

theorem isGatewayOf_eq (hntoa : ∀ addr, (X.inetNtoa addr).bytes = dottedOf addr)
    (routeInfo : RouteInfo) : isGatewayOf X ifName routeInfo =
      decide (routeInfo.ifName = ifName ∧ routeInfo.dstAddr.toNat < 256 ∧
        routeInfo.dstAddr.toNat % 10 = 0) := by
  refine decide_eq_decide.2 (and_congr skyStrCmp_eq_zero ?_)
  rw [skyStrStr_isSome, hntoa, anyAddress, dottedOf, zeros_infix_dotted, low_byte_iff, and_comm]
  refine and_congr_right fun hlt => ?_
  rw [Nat.mod_eq_of_lt hlt]

theorem gatewayOf_eq (hntoa : ∀ addr, (X.inetNtoa addr).bytes = dottedOf addr) (ms : List Msg) :
    gatewayOf X ifName ms =
      ((firstDefault X.parseRoutes ifName ms).map RouteInfo.gateway).getD X.inaddrAny := by
  rw [gatewayOf, funext (isGatewayOf_eq hntoa), firstDefault]
  cases List.find? _ (ms.filterMap fun m => X.parseRoutes m.text) <;> rfl

theorem length_request (pid : Int32) :
    (place 0 (requestHdr pid).fields).length ≤ (List.replicate msgBufSize (0 : UInt8)).length := by
  rw [length_place, List.length_replicate]
  decide

theorem request_written (pid : Int32) : ∃ msgBuf : List UInt8, msgBuf.length = msgBufSize ∧
    writeRun (.replicate msgBufSize 0) 0 (place 0 (requestHdr pid).fields) = .ok msgBuf := by
  have hwrite := writeRun_append _ [] _ (length_request pid)
  refine ⟨_, ?_, hwrite⟩
  have hle := length_request pid
  rw [List.length_append, List.length_append, List.length_drop, List.length_nil]
  rw [List.length_replicate] at hle ⊢
  omega

/-- The system calls of one call: the socket is used by nothing but a request and receives inside of
the buffer, and is closed last. -/
def Closes (K : Kernel) (log : List SysCall) : Prop :=
  match K.socket with
  | none => log = [.socket]
  | some sock => ∃ (bytes : List UInt8) (asked : List (Nat × Nat)),
    (∀ c ∈ asked, c.1 + c.2 ≤ msgBufSize) ∧
    log = [.socket, .send sock bytes] ++ asked.map (fun c => .recv sock c.1 c.2) ++ [.close sock]

/-- **The gateway of a dump.** The kernel sends a message for each route and one for the end, with
the number of the request. If the end comes in a datagram of its own, the gateway is that of the
first route of the interface to an address of zeros whose first number is a multiple of ten, the
socket is closed and what comes after the dump is left on it. Else the call does not return before
it has received more, and waits if nothing more comes. -/
theorem ifGetGateway_dump {sock : Nat} (K : Kernel) (d : Dump msgBufSize)
    (hntoa : ∀ addr, (X.inetNtoa addr).bytes = dottedOf addr) (hsock : K.socket = some sock)
    (hsends : K.sends = true) (hin : K.incoming = d.sent ++ rest)
    (hecho : ∀ m ∈ d.routes, m.Answers 0 K.pid) :
    (d.datagrams.getLast? = some [d.done] → ∃ log, Closes K log ∧ skyIfGetGateway X K ifName = .ok
      { gatewayAddr :=
          ((firstDefault X.parseRoutes ifName d.routes).map RouteInfo.gateway).getD X.inaddrAny
        log, socket := rest }) ∧
    (d.datagrams.getLast? ≠ some [d.done] →
      (rest = [] → skyIfGetGateway X K ifName = .error .waiting) ∧
      ∀ f, skyIfGetGateway X K ifName = .ok f → f.socket.length < rest.length) := by
  obtain ⟨msgBuf, hlen, hwrite⟩ := request_written K.pid
  have hround := d.round hlen
  have hother : ∀ m ∈ d.routes, ¬ m.Answers 1 K.pid := by
    intro m hm hans
    have hseq : (0 : Int32).toUInt32 = (1 : Int32).toUInt32 := (hecho m hm).1.symm.trans hans.1
    exact absurd hseq (by decide)
  unfold skyIfGetGateway
  rw [hsock]
  dsimp only
  rw [hwrite, ok_bind, if_pos hsends, readNlSock, hlen, hin]
  constructor
  · intro hlast
    obtain ⟨r, hr, hread, hret⟩ := readLoop_closes rest (by decide) _ _ _ _ _ hround
      hother hlast
    obtain ⟨post, hbuf⟩ := hread.start
    rw [List.nil_append] at hret hbuf
    have hloop : readLoop msgBufSize 1 K.pid (d.sent ++ rest) msgBuf 0 [] = .ok r := hr
    have hlt : d.routes.length < r.ret.toNat + 1 := by
      rw [hret, Int.toNat_natCast]
      exact Nat.lt_succ_of_le (length_le_bytesOf d.routes)
    have hint : (bytesOf d.routes).length ≤ intMax := by
      have hfits := d.fits
      rw [bytesOf_append, List.length_append] at hfits
      exact Nat.le_trans (Nat.le_trans (Nat.le_add_right _ _) hfits) (by decide)
    have hwalk := findGateway_messages X ifName post d.routes _ [] hlt hint
    rw [List.nil_append, hbuf] at hwalk
    have hnonneg : ¬ r.ret < 0 := by omega
    rw [List.length_nil, ← hret] at hwalk
    rw [hloop, ok_bind, if_neg hnonneg, hwalk, ok_bind, gatewayOf_eq hntoa, hread.consumed]
    refine ⟨_, ?_, rfl⟩
    unfold Closes
    rw [hsock]
    exact ⟨_, r.asked, hread.within, rfl⟩
  · intro hlast
    obtain ⟨buf, asked, hgo⟩ := readLoop_goesOn rest (by decide) _ _ _ _ _ hround hother hlast
    have hloop : readLoop msgBufSize 1 K.pid (d.sent ++ rest) msgBuf 0 [] =
      readLoop msgBufSize 1 K.pid rest buf _ asked := hgo
    rw [hloop]
    constructor
    · intro hrest
      rw [hrest]
      rfl
    · intro f hf
      obtain ⟨r, hr, hf⟩ := bind_ok hf
      have hlt := readLoop_consumes _ _ _ _ hr
      split at hf
      · cases hf
        exact hlt
      · obtain ⟨addr, -, hf⟩ := bind_ok hf
        cases hf
        exact hlt

/-! ## One route -/

theorem noNul_eth0 : (0 : UInt8) ∉ [101, 116, 104, 48] := by decide

/-- `"eth0"` -/
def eth0 : CStr := ⟨[101, 116, 104, 48], noNul_eth0⟩

/-- The default route over `192.168.0.1`: a `struct rtmsg`, the gateway and the interface 2. -/
def defaultRoute : Msg :=
  { nlmsgType := 24, nlmsgFlags := nlmFMulti, nlmsgSeq := 0, nlmsgPid := 4711
    payload := [2, 0, 0, 0, 254, 0, 0, 0, 0, 0, 0, 0] ++ [8, 0, 5, 0, 192, 168, 0, 1] ++
      [8, 0, 4, 0, 2, 0, 0, 0] }

theorem isRoute_defaultRoute : ∀ m ∈ [defaultRoute], m.IsRoute := by
  intro m hm
  rw [List.mem_singleton.1 hm]
  exact ⟨by decide, by decide⟩

theorem length_oneRoute : (bytesOf ([defaultRoute] ++ [theEnd])).length ≤ msgBufSize := by decide

theorem nonempty_alone : ∀ g ∈ [[defaultRoute], [theEnd]], g ≠ [] := by
  intro g hg
  cases List.mem_pair.1 hg with
  | inl hg => exact hg ▸ List.cons_ne_nil _ _
  | inr hg => exact hg ▸ List.cons_ne_nil _ _

theorem isDone_theEnd : theEnd.nlmsgType = nlmsgDone := rfl

theorem grouped_alone : [[defaultRoute], [theEnd]].flatten = [defaultRoute] ++ [theEnd] := rfl

def oneRoute : Dump msgBufSize where
  routes := [defaultRoute]
  done := theEnd
  datagrams := [[defaultRoute], [theEnd]]
  isRoute := isRoute_defaultRoute
  isDone := isDone_theEnd
  grouped := grouped_alone
  nonempty := nonempty_alone
  fits := length_oneRoute

/-- What `parse_routes` makes of it. -/
def plainExternal : External where
  inaddrAny := 0
  parseRoutes text :=
    if text = defaultRoute.text then
      some { dstAddr := 0, srcAddr := 0, gateway := 0x0100a8c0, ifName := eth0 }
    else none
  inetNtoa addr := ⟨dottedOf addr, zero_notMem_dotted _ _ _ _⟩
  inetChksum _ := 0

def oneRouteKernel : Kernel :=
  { socket := some 3, sends := true, pid := 4711, incoming := oneRoute.sent ++ [] }

/-- The gateway of the one route. -/
theorem ifGetGateway_dump_one : ∃ log, Closes oneRouteKernel log ∧
    skyIfGetGateway plainExternal oneRouteKernel eth0 =
      .ok { gatewayAddr := 0x0100a8c0, log, socket := [] } := by
  have hecho : ∀ m ∈ oneRoute.routes, m.Answers 0 4711 := by
    intro m hm
    rw [List.mem_singleton.1 hm]
    exact ⟨rfl, rfl⟩
  exact (ifGetGateway_dump oneRouteKernel oneRoute (fun _ => rfl) (rfl : some 3 = some 3) rfl rfl
    hecho).1 rfl

end Sky.LocalSocket
