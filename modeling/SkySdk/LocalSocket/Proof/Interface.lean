import SkySdk.LocalSocket.Interface

/-!
# The descriptors of the socket functions

Every call closes the socket it has opened, but for the three that take the descriptor 0 for a
failure: they leave it open (`query_descriptors`). So a run of calls leaves no descriptor open but
0, and that one exactly if it was free and one of the three got a socket (`run_descriptors`).
-/

set_option autoImplicit false

namespace Sky.LocalSocket

open Base

variable {X : External} {fds fds' : Finset Nat} {got : Option Nat} {q : Query}
  {events : List FdEvent}

/-- The functions that look for an interface's addresses with `ioctl`. -/
def Query.byIoctl : Query → Bool
  | .hwaddr _ _ _ _ _ => true
  | .ip _ _ _ => true
  | .netmask _ _ _ => true
  | .gateway _ _ _ _ _ => false
  | .sendRawUdp _ _ _ _ _ _ _ _ _ _ _ => false

/-- The descriptor in the place of the socket. -/
def fdOf (got : Option Nat) : Int :=
  match got with
  | some fd => fd
  | none => -1

/-- What a call does to the descriptors: nothing, or it opens one and closes it, or only opens. -/
inductive FdEffect (byIoctl : Bool) (got : Option Nat) : List FdEvent → Prop
  | none : byIoctl = false → FdEffect byIoctl got []
  | failed : got = .none → FdEffect byIoctl got [.opened]
  | left : byIoctl = true → got = some 0 → FdEffect byIoctl got [.opened]
  | closed : (byIoctl = true → got ≠ some 0) → FdEffect byIoctl got [.opened, .closed (fdOf got)]

theorem sockfd_eq (got : Option Nat) (ioctl : IfRequest → List UInt8 → Option Sockaddr) :
    IfKernel.sockfd { socket := got, ioctl } = fdOf got := by
  cases got <;> rfl

theorem fdOf_eq_zero : fdOf got = 0 ↔ got = some 0 := by
  cases got with
  | none => simp [fdOf]
  | some fd => simp [fdOf]

/-! ## One call -/

section
variable {K : IfKernel} {ifName : CStr} {log : List IfCall}

theorem hwaddr_log {pointerSize : Nat} {hwAddr : List UInt8} {r : Bool × List UInt8 × List IfCall}
    (h : skyIfGetHwaddr pointerSize K ifName hwAddr = .ok r) :
    if K.sockfd = 0 then r.2.2 = [.socket]
    else ∃ ifrName, r.2.2 = [.socket, .ioctl K.sockfd .hwaddr ifrName, .close K.sockfd] := by
  unfold skyIfGetHwaddr at h
  by_cases h0 : K.sockfd = 0
  · rw [if_pos h0] at h ⊢
    cases h
    rfl
  · rw [if_neg h0] at h ⊢
    obtain ⟨ifrName, -, h⟩ := bind_ok h
    dsimp only at h
    cases hans : K.answer .hwaddr ifrName with
    | none =>
      rw [hans] at h
      cases h
      exact ⟨ifrName, rfl⟩
    | some sa =>
      rw [hans] at h
      obtain ⟨out, -, h⟩ := bind_ok h
      cases h
      exact ⟨ifrName, rfl⟩

theorem ifAddress_log {request : IfRequest} {name : Except Fault (List UInt8)}
    {r : UInt32 × List IfCall} (h : ifAddress X K request name = .ok r) :
    if K.sockfd = 0 then r.2 = [.socket]
    else ∃ ifrName, r.2 = [.socket, .ioctl K.sockfd request ifrName, .close K.sockfd] := by
  unfold ifAddress at h
  by_cases h0 : K.sockfd = 0
  · rw [if_pos h0] at h ⊢
    cases h
    rfl
  · rw [if_neg h0] at h ⊢
    obtain ⟨ifrName, -, h⟩ := bind_ok h
    dsimp only at h
    cases hans : K.answer request ifrName with
    | none =>
      rw [hans] at h
      cases h
      exact ⟨ifrName, rfl⟩
    | some sa =>
      rw [hans] at h
      dsimp only at h
      by_cases hf : sa.saFamily ≠ afInet
      · rw [if_pos hf] at h
        cases h
        exact ⟨ifrName, rfl⟩
      · rw [if_neg hf] at h
        obtain ⟨sAddr, -, h⟩ := bind_ok h
        cases h
        exact ⟨ifrName, rfl⟩

theorem effect_of_log {ioctl : IfRequest → List UInt8 → Option Sockaddr} {request : IfRequest}
    (h : if IfKernel.sockfd { socket := got, ioctl } = 0 then log = [.socket]
      else ∃ ifrName, log = [.socket, .ioctl (IfKernel.sockfd { socket := got, ioctl }) request
        ifrName, .close (IfKernel.sockfd { socket := got, ioctl })]) :
    FdEffect true got (log.filterMap IfCall.event) := by
  rw [sockfd_eq] at h
  by_cases h0 : got = some 0
  · rw [if_pos (fdOf_eq_zero.2 h0)] at h
    rw [h]
    exact .left rfl h0
  · rw [if_neg (mt fdOf_eq_zero.1 h0)] at h
    obtain ⟨ifrName, rfl⟩ := h
    exact .closed fun _ => h0

end

theorem gateway_effect {sends : Bool} {pid : Int32} {incoming : Socket} {ifName : CStr}
    {fetched : Fetched}
    (h : skyIfGetGateway X { socket := got, sends, pid, incoming } ifName = .ok fetched) :
    FdEffect false got (fetched.log.filterMap SysCall.event) := by
  unfold skyIfGetGateway at h
  cases got with
  | none =>
    cases h
    exact .failed rfl
  | some sock =>
    -- the receives stand between the request and the end, and are no events
    have hrecvs : ∀ asked : List (Nat × Nat),
        (asked.map fun c => SysCall.recv sock c.1 c.2).filterMap SysCall.event = [] := by
      intro asked
      rw [List.filterMap_map, List.filterMap_eq_nil_iff]
      exact fun _ _ => rfl
    dsimp only at h
    obtain ⟨msgBuf, -, h⟩ := bind_ok h
    cases sends with
    | false =>
      cases h
      exact .closed nofun
    | true =>
      rw [if_pos rfl] at h
      obtain ⟨r, -, h⟩ := bind_ok h
      by_cases hret : r.ret < 0
      · rw [if_pos hret] at h
        cases h
        simp only [List.filterMap_append, hrecvs]
        exact .closed nofun
      · rw [if_neg hret] at h
        obtain ⟨addr, -, h⟩ := bind_ok h
        cases h
        simp only [List.filterMap_append, hrecvs]
        exact .closed nofun

theorem sendRawUdp_effect {binds : Bool} {sendto : Int} {ifIndex : Int32} {dstMac : List UInt8}
    {dstIp : UInt32} {dstPort : Int32} {srcIp : UInt32} {srcPort : Int32} {buf : List UInt8}
    {len : UInt32} {r : Int × List PacketCall}
    (h : skySocketSendRawUdp X.inetChksum { socket := got, binds, sendto } ifIndex dstMac dstIp
      dstPort srcIp srcPort buf len = .ok r) :
    FdEffect false got (r.2.filterMap PacketCall.event) := by
  unfold skySocketSendRawUdp at h
  by_cases hlen : dataSize < len.toNat
  · rw [if_pos hlen] at h
    cases h
    exact .none rfl
  · rw [if_neg hlen] at h
    cases got with
    | none =>
      cases h
      exact .failed rfl
    | some sockfd =>
      dsimp only at h
      by_cases hbuf : buf.length < len.toNat
      · rw [if_pos hbuf] at h
        cases h
      · by_cases hmac : dstMac.length < 6
        · rw [if_neg hbuf, if_pos hmac] at h
          cases h
        · rw [if_neg hbuf, if_neg hmac] at h
          obtain ⟨data, -, h⟩ := bind_ok h
          cases binds with
          | false =>
            cases h
            exact .closed nofun
          | true =>
            cases h
            exact .closed nofun

theorem events_effect (h : q.events X got = .ok events) : FdEffect q.byIoctl got events := by
  cases q with
  | hwaddr granted ioctl pointerSize ifName hwAddr =>
    obtain ⟨r, hr, h⟩ := bind_ok h
    cases h
    exact effect_of_log (hwaddr_log hr)
  | ip granted ioctl ifName =>
    obtain ⟨r, hr, h⟩ := bind_ok h
    cases h
    exact effect_of_log (ifAddress_log hr)
  | netmask granted ioctl ifName =>
    obtain ⟨r, hr, h⟩ := bind_ok h
    cases h
    exact effect_of_log (ifAddress_log hr)
  | gateway granted sends pid incoming ifName =>
    obtain ⟨r, hr, h⟩ := bind_ok h
    cases h
    exact gateway_effect hr
  | sendRawUdp granted binds sendto ifIndex dstMac dstIp dstPort srcIp srcPort buf len =>
    obtain ⟨r, hr, h⟩ := bind_ok h
    cases h
    exact sendRawUdp_effect hr

/-! ## The table -/

theorem lowestFree_notMem (fds : Finset Nat) : lowestFree fds ∉ fds :=
  Nat.find_spec (exists_free fds)

theorem lowestFree_eq_zero : lowestFree fds = 0 ↔ 0 ∉ fds := Nat.find_eq_zero _

/-- A descriptor that was free is free again after it is closed. -/
theorem open_close {fd : Nat} (h : fd ∉ fds) :
    ([.opened, .closed (fdOf (some fd))] : List FdEvent).foldl (FdEvent.apply (some fd)) fds =
      fds := by
  ext n
  simp only [List.foldl_cons, List.foldl_nil, FdEvent.apply, fdOf, Finset.mem_filter,
    Finset.mem_insert, ne_eq, Int.natCast_inj]
  constructor
  · rintro ⟨rfl | hn, hne⟩
    · exact absurd rfl hne
    · exact hn
  · intro hn
    exact ⟨.inr hn, fun he => h (he ▸ hn)⟩

theorem close_invalid :
    ([.opened, .closed (fdOf none)] : List FdEvent).foldl (FdEvent.apply none) fds = fds := by
  ext n
  simp only [List.foldl_cons, List.foldl_nil, FdEvent.apply, fdOf, Finset.mem_filter, ne_eq,
    and_iff_left_iff_imp]
  intro _
  omega

/-- The call takes the free descriptor 0 and does not close it. -/
def Query.leaves (q : Query) (fds : Finset Nat) : Prop :=
  q.byIoctl = true ∧ q.granted = true ∧ 0 ∉ fds

instance (q : Query) (fds : Finset Nat) : Decidable (q.leaves fds) :=
  inferInstanceAs (Decidable (_ ∧ _ ∧ _))

theorem query_descriptors (h : query X q fds = .ok ((), fds')) :
    fds' = if q.leaves fds then insert 0 fds else fds := by
  unfold query at h
  cases hgot : q.granted with
  | false =>
    rw [hgot, if_neg Bool.false_ne_true] at h
    rw [if_neg fun hl => Bool.false_ne_true (hgot.symm.trans hl.2.1)]
    cases hev : q.events X none with
    | error e => simp [hev] at h
    | ok events =>
      simp only [hev, Except.ok.injEq, Prod.mk.injEq, true_and] at h
      subst h
      cases events_effect hev with
      | none _ => rfl
      | failed _ => rfl
      | left _ h0 => cases h0
      | closed _ => exact close_invalid
  | true =>
    rw [hgot, if_pos rfl] at h
    cases hev : q.events X (some (lowestFree fds)) with
    | error e => simp [hev] at h
    | ok events =>
      simp only [hev, Except.ok.injEq, Prod.mk.injEq, true_and] at h
      subst h
      cases events_effect hev with
      | none hb => rw [if_neg fun hl => Bool.false_ne_true (hb.symm.trans hl.1), List.foldl_nil]
      | failed hnone => cases hnone
      | left hb h0 =>
        have hzero : lowestFree fds = 0 := Option.some.inj h0
        rw [if_pos ⟨hb, hgot, lowestFree_eq_zero.1 hzero⟩, hzero]
        rfl
      | closed hne =>
        rw [open_close (lowestFree_notMem fds), if_neg]
        rintro ⟨hb, -, h0⟩
        exact hne hb (congrArg some (lowestFree_eq_zero.2 h0))

/-- **The descriptors after a run**: those before, and 0 if it was free and one of the three
functions got a socket. -/
theorem run_descriptors {qs : List Query}
    (h : Steps (query X) (fun _ _ => True) fds qs fds') :
    fds' = if 0 ∉ fds ∧ ∃ q ∈ qs, q.byIoctl = true ∧ q.granted = true then insert 0 fds
      else fds := by
  induction h with
  | nil fds => rw [if_neg (by simp)]
  | @cons fds fds1 fds2 q qs r _ hx _ ih =>
    have hfirst := query_descriptors hx
    by_cases hl : q.leaves fds
    · rw [if_pos hl] at hfirst
      rw [ih, hfirst, if_neg (by simp), if_pos ⟨hl.2.2, q, List.mem_cons_self, hl.1, hl.2.1⟩]
    · rw [if_neg hl] at hfirst
      subst hfirst
      -- the first call leaves nothing, so that the others are the ones to look at
      have hrest : (0 ∉ fds1 ∧ ∃ q' ∈ q :: qs, q'.byIoctl = true ∧ q'.granted = true) ↔
          0 ∉ fds1 ∧ ∃ q' ∈ qs, q'.byIoctl = true ∧ q'.granted = true := by
        rw [List.exists_mem_cons_iff]
        exact and_congr_right fun h0 => or_iff_right fun hq => hl ⟨hq.1, hq.2, h0⟩
      rw [ih]
      exact (if_congr hrest rfl rfl).symm

/-- Nothing is known of the routes, and every checksum is 0. -/
def noExternal : External := ⟨0, fun _ => none, fun _ => ⟨[97], CStr.noNul_a⟩, fun _ => 0⟩

/-- A process without a standard input asks for an address. -/
theorem run_descriptors_closed : Steps (query noExternal) (fun _ _ => True) {1, 2}
    [.ip true (fun _ _ => none) ⟨[], List.not_mem_nil⟩] {0, 1, 2} := by
  have hfree : lowestFree {1, 2} = 0 := lowestFree_eq_zero.2 (by decide)
  obtain ⟨fds', hx⟩ : ∃ fds', query noExternal
      (.ip true (fun _ _ => none) ⟨[], List.not_mem_nil⟩) {1, 2} = .ok ((), fds') := by
    unfold query
    rw [Query.granted, if_pos rfl, hfree]
    exact ⟨_, rfl⟩
  have hrun : Steps (query noExternal) (fun _ _ => True) {1, 2}
      [.ip true (fun _ _ => none) ⟨[], List.not_mem_nil⟩] fds' := .cons trivial hx (.nil fds')
  have hfds := run_descriptors hrun
  rw [if_pos (by simp [Query.byIoctl, Query.granted])] at hfds
  rw [hfds] at hrun
  exact hrun

end Sky.LocalSocket
