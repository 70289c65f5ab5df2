import SkySdk.LocalSocket.Proof.Gateway

/-!
# Whatever comes in

`sky_if_get_gateway` on any datagrams: it never reads or writes outside of its buffer, its loop over
the messages ends, and it closes its socket on every way out. It waits for a datagram that never
comes, or it returns.
-/

set_option autoImplicit false

namespace Sky.LocalSocket

open Base

variable {size : Nat} {seqNum pid : Int32} {X : External} {ifName : CStr} {buf : List UInt8}

/-! ## Reads inside of the buffer -/

theorem drop_cons {off : Nat} (h : off < buf.length) :
    ∃ x, buf.drop off = x :: buf.drop (off + 1) :=
  ⟨_, List.drop_eq_getElem_cons h⟩

theorem readU16_inside (off : Nat) (h : off + 2 ≤ buf.length) : ∃ n, readU16 buf off = .ok n := by
  obtain ⟨a, ha⟩ := drop_cons (show off < buf.length by omega)
  obtain ⟨b, hb⟩ := drop_cons (show off + 1 < buf.length by omega)
  rw [readU16, ha, hb]
  exact ⟨_, rfl⟩

theorem readU32_inside (off : Nat) (h : off + 4 ≤ buf.length) : ∃ n, readU32 buf off = .ok n := by
  obtain ⟨a, ha⟩ := drop_cons (show off < buf.length by omega)
  obtain ⟨b, hb⟩ := drop_cons (show off + 1 < buf.length by omega)
  obtain ⟨c, hc⟩ := drop_cons (show off + 1 + 1 < buf.length by omega)
  obtain ⟨d, hd⟩ := drop_cons (show off + 1 + 1 + 1 < buf.length by omega)
  rw [readU32, ha, hb, hc, hd]
  exact ⟨_, rfl⟩

theorem read_inside {p : Nat} (h : p + nlmsghdrSize ≤ buf.length) :
    ∃ hdr, Nlmsghdr.read buf p = .ok hdr := by
  simp only [nlmsghdrSize] at h
  obtain ⟨_, h0⟩ := readU32_inside (p + 0) (show p + 0 + 4 ≤ buf.length by omega)
  obtain ⟨_, h4⟩ := readU16_inside (p + 4) (show p + 4 + 2 ≤ buf.length by omega)
  obtain ⟨_, h6⟩ := readU16_inside (p + 6) (show p + 6 + 2 ≤ buf.length by omega)
  obtain ⟨_, h8⟩ := readU32_inside (p + 8) (show p + 8 + 4 ≤ buf.length by omega)
  obtain ⟨_, h12⟩ := readU32_inside (p + 12) (show p + 12 + 4 ≤ buf.length by omega)
  rw [Nlmsghdr.read, h0, h4, h6, h8, h12]
  exact ⟨_, rfl⟩

/-- The test looks at a header inside of the buffer; where it holds, a whole message is there. -/
theorem nlmsgOk_inside {p len : Nat} (h : nlmsghdrSize ≤ len → p + len ≤ buf.length) :
    nlmsgOk buf p len = .ok false ∨ ∃ hdr, Nlmsghdr.read buf p = .ok hdr ∧
      nlmsgOk buf p len = .ok true ∧ nlmsghdrSize ≤ hdr.nlmsgLen.toNat ∧
      hdr.nlmsgLen.toNat ≤ len := by
  by_cases hlen : nlmsghdrSize ≤ len
  · obtain ⟨hdr, hread⟩ := read_inside
      (Nat.le_trans (Nat.add_le_add_left hlen p) (h hlen))
    rw [nlmsgOk, if_pos hlen, hread, ok_bind]
    by_cases hfit : nlmsghdrSize ≤ hdr.nlmsgLen.toNat ∧ hdr.nlmsgLen.toNat ≤ len
    · exact .inr ⟨hdr, rfl, congrArg Except.ok (decide_eq_true hfit), hfit⟩
    · exact .inl (congrArg Except.ok (decide_eq_false hfit))
  · exact .inl (if_neg hlen)

/-! ## Receiving -/

/-- What a call of `read_nl_sock` that returns has done to a buffer of `size` bytes. -/
structure Bounded (size : Nat) (r : Reading) : Prop where
  length : r.buf.length = size
  ret : r.ret ≤ size
  within : ∀ c ∈ r.asked, c.1 + c.2 ≤ size

/-- It returns with `Q`, or it waits without end. -/
def ReturnsOrWaits {α : Type} (x : Except Fault α) (Q : α → Prop) : Prop :=
  x = .error .waiting ∨ ∃ a, x = .ok a ∧ Q a

theorem readLoop_bounded (hint : size ≤ intMax) : ∀ (socket : Socket) (buf : List UInt8)
    (msgLen : Nat) (asked : List (Nat × Nat)), buf.length = size → msgLen ≤ size →
    (∀ c ∈ asked, c.1 + c.2 ≤ size) →
    ReturnsOrWaits (readLoop size seqNum pid socket buf msgLen asked) (Bounded size)
  | [], _, _, _, _, _, _ => .inl rfl
  | none :: socket, buf, msgLen, asked, hbuf, hlen, hasked => by
    refine .inr ⟨_, rfl, hbuf, by simp, ?_⟩
    intro c hc
    rcases List.mem_append.1 hc with hc | hc
    · exact hasked c hc
    · rw [List.mem_singleton.1 hc]
      exact Nat.le_of_eq (Nat.add_sub_cancel' hlen)
  | some datagram :: socket, buf, msgLen, asked, hbuf, hlen, hasked => by
    have hasked' : ∀ c ∈ asked ++ [(msgLen, size - msgLen)], c.1 + c.2 ≤ size := by
      intro c hc
      rcases List.mem_append.1 hc with hc | hc
      · exact hasked c hc
      · rw [List.mem_singleton.1 hc]
        exact Nat.le_of_eq (Nat.add_sub_cancel' hlen)
    have hreceived : (datagram.take (size - msgLen)).length ≤ size - msgLen := by
      rw [List.length_take]
      exact Nat.min_le_left _ _
    -- the datagram is written behind what is there
    obtain ⟨buf', hwrite, hbuf'⟩ : ∃ buf', writeRun buf msgLen (datagram.take (size - msgLen)) =
        .ok buf' ∧ buf'.length = size := by
      have hpost : (datagram.take (size - msgLen)).length ≤ (buf.drop msgLen).length := by
        rw [List.length_drop, hbuf]
        exact hreceived
      have hrun := writeRun_append _ (buf.take msgLen) _ hpost
      rw [List.take_append_drop, List.length_take, hbuf, Nat.min_eq_left hlen] at hrun
      refine ⟨_, hrun, ?_⟩
      simp only [List.length_append, List.length_drop, List.length_take, hbuf]
      omega
    have hinside : nlmsghdrSize ≤ (datagram.take (size - msgLen)).length →
        msgLen + (datagram.take (size - msgLen)).length ≤ buf'.length := by
      intro _
      omega
    rw [readLoop, hwrite, ok_bind]
    rcases nlmsgOk_inside hinside with hok | ⟨hdr, hread, hok, -, -⟩
    · rw [hok, ok_bind]
      exact .inr ⟨_, rfl, hbuf', by simp, hasked'⟩
    · have hadd : addInt msgLen (datagram.take (size - msgLen)).length =
          .ok (msgLen + (datagram.take (size - msgLen)).length) := addInt_of_le (by omega)
      rw [hok, ok_bind, if_pos rfl, hread, ok_bind]
      split
      · exact .inr ⟨_, rfl, hbuf', by simp, hasked'⟩
      · split
        · exact .inr ⟨_, rfl, hbuf', Int.ofNat_le.2 hlen, hasked'⟩
        · have hnext : msgLen + (datagram.take (size - msgLen)).length ≤ size := by omega
          rw [hadd, ok_bind]
          split
          · exact .inr ⟨_, rfl, hbuf', Int.ofNat_le.2 hnext, hasked'⟩
          · split
            · exact readLoop_bounded hint socket buf' _ _ hbuf' hnext hasked'
            · exact .inr ⟨_, rfl, hbuf', Int.ofNat_le.2 hnext, hasked'⟩

/-! ## Looking for the gateway -/

/-- The loop ends, with every message inside of the buffer. -/
theorem findGateway_ends (X : External) (ifName : CStr) : ∀ (rounds nlMsg : Nat) (len : Int),
    len.toNat < rounds → (nlmsghdrSize ≤ len.toNat → nlMsg + len.toNat ≤ buf.length) →
    len.toNat ≤ intMax →
    ∃ addr, findGateway X buf ifName rounds nlMsg len = .ok addr
  | 0, _, _, h, _, _ => absurd h (Nat.not_lt_zero _)
  | rounds + 1, nlMsg, len, hrounds, hinside, hint => by
    rw [findGateway]
    rcases nlmsgOk_inside hinside with hok | ⟨hdr, hread, hok, hmin, hmax⟩
    · rw [hok]
      exact ⟨_, rfl⟩
    · have hnext := toNat_nlmsgAlign (Nat.le_trans hmax hint)
      simp only [nlmsghdrSize] at hmin hinside
      have hleft : (len - (nlmsgAlign hdr.nlmsgLen).toNat).toNat < rounds := by omega
      have hin : nlmsghdrSize ≤ (len - (nlmsgAlign hdr.nlmsgLen).toNat).toNat →
          nlMsg + (nlmsgAlign hdr.nlmsgLen).toNat +
            (len - (nlmsgAlign hdr.nlmsgLen).toNat).toNat ≤ buf.length := by
        simp only [nlmsghdrSize]
        omega
      have ih := findGateway_ends X ifName rounds _ _ hleft hin (by omega)
      rw [hok, ok_bind, if_pos rfl, hread, ok_bind]
      dsimp only
      cases X.parseRoutes ((buf.drop nlMsg).take hdr.nlmsgLen.toNat) with
      | none => exact ih
      | some routeInfo =>
        dsimp only
        split
        · exact ⟨_, rfl⟩
        · exact ih

/-- **Whatever comes in**, the call stays inside of its buffer and, if it does not wait, returns
with its socket closed. -/
theorem ifGetGateway_untrusted (X : External) (K : Kernel) (ifName : CStr) :
    ReturnsOrWaits (skyIfGetGateway X K ifName) fun f => Closes K f.log := by
  obtain ⟨msgBuf, hlen, hwrite⟩ := request_written K.pid
  unfold skyIfGetGateway Closes
  cases K.socket with
  | none => exact .inr ⟨_, rfl, rfl⟩
  | some sock =>
    dsimp only
    rw [hwrite, ok_bind]
    by_cases hsends : K.sends = true
    · have hread : ReturnsOrWaits (readLoop msgBufSize 1 K.pid K.incoming msgBuf 0 [])
          (Bounded msgBufSize) :=
        readLoop_bounded (by decide) K.incoming msgBuf 0 [] hlen (Nat.zero_le _) fun c hc =>
          absurd hc List.not_mem_nil
      rw [if_pos hsends, readNlSock, hlen]
      rcases hread with hwait | ⟨r, hr, hb⟩
      · rw [hwait]
        exact .inl rfl
      · have hret : r.ret.toNat ≤ msgBufSize := by
          have := hb.ret
          omega
        have hinside : nlmsghdrSize ≤ r.ret.toNat → 0 + r.ret.toNat ≤ r.buf.length := by
          rw [hb.length]
          omega
        obtain ⟨addr, hfind⟩ := findGateway_ends X ifName _ 0 r.ret (Nat.lt_succ_self _) hinside
          (Nat.le_trans hret (by decide))
        rw [hr, ok_bind, hfind]
        split
        · exact .inr ⟨_, rfl, _, r.asked, hb.within, rfl⟩
        · exact .inr ⟨_, rfl, _, r.asked, hb.within, rfl⟩
    · rw [if_neg hsends]
      exact .inr ⟨_, rfl, _, [], fun c hc => absurd hc List.not_mem_nil, rfl⟩

end Sky.LocalSocket
