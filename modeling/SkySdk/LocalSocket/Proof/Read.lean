import SkySdk.LocalSocket.Dump

/-!
# Reading a route dump

`read_nl_sock` looks at the first message of a datagram only (`readLoop_datagram`), so the end of a
dump is missed when a route comes before it in its datagram, and a dump is left in the middle when a
datagram starts with a message that the caller asked for. `readLoop_iff` is the induction over the
datagrams; `Round` is what is known at the start of each round.
-/

set_option autoImplicit false

namespace Sky.LocalSocket

open Base

variable {size : Nat} {seqNum pid : Int32} {m : Msg} {ms : List Msg} {rest socket : Socket}
  {before post : List UInt8} {asked : List (Nat × Nat)}

/-! ## Headers -/

theorem length_place (hdr : Nlmsghdr) : (place 0 hdr.fields).length = nlmsghdrSize := by
  simp [Nlmsghdr.fields, place, Field.u16, Field.u32, leBytes, padding, nlmsghdrSize]

theorem place_fields (hdr : Nlmsghdr) : place 0 hdr.fields =
    leBytes 4 hdr.nlmsgLen.toNat ++ (leBytes 2 hdr.nlmsgType.toNat ++
      (leBytes 2 hdr.nlmsgFlags.toNat ++ (leBytes 4 hdr.nlmsgSeq.toNat ++
        leBytes 4 hdr.nlmsgPid.toNat))) := by
  simp [Nlmsghdr.fields, place, Field.u16, Field.u32, leBytes, padding]

theorem read_placed (hdr : Nlmsghdr) (pre post : List UInt8) :
    Nlmsghdr.read (pre ++ (place 0 hdr.fields ++ post)) pre.length = .ok hdr := by
  rw [place_fields]
  have word (n : UInt32) := leBytes_value32 n.toNat
  have half (n : UInt16) := leBytes_value n.toNat
  simp only [UInt32.ofNat_toNat] at word
  simp only [UInt16.ofNat_toNat] at half
  rw [Nlmsghdr.read, readU32_append, readU16_append, readU16_append, readU32_append,
    readU32_append]
  exact congrArg Except.ok (Nlmsghdr.ext (word _) (half _) (half _) (word _) (word _))

/-! ## Rounds -/

theorem bytesOf_cons : bytesOf (m :: ms) = place 0 m.hdr.fields ++
    (m.payload ++ (.replicate (padding m.payload.length 4) 0 ++ bytesOf ms)) := by
  simp only [bytesOf, List.flatMap_cons, Msg.bytes, List.append_assoc]

theorem le_length_bytesOf : nlmsghdrSize + m.payload.length ≤ (bytesOf (m :: ms)).length := by
  rw [bytesOf_cons, List.length_append, List.length_append, length_place]
  omega

theorem read_head : Nlmsghdr.read (before ++ bytesOf (m :: ms) ++ post) before.length =
    .ok m.hdr := by
  rw [bytesOf_cons, List.append_assoc, List.append_assoc]
  exact read_placed _ _ _

/-- A datagram starts with a whole message. -/
theorem nlmsgOk_head (h : (bytesOf (m :: ms)).length ≤ intMax) :
    nlmsgOk (before ++ bytesOf (m :: ms) ++ post) before.length (bytesOf (m :: ms)).length =
      .ok true := by
  have hle : nlmsghdrSize + m.payload.length ≤ (bytesOf (m :: ms)).length := le_length_bytesOf
  have hlen : m.hdr.nlmsgLen.toNat = nlmsghdrSize + m.payload.length := by
    refine toNat_ofNat_of_lt ?_
    unfold intMax at h
    omega
  rw [nlmsgOk, if_pos (Nat.le_trans (Nat.le_add_right _ _) hle), read_head]
  simp [hlen, hle]

/-- What a round does with a datagram for which there is room. -/
theorem readLoop_datagram (hroom : (bytesOf (m :: ms)).length ≤ post.length)
    (hsize : (before ++ post).length = size) (hint : size ≤ intMax)
    (htype : m.nlmsgType ≠ nlmsgError) :
    readLoop size seqNum pid (some (bytesOf (m :: ms)) :: socket) (before ++ post) before.length
        asked =
      let buf := before ++ bytesOf (m :: ms) ++ post.drop (bytesOf (m :: ms)).length
      let msgLen := before.length + (bytesOf (m :: ms)).length
      let asked := asked ++ [(before.length, post.length)]
      if m.nlmsgType = nlmsgDone then .ok { ret := before.length, buf, asked, socket }
      else if m.nlmsgFlags &&& nlmFMulti = 0 then .ok { ret := msgLen, buf, asked, socket }
      else if m.Answers seqNum pid then .ok { ret := msgLen, buf, asked, socket }
      else readLoop size seqNum pid socket buf msgLen asked := by
  rw [List.length_append] at hsize
  have hleft : size - before.length = post.length := by omega
  have hlen : (bytesOf (m :: ms)).length ≤ intMax := by omega
  rw [readLoop, hleft, List.take_of_length_le hroom, writeRun_append _ _ _ hroom, ok_bind,
    nlmsgOk_head hlen, ok_bind, if_pos rfl, read_head, ok_bind]
  rw [if_neg (show ¬ m.hdr.nlmsgType = nlmsgError from htype)]
  by_cases hdone : m.nlmsgType = nlmsgDone
  · rw [if_pos (show m.hdr.nlmsgType = nlmsgDone from hdone)]
    dsimp only
    rw [if_pos hdone]
    rfl
  · rw [if_neg (show ¬ m.hdr.nlmsgType = nlmsgDone from hdone), addInt_of_le (by omega), ok_bind]
    dsimp only
    rw [if_neg hdone]
    by_cases hmulti : m.nlmsgFlags &&& nlmFMulti = 0
    · rw [if_pos (show m.hdr.nlmsgFlags &&& nlmFMulti = 0 from hmulti), if_pos hmulti]
      rfl
    · rw [if_neg (show ¬ m.hdr.nlmsgFlags &&& nlmFMulti = 0 from hmulti), if_neg hmulti]
      have hother : (m.hdr.nlmsgSeq ≠ seqNum.toUInt32 ∨ m.hdr.nlmsgPid ≠ pid.toUInt32) ↔
          ¬ m.Answers seqNum pid := Decidable.not_and_iff_not_or_not.symm
      by_cases hans : m.Answers seqNum pid
      · rw [if_pos hans, if_neg fun h => hother.1 h hans]
        rfl
      · rw [if_neg hans, if_pos (hother.2 hans)]

/-- A call that returns has made a `recv`. -/
theorem readLoop_consumes : ∀ (socket : Socket) (buf : List UInt8) (msgLen : Nat)
    (asked : List (Nat × Nat)) {r : Reading},
    readLoop size seqNum pid socket buf msgLen asked = .ok r → r.socket.length < socket.length
  | [], _, _, _, _, h => by cases h
  | none :: socket, _, _, _, _, h => by
    cases h
    exact Nat.lt_succ_self _
  | some datagram :: socket, buf, msgLen, asked, r, h => by
    rw [readLoop] at h
    obtain ⟨buf, -, h⟩ := bind_ok h
    obtain ⟨ok, -, h⟩ := bind_ok h
    rw [List.length_cons]
    split at h
    · obtain ⟨hdr, -, h⟩ := bind_ok h
      split at h
      · cases h
        exact Nat.lt_succ_self _
      · split at h
        · cases h
          exact Nat.lt_succ_self _
        · obtain ⟨msgLen, -, h⟩ := bind_ok h
          split at h
          · cases h
            exact Nat.lt_succ_self _
          · split at h
            · exact Nat.lt_succ_of_lt (readLoop_consumes socket _ _ _ h)
            · cases h
              exact Nat.lt_succ_self _
    · cases h
      exact Nat.lt_succ_self _

theorem bytesOf_append (xs ys : List Msg) : bytesOf (xs ++ ys) = bytesOf xs ++ bytesOf ys :=
  List.flatMap_append

/-- The datagrams after the first have the rest of the routes. -/
theorem grouped_tail {g : List Msg} {gs : List (List Msg)} {routes : List Msg} {done : Msg}
    (hne : gs.flatten ≠ []) (h : (g :: gs).flatten = routes ++ [done]) :
    ∃ routes', routes = g ++ routes' ∧ gs.flatten = routes' ++ [done] := by
  have hlast := List.dropLast_append_getLast hne
  rw [List.flatten_cons, ← hlast, ← List.append_assoc] at h
  obtain ⟨hroutes, hdone⟩ := List.append_inj' h rfl
  refine ⟨gs.flatten.dropLast, hroutes.symm, ?_⟩
  rw [← hdone, hlast]

/-! ## Dumps -/

/-- A round of the loop starts: `gs` are the datagrams to come, with `routes` and the end, `before`
is what was received and `post` the rest of the buffer. -/
structure Round (size : Nat) (gs : List (List Msg)) (routes : List Msg) (done : Msg)
    (before post : List UInt8) (asked : List (Nat × Nat)) : Prop where
  nonempty : ∀ g ∈ gs, g ≠ []
  grouped : gs.flatten = routes ++ [done]
  isRoute : ∀ m ∈ routes, m.IsRoute
  isDone : done.nlmsgType = nlmsgDone
  fits : (bytesOf (routes ++ [done])).length ≤ post.length
  buffer : (before ++ post).length = size
  within : ∀ c ∈ asked, c.1 + c.2 ≤ size

section
variable {g : List Msg} {gs : List (List Msg)} {routes : List Msg} {done : Msg}

theorem Round.within_next (h : Round size gs routes done before post asked) :
    ∀ c ∈ asked ++ [(before.length, post.length)], c.1 + c.2 ≤ size := by
  intro c hc
  rcases List.mem_append.1 hc with hc | hc
  · exact h.within c hc
  · rw [List.mem_singleton.1 hc]
    exact Nat.le_of_eq (List.length_append.symm.trans h.buffer)

/-- The first of several datagrams holds routes, and a round follows it. -/
theorem Round.next (h : Round size (g :: gs) routes done before post asked) (hgs : gs ≠ []) :
    ∃ routes', routes = g ++ routes' ∧ (bytesOf g).length ≤ post.length ∧
      Round size gs routes' done (before ++ bytesOf g) (post.drop (bytesOf g).length)
        (asked ++ [(before.length, post.length)]) := by
  have hflat : gs.flatten ≠ [] := by
    obtain ⟨g', gs', rfl⟩ := List.exists_cons_of_ne_nil hgs
    have hg' := h.nonempty g' (List.mem_cons_of_mem _ List.mem_cons_self)
    rw [List.flatten_cons]
    exact List.append_ne_nil_of_left_ne_nil hg' _
  obtain ⟨routes', rfl, hgrouped⟩ := grouped_tail hflat h.grouped
  have hfits := h.fits
  have hbuffer := h.buffer
  rw [List.append_assoc, bytesOf_append, List.length_append] at hfits
  rw [List.length_append] at hbuffer
  refine ⟨routes', rfl, by omega, ?_⟩
  exact {
    nonempty := fun g' hg' => h.nonempty g' (List.mem_cons_of_mem _ hg')
    grouped := hgrouped
    isRoute := fun m hm => h.isRoute m (List.mem_append_right _ hm)
    isDone := h.isDone
    fits := by rw [List.length_drop]; omega
    buffer := by rw [List.length_append, List.length_append, List.length_drop]; omega
    within := h.within_next }

/-- The end of a call that has read the last datagram. -/
theorem Round.hasRead_last {post' : List UInt8} {ret : Int}
    (h : Round size [g] routes done before post asked)
    (hret : ((before ++ bytesOf routes).length : Int) ≤ ret) :
    HasRead (before ++ bytesOf routes) size rest
      { ret, buf := before ++ bytesOf g ++ post'
        asked := asked ++ [(before.length, post.length)], socket := rest } where
  consumed := rfl
  start := by
    have hg := h.grouped
    rw [List.flatten_singleton] at hg
    rw [hg, bytesOf_append, ← List.append_assoc, List.append_assoc _ _ post']
    exact List.prefix_append _ _
  covers := hret
  within := h.within_next

theorem readLoop_last (hint : size ≤ intMax)
    (h : Round size [m :: ms] routes done before post asked) :
    (∃ r, readLoop size seqNum pid (some (bytesOf (m :: ms)) :: rest) (before ++ post) before.length
        asked = .ok r ∧ HasRead (before ++ bytesOf routes) size rest r) ↔
      m.nlmsgType = nlmsgDone ∨ m.Answers seqNum pid := by
  have hg := h.grouped
  have hroom := h.fits
  rw [List.flatten_singleton] at hg
  rw [← hg] at hroom
  cases routes with
  | nil =>
    obtain ⟨rfl, rfl⟩ := List.cons.inj hg
    rw [readLoop_datagram hroom h.buffer hint (by rw [h.isDone]; decide)]
    dsimp only
    rw [if_pos h.isDone]
    refine iff_of_true ⟨_, rfl, h.hasRead_last ?_⟩ (.inl h.isDone)
    exact Int.ofNat_le.2 (Nat.le_of_eq (congrArg List.length (List.append_nil before)))
  | cons m' routes =>
    obtain ⟨rfl, rfl⟩ := List.cons.inj hg
    have hm := h.isRoute m List.mem_cons_self
    rw [readLoop_datagram hroom h.buffer hint hm.type.1]
    dsimp only
    rw [if_neg hm.type.2, if_neg hm.multi]
    by_cases hans : m.Answers seqNum pid
    · rw [if_pos hans]
      refine iff_of_true ⟨_, rfl, h.hasRead_last ?_⟩ (.inr hans)
      have hle : (bytesOf (m :: routes)).length ≤ (bytesOf (m :: (routes ++ [done]))).length := by
        rw [← List.cons_append, bytesOf_append, List.length_append]
        exact Nat.le_add_right _ _
      rw [List.length_append]
      exact Int.ofNat_le.2 (Nat.add_le_add_left hle _)
    · rw [if_neg hans]
      refine iff_of_false (fun hex => ?_) (fun hor => hor.elim hm.type.2 hans)
      obtain ⟨r, hr, hread⟩ := hex
      have hlt := readLoop_consumes _ _ _ _ hr
      rw [hread.consumed] at hlt
      exact Nat.lt_irrefl _ hlt

theorem readLoop_iff (hint : size ≤ intMax) :
    ∀ (gs : List (List Msg)) (routes : List Msg) (before post : List UInt8)
      (asked : List (Nat × Nat)), Round size gs routes done before post asked →
      ((∃ r, readLoop size seqNum pid (gs.map (fun g => some (bytesOf g)) ++ rest)
          (before ++ post) before.length asked = .ok r ∧
          HasRead (before ++ bytesOf routes) size rest r) ↔
        EndsInTime seqNum pid (gs.filterMap List.head?))
  | [], routes, _, _, _, h => absurd h.grouped.symm (List.append_ne_nil_of_right_ne_nil _ (by simp))
  | [] :: gs, _, _, _, _, h => absurd rfl (h.nonempty [] List.mem_cons_self)
  | [m :: ms], routes, before, post, asked, h => readLoop_last hint h
  | (m :: ms) :: g :: gs, routes, before, post, asked, h => by
    obtain ⟨routes', rfl, hroom, hnext⟩ := h.next (List.cons_ne_nil g gs)
    have hm := h.isRoute m List.mem_cons_self
    obtain ⟨m', ms', rfl⟩ := List.exists_cons_of_ne_nil
      (h.nonempty g (List.mem_cons_of_mem _ List.mem_cons_self))
    have ih := readLoop_iff hint _ _ _ _ _ hnext
    rw [List.map_cons, List.cons_append, readLoop_datagram hroom h.buffer hint hm.type.1]
    dsimp only
    rw [if_neg hm.type.2, if_neg hm.multi]
    by_cases hans : m.Answers seqNum pid
    · rw [if_pos hans]
      refine iff_of_false (fun hex => ?_) fun hends => hends.1 hans
      obtain ⟨r, hr, hread⟩ := hex
      cases hr
      have hlen := congrArg List.length hread.consumed
      simp at hlen
      omega
    · rw [if_neg hans]
      rw [bytesOf_append, ← List.append_assoc, ← List.length_append]
      exact ih.trans (and_iff_right hans).symm

end

theorem Dump.round (d : Dump msgBufSize) {buf : List UInt8} (hbuf : buf.length = msgBufSize) :
    Round msgBufSize d.datagrams d.routes d.done [] buf [] where
  nonempty := d.nonempty
  grouped := d.grouped
  isRoute := d.isRoute
  isDone := d.isDone
  fits := by rw [hbuf]; exact d.fits
  buffer := hbuf
  within := fun c hc => absurd hc List.not_mem_nil

/-- A dump is read if and only if, of the first messages of its datagrams, only the last ends the
loop: by being the end of the dump, or by being one that the caller asked for. -/
theorem reads_iff (d : Dump msgBufSize) (rest : Socket) {buf : List UInt8}
    (hbuf : buf.length = msgBufSize) (seqNum pid : Int32) :
    Reads d rest buf seqNum pid ↔ EndsInTime seqNum pid d.heads := by
  unfold Reads readNlSock
  rw [hbuf]
  exact readLoop_iff (by decide) _ _ _ _ _ (d.round hbuf)

/-! ## Two messages -/

/-- A route, as far as it matters here. -/
def aRoute : Msg :=
  { nlmsgType := 24, nlmsgFlags := nlmFMulti, nlmsgSeq := 0, nlmsgPid := 4711
    payload := .replicate 12 0 }

def theEnd : Msg :=
  { nlmsgType := nlmsgDone, nlmsgFlags := nlmFMulti, nlmsgSeq := 0, nlmsgPid := 4711
    payload := .replicate 4 0 }

theorem isRoute_aRoute : ∀ m ∈ [aRoute], m.IsRoute := by
  intro m hm
  rw [List.mem_singleton.1 hm]
  exact ⟨by decide, by decide⟩

theorem length_two : (bytesOf ([aRoute] ++ [theEnd])).length ≤ msgBufSize := by decide

def twoMessages (datagrams : List (List Msg)) (h : datagrams.flatten = [aRoute] ++ [theEnd])
    (hne : ∀ g ∈ datagrams, g ≠ []) : Dump msgBufSize where
  routes := [aRoute]
  done := theEnd
  datagrams := datagrams
  isRoute := isRoute_aRoute
  isDone := rfl
  grouped := h
  nonempty := hne
  fits := length_two

/-- The request of `sky_if_get_gateway` has 0 as its number, and it waits for 1. The end of the dump
is seen when it comes alone. -/
theorem reads_alone : Reads (twoMessages [[aRoute], [theEnd]] rfl (by simp)) []
    (.replicate msgBufSize 0) 1 4711 :=
  (reads_iff _ [] List.length_replicate 1 4711).2 ⟨by decide, .inl rfl⟩

/-- In one datagram with the route it is not, and the call waits for more. -/
theorem not_reads_together : ¬ Reads (twoMessages [[aRoute, theEnd]] rfl (by simp)) []
    (.replicate msgBufSize 0) 1 4711 := by
  unfold Reads readNlSock
  rw [List.length_replicate]
  intro hread
  have hends := (readLoop_iff (by decide) _ _ _ _ _ (Dump.round _ List.length_replicate)).1 hread
  rcases hends with hdone | hans
  · exact absurd hdone (by decide)
  · exact absurd hans (by decide)

end Sky.LocalSocket
