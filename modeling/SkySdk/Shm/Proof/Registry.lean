import SkySdk.Shm.Proof.Calls

/-!
# The registry over a run

`Holding`: the registry of a process holds its live handles, and the process has what they hold
beside what it had at first. It is established by `sky_share_memory_init` (`init_holding`) and kept
by every call (`call_keeps`), so it holds in every state that a run of calls reaches.
-/

set_option autoImplicit false

namespace Sky.Shm

open Base

variable {E : Env} {b : Build} {s s' s0 s1 : Process} {p : Addr} {sm : SkyHandleShareMem}
  {ys zs : List Addr} {l : Addr} {G : Ledger LinkedList.Block} {fit fit' : Prop} {R X : Resources}
  {name : CStr} {nameMax : Nat} {created : Bool} {live : List Handle}
  {xs : List (Handle × SkyHandleShareMem)}

/-- What the process has. -/
def Process.has (s : Process) : Resources := (s.blocks.entries, s.maps, s.files)

/-- What handles hold together. -/
def held (xs : List (Handle × SkyHandleShareMem)) : Resources :=
  (xs.map fun x => heldBy x.1.addr x.2).sum

/-- `s'` has `X` beside what `s` has; of the descriptors it is only said when all names fit. -/
structure Gains (fit : Prop) (s s' : Process) (X : Resources) : Prop where
  blocks : s'.blocks.entries = X.1 + s.blocks.entries
  maps : s'.maps = X.2.1 + s.maps
  files : fit → s'.files = X.2.2 + s.files

/-- The registry holds the live handles, each once. Each of them has its block with the struct of a
handle in it, its mapping and its descriptor, and the process has nothing else but what it had in
`s0`. -/
structure Registered (s0 : Process) (fit : Prop) (s : Process) (live : List Handle) : Prop where
  registry : Shm.registry s = live.map Handle.addr
  nodup : (live.map Handle.addr).Nodup
  length_le : live.length ≤ maxShareMemCount
  holds : ∃ xs, xs.map Prod.fst = live ∧ (∀ x ∈ xs, Backed x.1 x.2) ∧ Gains fit s0 s (held xs)

/-- What a `create` or `open` answers in `s`. -/
def Handed (fit : Prop) (s : Process) (live : List Handle) (created : Bool) (name : CStr) (p : Addr)
    (s' : Process) : Prop :=
  p = 0 ∧ Gains fit s s' 0 ∨
    p ≠ 0 ∧ live.length < maxShareMemCount ∧
      ∃ sm, Backed ⟨p, created, name⟩ sm ∧ Gains fit s s' (heldBy p sm)

/-- What a `destroy` answers in `s`: of a live handle it releases what the handle holds, by one
system call each, and removes its name when it was made by `create`. -/
def Destroyed (fit : Prop) (s : Process) (live : List Handle) (p : Addr) (r : Bool) (s' : Process) :
    Prop :=
  r = false ∧ p ∉ live.map Handle.addr ∧ s' = s ∨
    r = true ∧ ∃ x ∈ live, x.addr = p ∧ ∃ sm, Backed x sm ∧ Gains fit s' s (heldBy p sm) ∧
      s'.log = s.log ++ releases sm

/-- What a call answers in `s`, with the handles `live`. -/
def Answers (fit : Prop) (s : Process) (live : List Handle) : Call → Resp → Process → Prop
  | .create (some name) _, .handle p, s' => Handed fit s live true name p s'
  | .open (some name), .handle p, s' => Handed fit s live false name p s'
  | .create none _, .handle p, s' | .open none, .handle p, s' => p = 0 ∧ s' = s
  | .destroy p, .destroyed r, s' => Destroyed fit s live p r s'
  | _, _, _ => False

/-- The calls that fail an assertion, or may. -/
def Refused (nameMax : Nat) (live : List Handle) : Call → Prop
  | .create none _ => True
  | .create (some name) _ | .open (some name) => nameMax - 1 < (skyStrLen name).toNat
  | .open none => False
  | .destroy p => p ∉ live.map Handle.addr

/-! ## What handles hold -/

theorem held_cons (x : Handle × SkyHandleShareMem) (xs : List (Handle × SkyHandleShareMem)) :
    held (x :: xs) = heldBy x.1.addr x.2 + held xs := by
  rw [held, List.map_cons, List.sum_cons]
  rfl

theorem held_append (xs : List (Handle × SkyHandleShareMem)) (x : Handle × SkyHandleShareMem) :
    held (xs ++ [x]) = heldBy x.1.addr x.2 + held xs := by
  rw [held, List.map_append, List.sum_append, add_comm]
  simp [held]

theorem held_split {x : Handle × SkyHandleShareMem} (hx : x ∈ xs)
    (hnd : (xs.map fun x => x.1.addr).Nodup) :
    held xs = heldBy x.1.addr x.2 + held (xs.filter fun y => y.1.addr ≠ x.1.addr) := by
  induction xs with
  | nil => cases hx
  | cons y xs ih =>
    obtain ⟨hy, hnd⟩ := List.nodup_cons.1 hnd
    rw [held_cons]
    rcases List.mem_cons.1 hx with rfl | hx
    · rw [List.filter_cons_of_neg (by simp), List.filter_eq_self.2]
      intro z hz
      refine decide_eq_true ?_
      intro hc
      exact hy (List.mem_map.2 ⟨z, hz, hc⟩)
    · have hne : y.1.addr ≠ x.1.addr := fun hc => hy (List.mem_map.2 ⟨x, hx, hc.symm⟩)
      rw [List.filter_cons_of_pos (by simpa using hne), held_cons, ih hx hnd, add_left_comm]

theorem erase_addr (hnd : (live.map Handle.addr).Nodup) (p : Addr) :
    (live.map Handle.addr).erase p = (live.filter fun x => x.addr ≠ p).map Handle.addr := by
  rw [hnd.erase_eq_filter, List.filter_map]
  refine congrArg _ (List.filter_congr ?_)
  intro x _
  rw [Function.comp_apply, bne, beq_eq_decide, decide_not]

theorem keys_held (xs : List (Handle × SkyHandleShareMem)) :
    (held xs).1.map Sigma.fst = ↑(xs.map fun x => x.1.addr) := by
  induction xs with
  | nil => rfl
  | cons x xs ih =>
    rw [held_cons, Prod.fst_add, Multiset.map_add, ih]
    rfl

theorem At.nodup (h : At G l fit s (held xs + R) ys) : (xs.map fun x => x.1.addr).Nodup := by
  have hnd := Heap.keys_nodup s.blocks
  rw [h.blocks, Prod.fst_add, Multiset.map_add, keys_held] at hnd
  exact Multiset.coe_nodup.1 (Multiset.nodup_add.1 hnd).1

theorem At.gains (h : At G l fit s R ys) (h' : At G l fit s' (X + R) zs) : Gains fit s s' X := by
  refine ⟨?_, ?_, ?_⟩
  · rw [h'.blocks, h.blocks]
    rfl
  · rw [h'.maps, h.maps]
    rfl
  · intro hf
    rw [h'.files hf, h.files hf]
    rfl

theorem At.mono (h : At G l fit s R ys) (hf : fit' → fit) : At G l fit' s R ys :=
  ⟨h.blocks, h.maps, fun hc => h.files (hf hc), h.list, h.shape⟩

/-! ## The invariant -/

/-- The registry `l` holds the live handles, and they hold what the process has beside `R`. -/
def Holding (G : Ledger LinkedList.Block) (l : Addr) (fit : Prop) (R : Resources) (s : Process)
    (live : List Handle) : Prop :=
  ∃ xs, xs.map Prod.fst = live ∧ (∀ x ∈ xs, Backed x.1 x.2) ∧
    At G l fit s (held xs + R) (live.map Handle.addr)

theorem Holding.mono (h : Holding G l fit R s live) (hf : fit' → fit) :
    Holding G l fit' R s live := by
  obtain ⟨xs, hxs, hb, hat⟩ := h
  exact ⟨xs, hxs, hb, hat.mono hf⟩

theorem Holding.registered (h : Holding G l fit s0.has s live) : Registered s0 fit s live := by
  obtain ⟨xs, rfl, hb, hat⟩ := h
  refine ⟨hat.registry, ?_, ?_, xs, rfl, hb, ⟨hat.blocks, hat.maps, hat.files⟩⟩
  · rw [List.map_map]
    exact hat.nodup
  · have hle := hat.length_le
    rwa [List.length_map] at hle

theorem Holding.handed {wanted : Prop} {x : ShmM Addr} (h : Holding G l fit R s live)
    (hx : ∀ xs, At G l fit s (held xs + R) (live.map Handle.addr) →
      EndsIn E b x s
        (Leaves E G l fit (held xs + R) (live.map Handle.addr) wanted created name)) :
    EndsIn E b x s fun p s' =>
      Holding G l fit R s' (if p = 0 then live else live ++ [⟨p, created, name⟩]) ∧
        Handed fit s live created name p s' := by
  obtain ⟨xs, hxs, hb, hat⟩ := h
  refine (hx xs hat).mono ?_
  intro p s' hp
  rcases hp with ⟨rfl, -, hat'⟩ | ⟨hp, hlt, sm, hsm, hat'⟩
  · have hzero : At G l fit s' (0 + (held xs + R)) (live.map Handle.addr) := by rwa [zero_add]
    rw [if_pos rfl]
    exact ⟨⟨xs, hxs, hb, hat'⟩, .inl ⟨rfl, hat.gains hzero⟩⟩
  · rw [if_neg hp]
    rw [List.length_map] at hlt
    refine ⟨⟨xs ++ [(⟨p, created, name⟩, sm)], ?_, ?_, ?_⟩, .inr ⟨hp, hlt, sm, hsm, hat.gains hat'⟩⟩
    · rw [List.map_append, hxs]
      rfl
    · intro x hx
      rcases List.mem_append.1 hx with hx | hx
      · exact hb x hx
      · rw [List.mem_singleton.1 hx]
        exact hsm
    · rw [held_append, add_assoc, List.map_append]
      exact hat'

theorem Holding.destroyed {x : Handle} (h : Holding G l fit R s live) (hx : x ∈ live) :
    EndsIn E b (skyShareMemoryDestroy x.addr) s fun r s' =>
      Holding G l fit R s' (live.filter fun y => y.addr ≠ x.addr) ∧
        Destroyed fit s live x.addr r s' := by
  obtain ⟨xs, rfl, hb, hat⟩ := h
  obtain ⟨x, hmem, rfl⟩ := List.mem_map.1 hx
  have hnd : (xs.map fun x => x.1.addr).Nodup := hat.nodup
  have hsplit := hat
  rw [held_split hmem hnd, add_assoc] at hsplit
  have hin : x.1.addr ∈ (xs.map Prod.fst).map Handle.addr := List.mem_map.2 ⟨x.1, hx, rfl⟩
  refine (destroy_ends hsplit hin (hb x hmem).handleType).mono ?_
  intro r s' hr
  obtain ⟨rfl, hlog, hat'⟩ := hr
  refine ⟨⟨xs.filter fun y => y.1.addr ≠ x.1.addr, ?_, ?_, ?_⟩,
    .inr ⟨rfl, x.1, hx, rfl, x.2, hb x hmem, hat'.gains hsplit, hlog⟩⟩
  · rw [List.filter_map]
    rfl
  · intro y hy
    exact hb y (List.mem_of_mem_filter hy)
  · rw [List.map_map] at hat'
    rw [← erase_addr, List.map_map]
    · exact hat'
    · rw [List.map_map]
      exact hnd

/-! ## Every call -/

/-- A call keeps the invariant and answers, or an assertion stops it. -/
def Keeps (E : Env) (b : Build) (nameMax : Nat) (G : Ledger LinkedList.Block) (l : Addr)
    (fit : Prop) (R : Resources) (s : Process) (live : List Handle) (c : Call) : Prop :=
  EndsIn E b (call nameMax c) s (fun r s' =>
      Holding G l fit R s' (liveAfter live c r) ∧ Answers fit s live c r s') ∨
    b.assertAborts = true ∧ Refused nameMax live c ∧
      ∃ e, (call nameMax c).run (handle E b) s = .error e

/-- A call whose first part may be stopped. -/
theorem keeps_of_refused {α : Type} {x : ShmM α} {P : α → Process → Prop} {f : α → ShmM Resp}
    {c : Call} (hc : call nameMax c = x >>= f) (hr : Refused nameMax live c)
    (hx : EndsOrAborts E b x s P)
    (k : ∀ a s', P a s' → EndsIn E b (f a) s' fun r s' =>
      Holding G l fit R s' (liveAfter live c r) ∧ Answers fit s live c r s') :
    Keeps E b nameMax G l fit R s live c := by
  unfold Keeps
  rw [hc]
  rcases hx.bind k with h | ⟨hb, he⟩
  · exact .inl h
  · exact .inr ⟨hb, hr, he⟩

theorem Handed.unchanged (fit : Prop) (s : Process) (live : List Handle) (created : Bool)
    (name : CStr) : Handed fit s live created name 0 s :=
  .inl ⟨rfl, ⟨(zero_add _).symm, (zero_add _).symm, fun _ => (zero_add _).symm⟩⟩

theorem create_keeps {n : Option CStr} {size : UInt32} (h : Holding G l fit R s live)
    (hfit : fit → (Call.create n size).Fits nameMax) :
    Keeps E b nameMax G l fit R s live (.create n size) := by
  cases n with
  | none =>
    refine keeps_of_refused rfl trivial (create_refused (by simp)) ?_
    rintro _ _ ⟨rfl, rfl⟩
    exact pure_ends ⟨h, rfl, rfl⟩
  | some name =>
    by_cases hlen : (skyStrLen name).toNat ≤ nameMax - 1
    · refine .inl (bind_ends (h.handed fun xs hat => create_ends hat hlen ?_) ?_)
      · exact fun hf => hfit hf hlen
      · exact fun p s' hp => pure_ends hp
    · have hlong := Nat.lt_of_not_le hlen
      refine keeps_of_refused rfl hlong (create_refused ?_) ?_
      · rintro _ ⟨⟩
        exact hlong
      · rintro _ _ ⟨rfl, rfl⟩
        exact pure_ends ⟨h, .unchanged _ _ _ _ _⟩

theorem open_keeps {n : Option CStr} (h : Holding G l fit R s live)
    (hfit : fit → (Call.open n).Fits nameMax) :
    Keeps E b nameMax G l fit R s live (.open n) := by
  cases n with
  | none => exact .inl (pure_ends ⟨h, rfl, rfl⟩)
  | some name =>
    by_cases hlen : (skyStrLen name).toNat ≤ nameMax - 1
    · refine .inl (bind_ends (h.handed fun xs hat => open_ends hat hlen ?_) ?_)
      · exact fun hf => hfit hf hlen
      · exact fun p s' hp => pure_ends hp
    · have hlong := Nat.lt_of_not_le hlen
      refine keeps_of_refused rfl hlong (open_refused hlong) ?_
      rintro _ _ ⟨rfl, rfl⟩
      exact pure_ends ⟨h, .unchanged _ _ _ _ _⟩

theorem destroy_keeps (h : Holding G l fit R s live) :
    Keeps E b nameMax G l fit R s live (.destroy p) := by
  by_cases hp : p ∈ live.map Handle.addr
  · obtain ⟨x, hx, rfl⟩ := List.mem_map.1 hp
    exact .inl (bind_ends (h.destroyed hx) fun r s' hr => pure_ends hr)
  · obtain ⟨xs, hxs, hb, hat⟩ := id h
    refine keeps_of_refused rfl hp (destroy_absent hat hp) ?_
    rintro _ _ ⟨rfl, rfl⟩
    refine pure_ends ⟨?_, .inl ⟨rfl, hp, rfl⟩⟩
    have hsame : live.filter (fun x => x.addr ≠ p) = live := by
      refine List.filter_eq_self.2 ?_
      intro x hx
      refine decide_eq_true ?_
      intro hc
      exact hp (List.mem_map.2 ⟨x, hx, hc⟩)
    change Holding G l fit R _ (live.filter fun x => x.addr ≠ p)
    rwa [hsame]

theorem call_keeps (h : Holding G l fit R s live) (c : Call) (hfit : fit → c.Fits nameMax) :
    Keeps E b nameMax G l fit R s live c := by
  cases c with
  | create n size => exact create_keeps h hfit
  | «open» n => exact open_keeps h hfit
  | destroy p => exact destroy_keeps h

/-! ## Runs -/

theorem initList_returns (fit : Prop) (h0 : s0.shareMemList = 0) :
    Returns (initList E b) s0 fun ok s => ok = true → ∃ G l, At G l fit s s0.has [] := by
  have hcreate : Returns (onNodes (LinkedList.skyListCreate E.nodes b maxCount)) s0
      fun l s => ∃ h, s = { s0 with nodes := h } ∧
        (l ≠ 0 → LinkedList.Created b s0.nodes maxCount l h) := by
    refine returns_zoom ?_
    intro l h hx
    exact ⟨h, rfl, LinkedList.skyListCreate_returns E.nodes b maxCount s0.nodes l h hx⟩
  have hread : Returns readList s0 fun l s => l = 0 ∧ s = s0 := by
    intro l s hx
    cases hx
    exact ⟨h0, rfl⟩
  unfold initList
  refine hread.bind ?_
  intro p s hs
  obtain ⟨rfl, rfl⟩ := hs
  rw [if_pos rfl]
  refine hcreate.bind ?_
  intro l s1 hl
  obtain ⟨h, rfl, hl⟩ := hl
  intro ok s2 hx hok
  cases hx
  obtain ⟨-, ps, -, S, -⟩ := hl (of_decide_eq_true hok)
  exact ⟨_, l, rfl, rfl, fun _ => rfl, rfl, [], ps, S, rfl⟩

theorem initCs_returns (h : At G l fit s R ys) :
    Returns (initCs E) s fun _ s' => At G l fit s' R ys := by
  intro ok s' hx
  unfold initCs at hx
  by_cases hc : s.shareMemListCs = 0
  · rw [if_pos hc] at hx
    cases hx
    exact ⟨h.blocks, h.maps, h.files, h.list, h.shape⟩
  · rw [if_neg hc] at hx
    cases hx
    exact h

/-- After `sky_share_memory_init` the registry is there, and empty. -/
theorem init_holding (fit : Prop) (h0 : s0.shareMemList = 0)
    (hinit : skyShareMemoryInit E b s0 = .ok (true, s1)) :
    ∃ G l, Holding G l fit s0.has s1 [] := by
  have hboth : Returns (skyShareMemoryInit E b) s0 fun ok s =>
      ok = true → ∃ G l, At G l fit s s0.has [] := by
    unfold skyShareMemoryInit
    refine (initList_returns fit h0).bind ?_
    intro ok s hok
    cases ok with
    | false =>
      intro ok' s' hx hok'
      cases hx
      cases hok'
    | true =>
      obtain ⟨G, l, hat⟩ := hok rfl
      rw [if_pos rfl]
      intro ok' s' hx _
      exact ⟨G, l, initCs_returns hat ok' s' hx⟩
  obtain ⟨G, l, hat⟩ := hboth true s1 hinit rfl
  refine ⟨G, l, [], rfl, by simp, ?_⟩
  rwa [held, List.map_nil, List.sum_nil, zero_add]

theorem run_holding {cs : List Call} (h0 : Holding G l fit R s1 [])
    (hr : Steps (callLive E b nameMax) (fun _ _ => True) (s1, []) cs (s, live))
    (hfit : fit → ∀ c ∈ cs, c.Fits nameMax) : Holding G l fit R s live := by
  refine hr.mem.inv (I := fun t => Holding G l fit R t.1 t.2) ?_ h0
  intro t c r t' h hc hcall
  unfold callLive at hcall
  have hkeeps : Keeps E b nameMax G l fit R t.1 t.2 c :=
    call_keeps h c fun hf => hfit hf c hc.2
  rcases hkeeps with ⟨r', s2, hrun, hk, -⟩ | ⟨-, -, e, he⟩
  · rw [hrun] at hcall
    cases hcall
    exact hk
  · rw [he] at hcall
    cases hcall

/-- The struct of a live handle. -/
theorem run_typed {cs : List Call} {x : Handle} (h0 : s0.shareMemList = 0)
    (hinit : skyShareMemoryInit E b s0 = .ok (true, s1))
    (hr : Steps (callLive E b nameMax) (fun _ _ => True) (s1, []) cs (s, live)) (hx : x ∈ live)
    (hsm : s.blocks.get? x.addr = some sm) :
    sm.handleType = SkyHandleType.shareMemory.code := by
  obtain ⟨G, l, hstart⟩ := init_holding False h0 hinit
  obtain ⟨xs, rfl, hb, hat⟩ := run_holding hstart hr False.elim
  obtain ⟨y, hy, rfl⟩ := List.mem_map.1 hx
  have hblocks := hat.blocks
  rw [held_split hy hat.nodup] at hblocks
  have hget : s.blocks.get? y.1.addr = some y.2 := Heap.get?_of_entries (by
    rw [hblocks, heldBy]
    simp only [Prod.fst_add]
    exact add_assoc _ _ _)
  rw [hsm] at hget
  cases hget
  exact (hb y hy).handleType

/-- In every state that a run of calls reaches from a successful `sky_share_memory_init`, the
registry holds exactly the live handles, each once and at most 1000, and they hold what the process
has. There a call answers as `Answers` says and keeps this, or it stops at an assertion, in a build
whose assertions abort: a `create` without a name, a name that is too long, a `destroy` of a value
that is no live handle. -/
theorem registry_spec {cs : List Call} (h0 : s0.shareMemList = 0)
    (hinit : skyShareMemoryInit E b s0 = .ok (true, s1))
    (hr : Steps (callLive E b nameMax) (fun _ _ => True) (s1, []) cs (s, live)) :
    Registered s0 (∀ c ∈ cs, c.Fits nameMax) s live ∧
      ∀ c, (∃ r s', (call nameMax c).run (handle E b) s = .ok (r, s') ∧
          Answers (∀ d ∈ c :: cs, d.Fits nameMax) s live c r s' ∧
          Registered s0 (∀ d ∈ c :: cs, d.Fits nameMax) s' (liveAfter live c r)) ∨
        b.assertAborts = true ∧ Refused nameMax live c ∧
          ∃ e, (call nameMax c).run (handle E b) s = .error e := by
  obtain ⟨G, l, hstart⟩ := init_holding (∀ c ∈ cs, c.Fits nameMax) h0 hinit
  have h := run_holding hstart hr id
  refine ⟨h.registered, ?_⟩
  intro c
  have hc : Holding G l (∀ d ∈ c :: cs, d.Fits nameMax) s0.has s live :=
    h.mono fun hf d hd => hf d (List.mem_cons_of_mem c hd)
  have hkeeps : Keeps E b nameMax G l _ s0.has s live c :=
    call_keeps hc c fun hf => hf c List.mem_cons_self
  rcases hkeeps with ⟨r, s', hrun, hk, ha⟩ | he
  · exact .inl ⟨r, s', hrun, ha, hk.registered⟩
  · exact .inr he

/-! ## A run -/

/-- An environment that refuses nothing. -/
def willing : Env where
  blocks := LinkedList.granting
  nodes := LinkedList.granting
  criticalSection := 8
  shmOpen _ := some 3
  ftruncate _ := true
  fstat _ := some 4096
  mmap _ := some 4096
  left _ := []
  fstat_lt t n h := by
    cases h
    decide

theorem willing_willing : willing.Willing where
  blocks _ := rfl
  nodes _ := rfl
  shmOpen _ := Option.some_ne_none 3
  ftruncate _ := rfl
  fstat _ := ⟨Option.some_ne_none 4096, by simp [willing]⟩
  mmap _ := Option.some_ne_none 4096

/-- A process that has made no call yet. -/
def newProcess : Process where
  shareMemList := 0
  shareMemListCs := 0
  nodes := .empty
  blocks := .empty
  maps := 0
  files := 0
  log := []

theorem exists_init (b : Build) :
    ∃ s1, skyShareMemoryInit willing b newProcess = .ok (true, s1) := by
  obtain ⟨l, h, hc, hl⟩ : ∃ l h, LinkedList.skyListCreate LinkedList.granting b maxCount .empty =
      .ok (l, h) ∧ l ≠ 0 := LinkedList.exists_create (by decide) fun _ _ => rfl
  have hlist : Ends (initList willing b) newProcess fun ok _ => ok = true := by
    refine (ends_bind _ _).2 ((ends_of_eq rfl).2 ?_)
    rw [if_pos (show newProcess.shareMemList = 0 from rfl), ends_bind]
    refine ends_zoom.2 ((ends_of_eq hc).2 ?_)
    exact (ends_of_eq rfl).2 (decide_eq_true hl)
  have hcs : ∀ s, Ends (initCs willing) s fun ok _ => ok = true := by
    intro s
    by_cases hz : s.shareMemListCs = 0
    · exact ⟨_, _, if_pos hz, rfl⟩
    · exact ⟨_, _, if_neg hz, rfl⟩
  have hinit : Ends (skyShareMemoryInit willing b) newProcess fun ok _ => ok = true := by
    refine hlist.bind ?_
    rintro _ s rfl
    rw [if_pos rfl]
    exact hcs s
  obtain ⟨_, s1, hs1, rfl⟩ := hinit
  exact ⟨s1, hs1⟩

/-- A name of one letter. -/
def oneLetter : CStr := ⟨[97], CStr.noNul_a⟩

theorem exists_created (b : Build) : ∃ s1 p s,
    skyShareMemoryInit willing b newProcess = .ok (true, s1) ∧ p ≠ 0 ∧
      (call 256 (.create (some oneLetter) 8)).run (handle willing b) s1 = .ok (.handle p, s) := by
  obtain ⟨s1, hinit⟩ := exists_init b
  obtain ⟨G, l, xs, hxs, -, hat⟩ := init_holding True rfl hinit
  have hcreate : EndsIn willing b (call 256 (.create (some oneLetter) 8)) s1 fun r _ =>
      ∃ p, r = .handle p ∧ p ≠ 0 := by
    have hlen : (skyStrLen oneLetter).toNat ≤ 256 - 1 := by decide
    have hfits : oneLetter.length < intMax := by decide
    refine bind_ends (create_ends hat hlen fun _ => hfits) ?_
    intro p s hp
    refine pure_ends ⟨p, rfl, ?_⟩
    rcases hp with ⟨-, hrefused, -⟩ | ⟨hp, -⟩
    · exact (hrefused ⟨willing_willing, by decide, hfits, by decide⟩).elim
    · exact hp
  obtain ⟨_, s, hrun, p, rfl, hp⟩ := hcreate
  exact ⟨s1, p, s, hinit, hp, hrun⟩

/-- A handle is made and registered, and its `destroy` empties the registry again. -/
theorem registry_spec_created : ∃ s1 p s,
    skyShareMemoryInit willing LinkedList.plainBuild newProcess = .ok (true, s1) ∧ p ≠ 0 ∧
      Registered newProcess (∀ c ∈ [Call.create (some oneLetter) 8], c.Fits 256) s
        [⟨p, true, oneLetter⟩] ∧
      ∃ s', (call 256 (.destroy p)).run (handle willing LinkedList.plainBuild) s =
          .ok (.destroyed true, s') ∧ registry s' = [] := by
  obtain ⟨s1, p, s, hinit, hp, hrun⟩ := exists_created LinkedList.plainBuild
  have hstep : callLive willing LinkedList.plainBuild 256 (.create (some oneLetter) 8) (s1, []) =
      .ok (.handle p, (s, [⟨p, true, oneLetter⟩])) := by
    unfold callLive
    rw [hrun]
    simp [liveAfter, hp]
  have hsteps : Steps (callLive willing LinkedList.plainBuild 256) (fun _ _ => True) (s1, [])
      [.create (some oneLetter) 8] (s, [⟨p, true, oneLetter⟩]) := .cons trivial hstep (.nil _)
  obtain ⟨hreg, hcalls⟩ := registry_spec rfl hinit hsteps
  refine ⟨s1, p, s, hinit, hp, hreg, ?_⟩
  rcases hcalls (.destroy p) with ⟨r, s', hdestroy, ha, hreg'⟩ | ⟨hb, -⟩
  · cases r with
    | handle q => exact ha.elim
    | destroyed r =>
      rcases ha with ⟨-, hnot, -⟩ | ⟨rfl, -⟩
      · simp at hnot
      · refine ⟨s', hdestroy, ?_⟩
        rw [hreg'.registry]
        simp [liveAfter]
  · cases hb

/-- With assertions that abort, a `destroy` of NULL does not return. -/
theorem not_destroys_absent : ¬ ∀ (E : Env) (b : Build) (nameMax : Nat) (s0 s1 s : Process)
    (live : List Handle) (cs : List Call) (p : Addr), s0.shareMemList = 0 →
    skyShareMemoryInit E b s0 = .ok (true, s1) →
    Steps (callLive E b nameMax) (fun _ _ => True) (s1, []) cs (s, live) → p ∉ registry s →
    (call nameMax (.destroy p)).run (handle E b) s = .ok (.destroyed false, s) := by
  intro h
  obtain ⟨s1, hinit⟩ := exists_init ⟨0, true⟩
  obtain ⟨G, l, hstart⟩ := init_holding True rfl hinit
  have hreg : registry s1 = [] := hstart.registered.registry
  have hfalse := h willing ⟨0, true⟩ 256 newProcess s1 s1 [] [] 0 rfl hinit (.nil _)
    (by rw [hreg]; simp)
  have habort : (call 256 (.destroy 0)).run (handle willing ⟨0, true⟩) s1 = .error .aborted := rfl
  rw [habort] at hfalse
  cases hfalse

end Sky.Shm
