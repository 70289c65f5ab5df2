import SkySdk.Shm.Defs

/-!
# The stages of a call

How far a call of `sky_ipc_shm.c` has come, by the block and the name it holds (`Stage`), the
requests it may make in each stage (`may`), and what a reply takes it to (`next`). The three
programs keep to them (`call_safe`), when the names they are given can be formatted.
-/

set_option autoImplicit false

namespace Sky.Shm

open Base

variable {nameMax : Nat} {p q : Addr} {sm : SkyHandleShareMem}

inductive Stage
  | idle
  /-- A `destroy` that has not removed its handle yet. -/
  | removing (p : Addr)
  /-- A block that is not on the registry. -/
  | holds (p : Addr)
  /-- The block, and the name made for it. -/
  | owns (p : Addr) (name : List UInt8) (fd : Nat)
  /-- The block, with its struct in it. -/
  | stored (p : Addr) (sm : SkyHandleShareMem)
  /-- The block of a handle taken from the registry. -/
  | taken (p : Addr)
  /-- The handle a `create` has put on the registry. -/
  | made (p : Addr) (sm : SkyHandleShareMem)

def firstStage : Call → Stage
  | .destroy p => .removing p
  | _ => .idle

/-- A name that passes the length check can be formatted. The check sees lengths modulo `2 ^ 32`. -/
def Call.Fits (nameMax : Nat) : Call → Prop
  | .create (some name) _ | .open (some name) =>
    (skyStrLen name).toNat ≤ nameMax - 1 → name.length < intMax
  | _ => True

/-- The requests of a call in a stage. -/
def may (c : Call) (g : Stage) : Request → Prop
  | .alloc => g = .idle
  | .free p => g = .holds p ∨ ∃ sm, g = .stored p sm ∧ sm.isCreator = false
  | .store p sm => (g = .holds p ∧ sm.isCreator = false) ∨
      ∃ fd, g = .owns p sm.name fd ∧ sm.file = some fd
  | .load p => g = .taken p
  | .shmOpen _ true => ∃ p, g = .holds p
  | .shmUnlink name => (∃ p fd, g = .owns p name fd) ∨
      (∃ p sm, g = .stored p sm ∧ sm.isCreator = true ∧ sm.name = name) ∨
      ∃ p n, c = .open n ∧ (g = .holds p ∨ ∃ sm, g = .stored p sm ∧ sm.isCreator = false)
  | .pushBack p => ∃ sm, g = .stored p sm
  | .remove p => g = .removing p
  | _ => True

/-- The stage after a reply. -/
def next (g : Stage) : (o : Request) → o.Reply → Stage → Prop
  | .alloc, p => fun g' => g' = if p = 0 then .idle else .holds p
  | .free _, _ => fun g' => g' = .idle
  | .store p sm, _ => fun g' => g' = .stored p sm
  | .load p, sm => fun g' => g' = .stored p sm
  | .print size before name, r => fun g' =>
      g' = g ∧ ∃ left, r = skyStrPrintf size before name left
  | .shmOpen name true, some fd => fun g' => ∃ p, g = .holds p ∧ g' = .owns p name fd
  | .shmUnlink _, _ => fun g' => ∃ p, g' = .holds p ∧
      ((∃ name fd, g = .owns p name fd) ∨ (∃ sm, g = .stored p sm) ∨ g = .holds p)
  | .pushBack _, true => fun g' => ∃ p sm, g = .stored p sm ∧
      g' = if sm.isCreator then .made p sm else .idle
  | .remove _, p => fun g' => g' = if p = 0 then .idle else .taken p
  | _, _ => fun g' => g' = g

/-- The stage of a call that returns: a `create` that does not fail has made its handle. -/
def post (c : Call) (g : Stage) (r : Resp) : Prop :=
  match c, r with
  | .create (some name) _, .handle p => (p = 0 ∧ g = .idle) ∨
      ∃ sm, g = .made p sm ∧ sm.name = formatted nameSize shareMemNamePattern name
  | _, _ => g = .idle

/-! ## The programs keep to their stages -/

abbrev SafeCall {α : Type} (c : Call) (Q : Stage → α → Prop) (g : Stage) (x : ShmM α) : Prop :=
  x.Safe (may c) next Q g

section
variable {c : Call} {α : Type} {Q : Stage → α → Prop} {g : Stage}

theorem safe_request {o : Request} {f : o.Reply → ShmM α} (ho : may c g o)
    (hf : ∀ r g', next g o r g' → SafeCall c Q g' (f r)) :
    SafeCall c Q g (request o >>= f) := ⟨ho, hf⟩

theorem safe_pure {a : α} (h : Q g a) : SafeCall c Q g (pure a) := h

theorem safe_skip {o : Request} {f : o.Reply → ShmM α} (ho : may c g o)
    (hn : ∀ r g', next g o r g' → g' = g) (hf : ∀ r, SafeCall c Q g (f r)) :
    SafeCall c Q g (request o >>= f) := by
  refine safe_request ho ?_
  intro r g' hg
  rw [hn r g' hg]
  exact hf r

theorem safe_ite {d : Prop} [Decidable d] {x y : ShmM α} (hx : d → SafeCall c Q g x)
    (hy : ¬ d → SafeCall c Q g y) : SafeCall c Q g (if d then x else y) := by
  by_cases hd : d
  · rw [if_pos hd]
    exact hx hd
  · rw [if_neg hd]
    exact hy hd

/-- The stage `g` is one of a call with the block `p`, not on the registry. -/
def Stage.Has (g : Stage) (p : Addr) : Prop :=
  (∃ name fd, g = .owns p name fd) ∨ (∃ sm, g = .stored p sm) ∨ g = .holds p

theorem Stage.Has.eq {g : Stage} (hp : g.Has p) (hq : g.Has q) : p = q := by
  cases g with
  | idle => simp [Has] at hp
  | removing r => simp [Has] at hp
  | taken r => simp [Has] at hp
  | made r sm => simp [Has] at hp
  | holds r => simp_all [Has]
  | owns r name fd => simp_all [Has]
  | stored r sm => simp_all [Has]

/-- The clean-up of a call that has no descriptor. -/
theorem cleanUp_safe (hfile : sm.file = none) :
    SafeCall c (fun g r => r = 0 ∧ g = .idle) (.holds p) (cleanUp p sm) := by
  unfold cleanUp
  have hfree : SafeCall c (fun g r => r = 0 ∧ g = .idle) (.holds p)
      (request (.free p) >>= fun _ => pure 0) := by
    refine safe_request (.inl rfl) ?_
    intro _ g' hg
    exact safe_pure ⟨rfl, hg⟩
  by_cases hptr : sm.ptr ≠ none
  · rw [if_pos hptr]
    refine safe_skip trivial (fun _ _ h => h) ?_
    intro _
    rw [if_neg (not_not.2 hfile)]
    exact hfree
  · rw [if_neg hptr, if_neg (not_not.2 hfile)]
    exact hfree

/-- The clean-up of a call that has one: it removes the name. -/
theorem cleanUp_safe_unlink (hfile : sm.file ≠ none) (hp : g.Has p)
    (hun : may c g (.shmUnlink sm.name)) :
    SafeCall c (fun g r => r = 0 ∧ g = .idle) g (cleanUp p sm) := by
  unfold cleanUp
  have hrest : SafeCall c (fun g r => r = 0 ∧ g = .idle) g
      (request (.close sm.file) >>= fun _ => request (.shmUnlink sm.name) >>= fun _ =>
        request (.free p) >>= fun _ => pure 0) := by
    refine safe_skip trivial (fun _ _ h => h) ?_
    intro _
    refine safe_request hun ?_
    intro _ g' hg
    obtain ⟨q, rfl, hq⟩ := hg
    rw [hp.eq hq]
    refine safe_request (.inl rfl) ?_
    intro _ g' hg
    exact safe_pure ⟨rfl, hg⟩
  by_cases hptr : sm.ptr ≠ none
  · rw [if_pos hptr, if_pos hfile]
    refine safe_skip trivial (fun _ _ h => h) ?_
    intro _
    exact hrest
  · rw [if_neg hptr, if_pos hfile]
    exact hrest

/-- A call that registers its handle: it is the `create` that made the name, or an `open`. -/
theorem register_safe (hfile : sm.file ≠ none) (hstore : may c g (.store p sm))
    (hc : sm.isCreator = true ∨ ∃ n, c = .open n) :
    SafeCall c (fun g r => (r = 0 ∧ g = .idle) ∨
      r = p ∧ g = if sm.isCreator then .made p sm else .idle) g (register p sm) := by
  unfold register
  refine safe_request hstore ?_
  intro _ g1 hg1
  subst hg1
  refine safe_skip trivial (fun _ _ h => h) ?_
  intro _
  refine safe_request ⟨sm, rfl⟩ ?_
  intro r g2 hg2
  cases r with
  | true =>
    obtain ⟨q, sm', hq, hg2⟩ := hg2
    cases hq
    subst hg2
    refine safe_skip trivial (fun _ _ h => h) ?_
    intro _
    exact safe_pure (.inr ⟨rfl, rfl⟩)
  | false =>
    subst hg2
    refine safe_skip trivial (fun _ _ h => h) ?_
    intro _
    have hun : may c (.stored p sm) (.shmUnlink sm.name) := by
      cases hcr : sm.isCreator with
      | true => exact .inr (.inl ⟨p, sm, rfl, hcr, rfl⟩)
      | false =>
        obtain ⟨n, hn⟩ := hc.resolve_left (by simp [hcr])
        exact .inr (.inr ⟨p, n, hn, .inr ⟨sm, rfl, hcr⟩⟩)
    have hclean := cleanUp_safe_unlink hfile (.inr (.inl ⟨sm, rfl⟩)) hun
    exact hclean.mono fun g r h => .inl h

end

theorem print_fits {name : CStr} {left : List UInt8} (hn : name.length < intMax) :
    skyStrPrintf nameSize shareMemNamePattern name left =
      ((1 + name.length : Int), formatted nameSize shareMemNamePattern name) := by
  unfold skyStrPrintf
  have hle : shareMemNamePattern.length + name.length ≤ intMax := by
    change 1 + name.length ≤ intMax
    omega
  rw [if_pos hle]
  rfl

theorem create_safe {size : UInt32} {name : CStr}
    (hn : (skyStrLen name).toNat ≤ nameMax - 1 → name.length < intMax) :
    SafeCall (.create (some name) size) (fun g r => (r = 0 ∧ g = .idle) ∨
        ∃ sm, g = .made r sm ∧ sm.name = formatted nameSize shareMemNamePattern name) .idle
      (skyShareMemoryCreate nameMax (some name) size) := by
  unfold skyShareMemoryCreate
  refine safe_ite (fun _ => ?_) fun hlen => ?_
  · refine safe_skip trivial (fun _ _ h => h) ?_
    intro _
    exact safe_pure (.inl ⟨rfl, rfl⟩)
  refine safe_request rfl ?_
  intro p g1 (hg1 : g1 = if p = 0 then .idle else .holds p)
  subst hg1
  by_cases hp : p = 0
  · rw [if_pos hp, if_pos hp]
    exact safe_pure (.inl ⟨rfl, rfl⟩)
  rw [if_neg hp, if_neg hp]
  refine safe_request trivial ?_
  intro r g2 hg2
  obtain ⟨rfl, left, rfl⟩ := hg2
  rw [print_fits (hn (Nat.le_of_not_lt hlen))]
  dsimp only
  rw [if_neg (by omega)]
  refine safe_request ⟨p, rfl⟩ ?_
  intro file g3 hg3
  cases file with
  | none =>
    subst hg3
    exact (cleanUp_safe rfl).mono fun g r h => .inl h
  | some fd =>
    obtain ⟨q, hq, rfl⟩ := hg3
    cases hq
    have hun : ∀ sm : SkyHandleShareMem,
        sm.name = formatted nameSize shareMemNamePattern name → sm.file = some fd →
        SafeCall (.create (some name) size) (fun g r => r = 0 ∧ g = .idle)
          (.owns p (formatted nameSize shareMemNamePattern name) fd) (cleanUp p sm) := by
      intro sm hname hfile
      refine cleanUp_safe_unlink (by rw [hfile]; simp) (.inl ⟨_, _, rfl⟩) (.inl ⟨p, fd, ?_⟩)
      rw [hname]
    refine safe_skip trivial (fun _ _ h => h) ?_
    intro sized
    refine safe_ite (fun _ => ?_) fun _ => (hun _ rfl rfl).mono fun g r h => .inl h
    refine safe_skip trivial (fun _ _ h => h) ?_
    intro ptr
    refine safe_ite (fun _ => (hun _ rfl rfl).mono fun g r h => .inl h) fun _ => ?_
    refine Proc.Safe.mono
      (register_safe (Option.some_ne_none fd) (.inr ⟨fd, rfl, rfl⟩) (.inl rfl)) ?_
    intro g r h
    exact h.imp_right fun h => ⟨_, by rw [h.1, h.2]; rfl, rfl⟩

theorem open_safe {name : CStr}
    (hn : (skyStrLen name).toNat ≤ nameMax - 1 → name.length < intMax) :
    SafeCall (.open (some name)) (fun g _ => g = .idle) .idle
      (skyShareMemoryOpen nameMax (some name)) := by
  unfold skyShareMemoryOpen
  refine safe_ite (fun _ => ?_) fun hlen => ?_
  · refine safe_skip trivial (fun _ _ h => h) ?_
    intro _
    exact safe_pure rfl
  refine safe_request rfl ?_
  intro p g1 (hg1 : g1 = if p = 0 then .idle else .holds p)
  subst hg1
  by_cases hp : p = 0
  · rw [if_pos hp, if_pos hp]
    exact safe_pure rfl
  rw [if_neg hp, if_neg hp]
  refine safe_request trivial ?_
  intro r g2 hg2
  obtain ⟨rfl, left, rfl⟩ := hg2
  rw [print_fits (hn (Nat.le_of_not_lt hlen))]
  dsimp only
  rw [if_neg (by omega)]
  refine safe_skip trivial (fun _ _ h => h) ?_
  intro file
  cases file with
  | none => exact (cleanUp_safe rfl).mono fun g r h => h.2
  | some fd =>
    have hun : ∀ sm : SkyHandleShareMem, sm.file = some fd →
        SafeCall (.open (some name)) (fun g _ => g = .idle) (.holds p) (cleanUp p sm) := by
      intro sm hfile
      refine (cleanUp_safe_unlink (by rw [hfile]; simp) (.inr (.inr rfl)) ?_).mono fun g r h => h.2
      exact .inr (.inr ⟨p, some name, rfl, .inl rfl⟩)
    refine safe_skip trivial (fun _ _ h => h) ?_
    intro stSize
    cases stSize with
    | none => exact hun _ rfl
    | some stSize =>
      refine safe_skip trivial (fun _ _ h => h) ?_
      intro ptr
      refine safe_ite (fun _ => hun _ rfl) fun _ => ?_
      refine Proc.Safe.mono (register_safe (Option.some_ne_none fd) (.inl ⟨rfl, rfl⟩)
        (.inr ⟨_, rfl⟩)) ?_
      intro g r h
      cases h with
      | inl h => exact h.2
      | inr h => exact h.2

theorem destroy_safe : SafeCall (.destroy p) (fun g _ => g = .idle) (.removing p)
    (skyShareMemoryDestroy p) := by
  unfold skyShareMemoryDestroy
  refine safe_skip trivial (fun _ _ h => h) ?_
  intro _
  refine safe_skip trivial (fun _ _ h => h) ?_
  intro _
  refine safe_request rfl ?_
  intro q g1 (hg1 : g1 = if q = 0 then .idle else .taken q)
  subst hg1
  refine safe_skip trivial (fun _ _ h => h) ?_
  intro _
  by_cases hq : q = 0
  · rw [if_pos hq, if_pos hq]
    exact safe_pure rfl
  rw [if_neg hq, if_neg hq]
  refine safe_request rfl ?_
  intro sm g2 (hg2 : g2 = .stored q sm)
  subst hg2
  refine safe_skip trivial (fun _ _ h => h) ?_
  intro _
  refine safe_skip trivial (fun _ _ h => h) ?_
  intro _
  by_cases hc : sm.isCreator = true
  · rw [if_pos hc]
    refine safe_request (.inr (.inl ⟨q, sm, rfl, hc, rfl⟩)) ?_
    intro _ g3 hg3
    obtain ⟨q', rfl, hq'⟩ := hg3
    have hqq : q = q' := Stage.Has.eq (.inr (.inl ⟨sm, rfl⟩)) hq'
    subst hqq
    refine safe_request (.inl rfl) ?_
    intro _ g4 hg4
    exact safe_pure hg4
  · rw [if_neg hc]
    refine safe_request (.inr ⟨sm, rfl, by simpa using hc⟩) ?_
    intro _ g3 hg3
    exact safe_pure hg3

theorem call_safe (c : Call) (hc : c.Fits nameMax) :
    SafeCall c (post c) (firstStage c) (call nameMax c) := by
  cases c with
  | create name size =>
    cases name with
    | none =>
      refine safe_skip trivial (fun _ _ h => h) ?_
      intro _
      exact safe_pure rfl
    | some name =>
      refine (create_safe hc).bind ?_
      intro g r h
      exact safe_pure h
  | «open» name =>
    cases name with
    | none => exact safe_pure rfl
    | some name =>
      refine (open_safe hc).bind ?_
      intro g r h
      exact safe_pure h
  | destroy p =>
    refine destroy_safe.bind ?_
    intro g r h
    exact safe_pure h

end Sky.Shm
