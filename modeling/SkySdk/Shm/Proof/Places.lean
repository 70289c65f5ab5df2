import SkySdk.Shm.Threads

/-!
# Where a call of a thread is

What a call knows of a handle (`Place`) and how far it is in the section (`Phase`), the requests it
may make there (`allows`), and what a reply takes it to (`moves`). The programs keep to them
(`call_placed`).
-/

set_option autoImplicit false

namespace Sky.Shm

open Base

variable {nameMax : Nat} {p : Addr} {sm : SkyHandleShareMem}

inductive Place
  | nowhere
  /-- A block that is not on the registry. -/
  | fresh (p : Addr)
  /-- On the registry, and to be handed out. -/
  | listed (p : Addr)
  /-- On the registry, and taken from the callers. -/
  | taken (p : Addr)
deriving DecidableEq

/-- Outside of the section; inside, before the operation on the list; and after it. -/
inductive Phase
  | outside
  | entered
  | finished
deriving DecidableEq

structure Whereabouts where
  place : Place
  phase : Phase
deriving DecidableEq

abbrev out (place : Place) : Whereabouts := ⟨place, .outside⟩

def allows (g : Whereabouts) : Request → Prop
  | .alloc => g = out .nowhere
  | .free p | .store p _ | .load p => g = out (.fresh p)
  | .enter => g.phase = .outside
  | .leave => g.phase = .finished
  | .pushBack p => g = ⟨.fresh p, .entered⟩
  | .remove p => g = ⟨if p = 0 then .nowhere else .taken p, .entered⟩
  | _ => True

def moves (g : Whereabouts) : (o : Request) → o.Reply → Whereabouts → Prop
  | .alloc, p => fun g' => g' = out (if p = 0 then .nowhere else .fresh p)
  | .free _, _ => fun g' => g' = out .nowhere
  | .enter, _ => fun g' => g' = { g with phase := .entered }
  | .leave, _ => fun g' => g' = { g with phase := .outside }
  | .pushBack p, r => fun g' => g' = ⟨if r then .listed p else .fresh p, .finished⟩
  | .remove _, r => fun g' => g' = ⟨if r = 0 then .nowhere else .fresh r, .finished⟩
  | _, _ => fun g' => g' = g

def firstPlace : Call → Whereabouts
  | .destroy p => out (if p = 0 then .nowhere else .taken p)
  | _ => out .nowhere

def lastPlace (c : Call) (g : Whereabouts) (r : Resp) : Prop :=
  match c, r with
  | .destroy _, _ => g = out .nowhere
  | _, .handle p => g = out (if p = 0 then .nowhere else .listed p)
  | _, _ => False

abbrev Placed {α : Type} (Q : Whereabouts → α → Prop) (g : Whereabouts) (x : ShmM α) : Prop :=
  x.Safe allows moves Q g

section
variable {α : Type} {Q : Whereabouts → α → Prop} {g : Whereabouts}

theorem placed_request {o : Request} {f : o.Reply → ShmM α} (ho : allows g o)
    (hf : ∀ r g', moves g o r g' → Placed Q g' (f r)) : Placed Q g (request o >>= f) := ⟨ho, hf⟩

theorem placed_pure {a : α} (h : Q g a) : Placed Q g (pure a) := h

/-- A request that may be made anywhere and leads nowhere else. -/
theorem placed_skip {o : Request} {f : o.Reply → ShmM α} (ho : allows g o)
    (hn : ∀ r g', moves g o r g' → g' = g) (hf : ∀ r, Placed Q g (f r)) :
    Placed Q g (request o >>= f) := by
  refine placed_request ho ?_
  intro r g' hg
  rw [hn r g' hg]
  exact hf r

theorem placed_ite {d : Prop} [Decidable d] {x y : ShmM α} (hx : d → Placed Q g x)
    (hy : ¬ d → Placed Q g y) : Placed Q g (if d then x else y) := by
  by_cases hd : d
  · rw [if_pos hd]
    exact hx hd
  · rw [if_neg hd]
    exact hy hd

end

/-- The handle that a call returns, and where it is then. -/
abbrev Returned (g : Whereabouts) (p : Addr) : Prop :=
  g = out (if p = 0 then .nowhere else .listed p)

theorem cleanUp_placed : Placed Returned (out (.fresh p)) (cleanUp p sm) := by
  have hfree : Placed Returned (out (.fresh p)) (request (.free p) >>= fun _ => pure 0) :=
    placed_request rfl fun _ _ hg => placed_pure hg
  have hclose : Placed Returned (out (.fresh p)) (do
      (if sm.file ≠ none then do
        request (.close sm.file)
        request (.shmUnlink sm.name)
      else pure () : ShmM Unit)
      request (.free p)
      pure 0) := by
    by_cases hfile : sm.file ≠ none
    · rw [if_pos hfile]
      exact placed_skip trivial (fun _ _ h => h) fun _ =>
        placed_skip trivial (fun _ _ h => h) fun _ => hfree
    · rw [if_neg hfile]
      exact hfree
  unfold cleanUp
  by_cases hptr : sm.ptr ≠ none
  · rw [if_pos hptr]
    exact placed_skip trivial (fun _ _ h => h) fun _ => hclose
  · rw [if_neg hptr]
    exact hclose

theorem register_placed (hp : p ≠ 0) : Placed Returned (out (.fresh p)) (register p sm) := by
  unfold register
  refine placed_skip rfl (fun _ _ h => h) fun _ => ?_
  refine placed_request rfl ?_
  intro _ g hg
  subst hg
  refine placed_request rfl ?_
  intro r g hg
  subst hg
  cases r with
  | true =>
    refine placed_request rfl ?_
    intro _ g hg
    subst hg
    refine placed_pure ?_
    rw [Returned, if_neg hp]
    rfl
  | false =>
    refine placed_request rfl ?_
    intro _ g hg
    subst hg
    exact cleanUp_placed

theorem create_placed {name : Option CStr} {size : UInt32} :
    Placed Returned (out .nowhere) (skyShareMemoryCreate nameMax name size) := by
  unfold skyShareMemoryCreate
  cases name with
  | none => exact placed_skip trivial (fun _ _ h => h) fun _ => placed_pure rfl
  | some name =>
    refine placed_ite (fun _ => ?_) fun _ => ?_
    · exact placed_skip trivial (fun _ _ h => h) fun _ => placed_pure rfl
    refine placed_request rfl ?_
    intro p g hg
    subst hg
    by_cases hp : p = 0
    · rw [if_pos hp, if_pos hp]
      exact placed_pure rfl
    rw [if_neg hp, if_neg hp]
    refine placed_skip trivial (fun _ _ h => h) fun printed => ?_
    refine placed_ite (fun _ => cleanUp_placed) fun _ => ?_
    refine placed_skip trivial (fun _ _ h => h) fun file => ?_
    cases file with
    | none => exact cleanUp_placed
    | some fd =>
      refine placed_skip trivial (fun _ _ h => h) fun sized => ?_
      refine placed_ite (fun _ => ?_) fun _ => cleanUp_placed
      refine placed_skip trivial (fun _ _ h => h) fun ptr => ?_
      exact placed_ite (fun _ => cleanUp_placed) fun _ => register_placed hp

theorem open_placed {name : Option CStr} :
    Placed Returned (out .nowhere) (skyShareMemoryOpen nameMax name) := by
  unfold skyShareMemoryOpen
  cases name with
  | none => exact placed_pure rfl
  | some name =>
    refine placed_ite (fun _ => ?_) fun _ => ?_
    · exact placed_skip trivial (fun _ _ h => h) fun _ => placed_pure rfl
    refine placed_request rfl ?_
    intro p g hg
    subst hg
    by_cases hp : p = 0
    · rw [if_pos hp, if_pos hp]
      exact placed_pure rfl
    rw [if_neg hp, if_neg hp]
    refine placed_skip trivial (fun _ _ h => h) fun printed => ?_
    refine placed_ite (fun _ => cleanUp_placed) fun _ => ?_
    refine placed_skip trivial (fun _ _ h => h) fun file => ?_
    cases file with
    | none => exact cleanUp_placed
    | some fd =>
      refine placed_skip trivial (fun _ _ h => h) fun stSize => ?_
      cases stSize with
      | none => exact cleanUp_placed
      | some stSize =>
        refine placed_skip trivial (fun _ _ h => h) fun ptr => ?_
        exact placed_ite (fun _ => cleanUp_placed) fun _ => register_placed hp

theorem destroy_placed : Placed (fun g _ => g = out .nowhere) (firstPlace (.destroy p))
    (skyShareMemoryDestroy p) := by
  unfold skyShareMemoryDestroy firstPlace
  refine placed_skip trivial (fun _ _ h => h) fun _ => ?_
  refine placed_request rfl ?_
  intro _ g hg
  subst hg
  refine placed_request rfl ?_
  intro r g hg
  subst hg
  refine placed_request rfl ?_
  intro _ g hg
  subst hg
  by_cases hr : r = 0
  · rw [if_pos hr, if_pos hr]
    exact placed_pure rfl
  rw [if_neg hr, if_neg hr]
  refine placed_skip rfl (fun _ _ h => h) fun sm => ?_
  refine placed_skip trivial (fun _ _ h => h) fun _ => ?_
  refine placed_skip trivial (fun _ _ h => h) fun _ => ?_
  have hfree : Placed (fun g _ => g = out .nowhere) (out (.fresh r))
      (request (.free r) >>= fun _ => pure true) :=
    placed_request rfl fun _ _ hg => placed_pure hg
  by_cases hc : sm.isCreator = true
  · rw [if_pos hc]
    exact placed_skip trivial (fun _ _ h => h) fun _ => hfree
  · rw [if_neg hc]
    exact hfree

theorem call_placed (c : Call) : Placed (lastPlace c) (firstPlace c) (call nameMax c) := by
  cases c with
  | create name size => exact Proc.Safe.bind (fun _ _ h => h) create_placed
  | «open» name => exact Proc.Safe.bind (fun _ _ h => h) open_placed
  | destroy p => exact Proc.Safe.bind (fun _ _ h => h) destroy_placed

end Sky.Shm
