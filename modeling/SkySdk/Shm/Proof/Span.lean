import SkySdk.Shm.Defs

/-!
# How much of an object a call has seen

How far a call of `sky_ipc_shm.c` has come, by what it knows of the size of the object it has opened
(`Span`). A `create` sets the size of the object it has made, once, and an `open` asks for it; both
map that much. The programs keep to it (`call_safe`), whatever they are called with.
-/

set_option autoImplicit false

namespace Sky.Shm.Extent

open Base

variable {nameMax : Nat} {p : Addr} {sm : SkyHandleShareMem}

inductive Span
  | idle
  /-- A block that is not on the registry. -/
  | block (p : Addr)
  /-- The block, and the descriptor of an object whose size the call is to set. -/
  | empty (p : Addr) (fd : Nat)
  /-- The block, and a descriptor whose object has this size, or 0. -/
  | sized (p : Addr) (fd size : Nat)
  | mapped (p : Addr) (fd size : Nat)
  /-- The block with its struct in it. -/
  | stored (p : Addr) (sm : SkyHandleShareMem)

/-- The call has the block, and no size to set. -/
def Span.Has (g : Span) (p : Addr) : Prop := g = .block p ∨ ∃ sm, g = .stored p sm

/-- The call is not to set a size. -/
def Span.SetsNone (g : Span) : Prop := ∀ p fd, g ≠ .empty p fd

theorem idle_setsNone : Span.idle.SetsNone := by
  intro p fd h
  cases h

theorem block_setsNone : (Span.block p).SetsNone := by
  intro q fd h
  cases h

theorem sized_setsNone {fd size : Nat} : (Span.sized p fd size).SetsNone := by
  intro q fd h
  cases h

theorem mapped_setsNone {fd size : Nat} : (Span.mapped p fd size).SetsNone := by
  intro q fd h
  cases h

theorem stored_setsNone : (Span.stored p sm).SetsNone := by
  intro q fd h
  cases h

/-- The requests of a call that has come so far. -/
def may (g : Span) : Request → Prop
  | .free p => g.Has p
  | .store p sm => ∃ fd, g = .mapped p fd sm.size.toNat ∧ sm.file = some fd ∧ sm.ptr ≠ none
  | .shmOpen _ true => ∃ p, g = .block p
  | .ftruncate fd _ => ∃ p, g = .empty p fd
  | .fstat _ => ∃ p, g = .block p
  | .mmap length fd => ∃ p, g = .sized p fd length
  | .pushBack p => ∃ sm, g = .stored p sm
  | _ => True

/-- How far it has come after a reply. -/
def next (g : Span) : (o : Request) → o.Reply → Span → Prop
  | .alloc, p => fun g' => g' = if p = 0 then .idle else .block p
  | .free _, _ => fun g' => g' = .idle
  | .store p sm, _ => fun g' => g' = .stored p sm
  | .shmOpen _ true, some fd => fun g' => ∃ p, g = .block p ∧ g' = .empty p fd
  | .ftruncate fd size, r => fun g' =>
      ∃ p, g = .empty p fd ∧ g' = if r then .sized p fd size.toNat else .block p
  | .fstat fd, some size => fun g' =>
      size < 2 ^ 32 ∧ ∃ p, g = .block p ∧ g' = .sized p fd size
  | .mmap length fd, r => fun g' =>
      ∃ p, g = .sized p fd length ∧ g' = if r = none then .block p else .mapped p fd length
  | .pushBack p, r => fun g' => ∃ sm, g = .stored p sm ∧ g' = if r then .idle else g
  | .remove _, p => fun g' => g' = if p = 0 then .idle else .block p
  | _, _ => fun g' => g' = g

/-! ## The programs -/

abbrev SafeFrom {α : Type} (g : Span) (x : ShmM α) : Prop := x.Safe may next (fun _ _ => True) g

section
variable {α : Type} {g : Span}

theorem safe_request {o : Request} {f : o.Reply → ShmM α} (ho : may g o)
    (hf : ∀ r g', next g o r g' → SafeFrom g' (f r)) : SafeFrom g (request o >>= f) := ⟨ho, hf⟩

theorem safe_pure {a : α} : SafeFrom g (pure a : ShmM α) := trivial

theorem safe_skip {o : Request} {f : o.Reply → ShmM α} (ho : may g o)
    (hn : ∀ r g', next g o r g' → g' = g) (hf : ∀ r, SafeFrom g (f r)) :
    SafeFrom g (request o >>= f) := by
  refine safe_request ho ?_
  intro r g' hg
  rw [hn r g' hg]
  exact hf r

theorem safe_alloc {f : Addr → ShmM α} (hnull : SafeFrom .idle (f 0))
    (hf : ∀ p, p ≠ 0 → SafeFrom (.block p) (f p)) : SafeFrom .idle (request .alloc >>= f) := by
  refine safe_request trivial ?_
  intro p g' (hg' : g' = if p = 0 then .idle else .block p)
  by_cases hp : p = 0
  · rw [hg', if_pos hp, hp]
    exact hnull
  · rw [hg', if_neg hp]
    exact hf p hp

theorem safe_mmap {fd length : Nat} {f : Option Addr → ShmM α}
    (hnone : SafeFrom (.block p) (f none))
    (hsome : ∀ a, SafeFrom (.mapped p fd length) (f (some a))) :
    SafeFrom (.sized p fd length) (request (.mmap length fd) >>= f) := by
  refine safe_request ⟨p, rfl⟩ ?_
  intro ptr g' hg'
  obtain ⟨q, hq, rfl⟩ := hg'
  cases hq
  cases ptr with
  | none => exact hnone
  | some a => exact hsome a

theorem free_safe (hp : g.Has p) {a : α} :
    SafeFrom g (request (.free p) >>= fun _ => pure a) := by
  refine safe_request hp ?_
  intro _ g' _
  exact safe_pure

theorem cleanUp_safe (hp : g.Has p) : SafeFrom g (cleanUp p sm) := by
  have hfile : SafeFrom g
      ((if sm.file ≠ none then (do request (.close sm.file); request (.shmUnlink sm.name))
        else pure () : ShmM Unit) >>= fun _ => request (.free p) >>= fun _ => pure (0 : Addr)) := by
    by_cases hfile : sm.file ≠ none
    · rw [if_pos hfile]
      refine safe_skip trivial (fun _ _ h => h) ?_
      intro _
      refine safe_skip trivial (fun _ _ h => h) ?_
      intro _
      exact free_safe hp
    · rw [if_neg hfile]
      exact free_safe hp
  unfold cleanUp
  by_cases hptr : sm.ptr ≠ none
  · rw [if_pos hptr]
    refine safe_skip trivial (fun _ _ h => h) ?_
    intro _
    exact hfile
  · rw [if_neg hptr]
    exact hfile

/-- What is put on the registry has been mapped with the size it says. -/
theorem register_safe {fd size : Nat} (hsize : sm.size.toNat = size) (hfile : sm.file = some fd)
    (hptr : sm.ptr ≠ none) : SafeFrom (.mapped p fd size) (register p sm) := by
  unfold register
  subst hsize
  refine safe_request ⟨fd, rfl, hfile, hptr⟩ ?_
  intro _ g1 hg1
  subst hg1
  refine safe_skip trivial (fun _ _ h => h) ?_
  intro _
  refine safe_request ⟨sm, rfl⟩ ?_
  intro r g2 hg2
  obtain ⟨sm', hg, rfl⟩ := hg2
  cases r with
  | true =>
    refine safe_skip trivial (fun _ _ h => h) ?_
    intro _
    exact safe_pure
  | false =>
    refine safe_skip trivial (fun _ _ h => h) ?_
    intro _
    exact cleanUp_safe (.inr ⟨sm, rfl⟩)

end

theorem create_safe {name : Option CStr} {size : UInt32} :
    SafeFrom .idle (skyShareMemoryCreate nameMax name size) := by
  cases name with
  | none => exact safe_skip trivial (fun _ _ h => h) fun _ => safe_pure
  | some name =>
    unfold skyShareMemoryCreate
    dsimp only
    split
    · exact safe_skip trivial (fun _ _ h => h) fun _ => safe_pure
    refine safe_alloc ?_ ?_
    · rw [if_pos rfl]
      exact safe_pure
    intro p hp
    rw [if_neg hp]
    refine safe_skip trivial (fun _ _ h => h) ?_
    intro printed
    split
    · exact cleanUp_safe (.inl rfl)
    refine safe_request ⟨p, rfl⟩ ?_
    intro file g2 hg2
    cases file with
    | none =>
      subst hg2
      exact cleanUp_safe (.inl rfl)
    | some fd =>
      obtain ⟨q, hq, rfl⟩ := hg2
      cases hq
      refine safe_request ⟨p, rfl⟩ ?_
      intro sized g3 hg3
      obtain ⟨q, hq, rfl⟩ := hg3
      cases hq
      cases sized with
      | false => exact cleanUp_safe (.inl rfl)
      | true =>
        refine safe_mmap ?_ ?_
        · rw [if_pos rfl]
          exact cleanUp_safe (.inl rfl)
        · intro a
          rw [if_neg (Option.some_ne_none a)]
          exact register_safe rfl rfl (Option.some_ne_none a)

theorem open_safe {name : Option CStr} : SafeFrom .idle (skyShareMemoryOpen nameMax name) := by
  cases name with
  | none => exact safe_pure
  | some name =>
    unfold skyShareMemoryOpen
    dsimp only
    split
    · exact safe_skip trivial (fun _ _ h => h) fun _ => safe_pure
    refine safe_alloc ?_ ?_
    · rw [if_pos rfl]
      exact safe_pure
    intro p hp
    rw [if_neg hp]
    refine safe_skip trivial (fun _ _ h => h) ?_
    intro printed
    split
    · exact cleanUp_safe (.inl rfl)
    refine safe_skip trivial (fun _ _ h => h) ?_
    intro file
    cases file with
    | none => exact cleanUp_safe (.inl rfl)
    | some fd =>
      refine safe_request ⟨p, rfl⟩ ?_
      intro stSize g2 hg2
      cases stSize with
      | none =>
        subst hg2
        exact cleanUp_safe (.inl rfl)
      | some stSize =>
        obtain ⟨hsize, q, hq, rfl⟩ := hg2
        cases hq
        refine safe_mmap ?_ ?_
        · rw [if_pos rfl]
          exact cleanUp_safe (.inl rfl)
        · intro a
          rw [if_neg (Option.some_ne_none a)]
          exact register_safe (UInt32.toNat_ofNat_of_lt' hsize) rfl (Option.some_ne_none a)

theorem destroy_safe : SafeFrom .idle (skyShareMemoryDestroy p) := by
  unfold skyShareMemoryDestroy
  refine safe_skip trivial (fun _ _ h => h) ?_
  intro _
  refine safe_skip trivial (fun _ _ h => h) ?_
  intro _
  refine safe_request trivial ?_
  intro q g1 (hg1 : g1 = if q = 0 then .idle else .block q)
  subst hg1
  refine safe_skip trivial (fun _ _ h => h) ?_
  intro _
  by_cases hq : q = 0
  · rw [if_pos hq, if_pos hq]
    exact safe_pure
  rw [if_neg hq, if_neg hq]
  refine safe_skip trivial (fun _ _ h => h) ?_
  intro sm
  refine safe_skip trivial (fun _ _ h => h) ?_
  intro _
  refine safe_skip trivial (fun _ _ h => h) ?_
  intro _
  by_cases hc : sm.isCreator = true
  · rw [if_pos hc]
    refine safe_skip trivial (fun _ _ h => h) ?_
    intro _
    exact free_safe (.inl rfl)
  · rw [if_neg hc]
    exact free_safe (.inl rfl)

theorem call_safe (c : Call) : SafeFrom .idle (call nameMax c) := by
  cases c with
  | create name size => exact create_safe.bind fun _ _ _ => safe_pure
  | «open» name => exact open_safe.bind fun _ _ _ => safe_pure
  | destroy p => exact destroy_safe.bind fun _ _ _ => safe_pure

end Sky.Shm.Extent
