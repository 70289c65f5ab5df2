import SkySdk.Shm.Proof.Resources
import SkySdk.Shm.Proof.Stages

/-!
# The calls in one process

What each call of `sky_ipc_shm.c` does to the registry and to what the process has. A `create` or
`open` registers one more handle, with its block, mapping and descriptor, or releases all that it
has taken (`Leaves`). A `destroy` of a registered handle releases what it holds, and one of another
value finds nothing. `EndsOrAborts`: or an assertion stops the call.
-/

set_option autoImplicit false

namespace Sky.Shm

open Base

variable {E : Env} {b : Build} {s : Process} {p : Addr} {sm sm0 : SkyHandleShareMem}
  {ys : List Addr} {l : Addr} {G : Ledger LinkedList.Block} {fit : Prop} {R : Resources}
  {name : CStr} {size : UInt32} {nameMax : Nat} {created : Bool}

/-- The struct of a handle: who made the object, its name, a descriptor and a mapping. -/
structure Backed (x : Handle) (sm : SkyHandleShareMem) : Prop where
  handleType : sm.handleType = SkyHandleType.shareMemory.code
  isCreator : sm.isCreator = x.created
  name : sm.name = formatted nameSize shareMemNamePattern x.name
  file : sm.file ≠ none
  ptr : sm.ptr ≠ none
  size : sm.size ≠ 0

/-! ## The clean-up -/

/-- The clean-up releases the block, and what `sm` holds. -/
theorem cleanUp_ends
    (h : At G l fit s ((cell p sm0, mapOf sm.ptr sm.size, fileOf sm.file) + R) ys) :
    EndsIn E b (cleanUp p sm) s fun r s' => r = 0 ∧ At G l fit s' R ys := by
  unfold cleanUp
  have hunmap : EndsIn E b
      (if sm.ptr ≠ none then request (.munmap sm.ptr sm.size) else pure ()) s
      fun _ s' => At G l fit s' ((cell p sm0, 0, fileOf sm.file) + R) ys := by
    by_cases hptr : sm.ptr = none
    · rw [if_neg (not_not.2 hptr)]
      rw [hptr] at h
      exact pure_ends h
    · rw [if_pos hptr]
      refine (last_ends (munmap_ends h)).mono ?_
      intro _ s' h'
      exact h'.2
  refine bind_ends hunmap ?_
  intro _ s1 h1
  have hclose : EndsIn E b
      (if sm.file ≠ none then do
        request (.close sm.file)
        request (.shmUnlink sm.name)
      else pure ()) s1 fun _ s' => At G l fit s' ((cell p sm0, 0, 0) + R) ys := by
    by_cases hfile : sm.file = none
    · rw [if_neg (not_not.2 hfile)]
      rw [hfile] at h1
      exact pure_ends h1
    · rw [if_pos hfile]
      refine request_ends (close_ends h1) ?_
      intro _ s2 h2
      refine (last_ends (shmUnlink_ends h2.2)).mono ?_
      intro _ s' h'
      exact h'.2
  refine bind_ends hclose ?_
  intro _ s2 h2
  refine request_ends (free_ends h2) ?_
  intro _ s3 h3
  refine pure_ends ⟨rfl, ?_⟩
  have h4 : At G l fit s3 (0 + R) ys := h3.2
  rwa [zero_add] at h4

/-! ## Handles -/

/-- What a `create` or `open` leaves: nothing, when something has been refused or `wanted` fails, or
one more handle. -/
def Leaves (E : Env) (G : Ledger LinkedList.Block) (l : Addr) (fit : Prop) (R : Resources)
    (ys : List Addr) (wanted : Prop) (created : Bool) (name : CStr) (r : Addr) (s' : Process) :
    Prop :=
  r = 0 ∧ ¬ (E.Willing ∧ ys.length < maxShareMemCount ∧ wanted) ∧ At G l fit s' R ys ∨
    r ≠ 0 ∧ ys.length < maxShareMemCount ∧
      ∃ sm, Backed ⟨r, created, name⟩ sm ∧ At G l fit s' (heldBy r sm + R) (ys ++ [r])

section
variable {wanted : Prop}

theorem cleanUp_leaves
    (h : At G l fit s ((cell p sm0, mapOf sm.ptr sm.size, fileOf sm.file) + R) ys)
    (hw : ¬ (E.Willing ∧ ys.length < maxShareMemCount ∧ wanted)) :
    EndsIn E b (cleanUp p sm) s (Leaves E G l fit R ys wanted created name) := by
  refine (cleanUp_ends h).mono ?_
  intro r s' h'
  exact .inl ⟨h'.1, hw, h'.2⟩

theorem register_ends
    (h : At G l fit s ((cell p sm0, mapOf sm.ptr sm.size, fileOf sm.file) + R) ys)
    (hsm : Backed ⟨p, created, name⟩ sm) :
    EndsIn E b (register p sm) s (Leaves E G l fit R ys wanted created name) := by
  unfold register
  refine request_ends (store_ends h) ?_
  intro _ s1 h1
  refine request_ends enter_ends ?_
  rintro _ s1 rfl
  refine request_ends (pushBack_ends h1) ?_
  intro r s2 h2
  rcases h2 with ⟨rfl, hlt, h2⟩ | ⟨rfl, hfull, h2⟩
  · rw [if_pos rfl]
    refine request_ends leave_ends ?_
    rintro _ s2 rfl
    refine pure_ends (.inr ⟨?_, hlt, sm, hsm, h2⟩)
    have h3 : At G l fit s2 (heldBy p sm + R) (ys ++ [p]) := h2
    exact h3.ne_zero
  · rw [if_neg (by simp)]
    refine request_ends leave_ends ?_
    rintro _ s2 rfl
    exact cleanUp_leaves h2 fun hc => hfull ⟨hc.1, hc.2.1⟩

/-- The struct of a call that has made its name and opened `file`. -/
def opened (name : CStr) (file : Option Nat) : SkyHandleShareMem :=
  { zeroShareMem with
    cb := 152, handleType := SkyHandleType.shareMemory.code, file := file
    name := formatted nameSize shareMemNamePattern name }

/-- The end of `create` and `open`: the mapping. -/
theorem mapped_ends {length fd : Nat} (hs : size.toNat = length)
    (hw : E.Willing → wanted → length ≠ 0)
    (h : At G l fit s ((cell p zeroShareMem, 0, fileOf (some fd)) + R) ys) :
    EndsIn E b (do
        let ptr ← request (.mmap length fd)
        let sm := { opened name (some fd) with ptr := ptr }
        if ptr = none then cleanUp p sm
        else register p { sm with size := size, isCreator := created } : ShmM Addr) s
      (Leaves E G l fit R ys wanted created name) := by
  refine request_ends (mmap_ends hs h) ?_
  intro ptr s1 h1
  obtain ⟨hrefused, hsize, h1⟩ := h1
  by_cases hptr : ptr = none
  · rw [if_pos hptr]
    subst hptr
    exact cleanUp_leaves h1 fun hc => hrefused rfl (hw hc.1 hc.2.2) hc.1
  · rw [if_neg hptr]
    refine register_ends h1 ⟨rfl, rfl, rfl, ?_, hptr, hsize hptr⟩
    exact Option.some_ne_none fd

/-- The beginning of `create` and `open`: the block and the name. -/
theorem named_ends {k : Addr → Int × List UInt8 → ShmM Addr} (h : At G l fit s R ys)
    (hfit : fit → name.length < intMax) (hw : wanted → name.length < intMax)
    (hk : ∀ p n s', At G l fit s' ((cell p zeroShareMem, 0, 0) + R) ys →
      EndsIn E b (k p (n, formatted nameSize shareMemNamePattern name)) s'
        (Leaves E G l fit R ys wanted created name)) :
    EndsIn E b (do
      let p ← request .alloc
      if p = 0 then pure 0
      else do
        let printed ← request (.print nameSize shareMemNamePattern name)
        if printed.1 ≤ 0 then
          cleanUp p { zeroShareMem with
            cb := 152, handleType := SkyHandleType.shareMemory.code, name := printed.2 }
        else k p printed) s (Leaves E G l fit R ys wanted created name) := by
  refine request_ends (alloc_ends h) ?_
  intro p s1 h1
  rcases h1 with ⟨rfl, hrefused, h1⟩ | ⟨hp, h1⟩
  · rw [if_pos rfl]
    exact pure_ends (.inl ⟨rfl, fun hc => hrefused hc.1, h1⟩)
  rw [if_neg hp]
  refine request_ends print_ends ?_
  intro printed s2 h2
  obtain ⟨hs2, left, rfl⟩ := h2
  rw [← hs2] at h1
  by_cases hpos : (skyStrPrintf nameSize shareMemNamePattern name left).1 ≤ 0
  · -- the name does not fit: descriptor 0 is closed
    have hlong : ¬ name.length < intMax := by
      intro hc
      rw [print_fits hc] at hpos
      omega
    rw [if_pos hpos]
    exact cleanUp_leaves (h1.unfit fun hc => hlong (hfit hc)) fun hc => hlong (hw hc.2.2)
  · rw [if_neg hpos]
    have hprinted := skyStrPrintf_pos (Int.not_le.1 hpos)
    generalize skyStrPrintf nameSize shareMemNamePattern name left = printed at hprinted ⊢
    obtain ⟨n, text⟩ := printed
    cases hprinted
    exact hk p n s2 h1

end

/-- A `create` wants a name that can be formatted, and a size. -/
theorem create_ends (h : At G l fit s R ys) (hlen : (skyStrLen name).toNat ≤ nameMax - 1)
    (hfit : fit → name.length < intMax) :
    EndsIn E b (skyShareMemoryCreate nameMax (some name) size) s
      (Leaves E G l fit R ys (name.length < intMax ∧ size ≠ 0) true name) := by
  unfold skyShareMemoryCreate
  dsimp only
  rw [if_neg (Nat.not_lt.2 hlen)]
  refine named_ends h hfit (fun hc => hc.1) ?_
  intro p n s1 h1
  refine request_ends (shmOpen_ends h1) ?_
  intro file s2 h2
  obtain ⟨hrefused, h2⟩ := h2
  cases file with
  | none => exact cleanUp_leaves h2 fun hc => hrefused rfl hc.1
  | some fd =>
    refine request_ends (ftruncate_ends h2) ?_
    intro sized s3 h3
    obtain ⟨hrefused, h3⟩ := h3
    cases sized with
    | false =>
      rw [if_neg (by simp)]
      exact cleanUp_leaves h3 fun hc => hrefused rfl hc.1
    | true =>
      rw [if_pos rfl]
      refine mapped_ends rfl ?_ h3
      intro _ hc hz
      exact hc.2 (UInt32.toNat_inj.1 hz)

theorem open_ends (h : At G l fit s R ys) (hlen : (skyStrLen name).toNat ≤ nameMax - 1)
    (hfit : fit → name.length < intMax) :
    EndsIn E b (skyShareMemoryOpen nameMax (some name)) s
      (Leaves E G l fit R ys (name.length < intMax) false name) := by
  unfold skyShareMemoryOpen
  dsimp only
  rw [if_neg (Nat.not_lt.2 hlen)]
  refine named_ends h hfit id ?_
  intro p n s1 h1
  refine request_ends (shmOpen_ends h1) ?_
  intro file s2 h2
  obtain ⟨hrefused, h2⟩ := h2
  cases file with
  | none => exact cleanUp_leaves h2 fun hc => hrefused rfl hc.1
  | some fd =>
    refine request_ends (fstat_ends h2) ?_
    intro stSize s3 h3
    obtain ⟨hlt, hrefused, h3⟩ := h3
    cases stSize with
    | none => exact cleanUp_leaves h3 fun hc => hrefused (.inl rfl) hc.1
    | some stSize =>
      refine mapped_ends (UInt32.toNat_ofNat_of_lt' (hlt stSize rfl)) ?_ h3
      intro hE _ hz
      exact hrefused (.inr (congrArg some hz)) hE

/-! ## Destroy -/

/-- The system calls that release a handle. -/
def releases (sm : SkyHandleShareMem) : List SysCall :=
  [.munmap sm.ptr sm.size, .close sm.file] ++
    if sm.isCreator then [.shmUnlink sm.name] else []

/-- The last system call of a `destroy`. -/
theorem unlink_ends (h : At G l fit s R ys) :
    EndsIn E b (if sm.isCreator then request (.shmUnlink sm.name) else pure ()) s fun _ s' =>
      s'.log = s.log ++ (if sm.isCreator then [.shmUnlink sm.name] else []) ∧
        At G l fit s' R ys := by
  by_cases hc : sm.isCreator = true
  · rw [if_pos hc, if_pos hc]
    exact last_ends (shmUnlink_ends h)
  · rw [if_neg hc, if_neg hc, List.append_nil]
    exact pure_ends ⟨rfl, h⟩

theorem destroy_ends (h : At G l fit s (heldBy p sm + R) ys) (hp : p ∈ ys)
    (ht : sm.handleType = SkyHandleType.shareMemory.code) :
    EndsIn E b (skyShareMemoryDestroy p) s fun r s' =>
      r = true ∧ s'.log = s.log ++ releases sm ∧ At G l fit s' R (ys.erase p) := by
  have hz : p ≠ 0 := h.ne_zero
  unfold skyShareMemoryDestroy
  refine request_ends (validate_ends h ht) ?_
  rintro _ s rfl
  refine request_ends enter_ends ?_
  rintro _ s rfl
  refine request_ends (remove_ends h hp) ?_
  intro r s1 h1
  obtain ⟨hr, hlog1, h1⟩ := h1
  refine request_ends leave_ends ?_
  rintro _ s2 rfl
  rw [hr, if_neg hz]
  refine request_ends (load_ends h1) ?_
  rintro _ s3 ⟨rfl, rfl⟩
  refine request_ends (munmap_ends h1) ?_
  intro _ s4 h4
  obtain ⟨hlog4, h4⟩ := h4
  refine request_ends (close_ends h4) ?_
  intro _ s5 h5
  obtain ⟨hlog5, h5⟩ := h5
  refine bind_ends (unlink_ends h5) ?_
  intro _ s6 h6
  obtain ⟨hlog6, h6⟩ := h6
  refine request_ends (free_ends h6) ?_
  intro _ s7 h7
  obtain ⟨hlog7, h7⟩ := h7
  refine pure_ends ⟨rfl, ?_, ?_⟩
  · rw [hlog7, hlog6, hlog5, hlog4, hlog1, releases]
    simp only [List.append_assoc]
    rfl
  · have h8 : At G l fit s7 (0 + R) (ys.erase p) := h7
    rwa [zero_add] at h8

/-! ## Assertions -/

/-- `x` ends with `Q`, or an assertion stops it. -/
def EndsOrAborts {α : Type} (E : Env) (b : Build) (x : ShmM α) (s : Process)
    (Q : α → Process → Prop) : Prop :=
  EndsIn E b x s Q ∨ b.assertAborts = true ∧ ∃ e, x.run (handle E b) s = .error e

section
variable {α β : Type} {Q : α → Process → Prop}

/-- A request that is an assertion. -/
theorem asserted_ends {o : Request} {f : o.Reply → ShmM α}
    (ho : (∃ r, handle E b o s = .ok (r, s)) ∨
      b.assertAborts = true ∧ ∃ e, handle E b o s = .error e)
    (k : ∀ r, EndsIn E b (f r) s Q) : EndsOrAborts E b (request o >>= f) s Q := by
  rcases ho with ⟨r, hr⟩ | ⟨hb, e, he⟩
  · refine .inl (request_ends (P := fun _ s' => s' = s) ((ends_of_eq hr).2 rfl) ?_)
    rintro r' _ rfl
    exact k r'
  · refine .inr ⟨hb, e, ?_⟩
    change (handle E b o >>= fun r => (f r).run (handle E b)) s = .error e
    rw [bind_apply, he]

theorem EndsOrAborts.bind {P : β → Process → Prop} {x : ShmM β} {f : β → ShmM α}
    (h : EndsOrAborts E b x s P) (k : ∀ a s', P a s' → EndsIn E b (f a) s' Q) :
    EndsOrAborts E b (x >>= f) s Q := by
  rcases h with h | ⟨hb, e, he⟩
  · exact .inl (bind_ends h k)
  · refine .inr ⟨hb, e, ?_⟩
    rw [Proc.run_bind, bind_apply, he]

end

theorem validate_cases : (∃ r, handle E b (.validate p) s = .ok (r, s)) ∨
    b.assertAborts = true ∧ ∃ e, handle E b (.validate p) s = .error e := by
  have hload : Returns (onBlocks (load p)) s fun _ s' => s' = s := by
    refine returns_zoom ?_
    intro sm h' hx
    rw [returns_load sm h' hx]
  refine (skyAssert_cases ?_).imp_left fun h => ⟨(), h⟩
  by_cases hp : p = 0
  · rw [if_pos hp]
    intro ok s' hx
    cases hx
    rfl
  · rw [if_neg hp]
    refine hload.bind ?_
    intro sm s' hs ok s'' hx
    cases hx
    exact hs

theorem assertFalse_cases : (∃ r, handle E b .assertFalse s = .ok (r, s)) ∨
    b.assertAborts = true ∧ ∃ e, handle E b .assertFalse s = .error e :=
  (skyAssert_cases fun _ _ hx => by cases hx; rfl).imp_left fun h => ⟨(), h⟩

theorem destroy_absent (h : At G l fit s R ys) (hp : p ∉ ys) :
    EndsOrAborts E b (skyShareMemoryDestroy p) s fun r s' => r = false ∧ s' = s := by
  unfold skyShareMemoryDestroy
  refine asserted_ends validate_cases ?_
  intro _
  refine request_ends enter_ends ?_
  rintro _ s rfl
  refine request_ends (remove_absent h hp) ?_
  rintro _ s ⟨rfl, rfl⟩
  refine request_ends leave_ends ?_
  rintro _ s rfl
  rw [if_pos rfl]
  exact pure_ends ⟨rfl, rfl⟩

theorem create_refused {n : Option CStr}
    (hn : ∀ name, n = some name → nameMax - 1 < (skyStrLen name).toNat) :
    EndsOrAborts E b (skyShareMemoryCreate nameMax n size) s fun r s' => r = 0 ∧ s' = s := by
  unfold skyShareMemoryCreate
  cases n with
  | none =>
    refine asserted_ends assertFalse_cases ?_
    intro _
    exact pure_ends ⟨rfl, rfl⟩
  | some name =>
    dsimp only
    rw [if_pos (hn name rfl)]
    refine asserted_ends assertFalse_cases ?_
    intro _
    exact pure_ends ⟨rfl, rfl⟩

theorem open_refused (hlen : nameMax - 1 < (skyStrLen name).toNat) :
    EndsOrAborts E b (skyShareMemoryOpen nameMax (some name)) s fun r s' => r = 0 ∧ s' = s := by
  unfold skyShareMemoryOpen
  dsimp only
  rw [if_pos hlen]
  refine asserted_ends assertFalse_cases ?_
  intro _
  exact pure_ends ⟨rfl, rfl⟩

end Sky.Shm
