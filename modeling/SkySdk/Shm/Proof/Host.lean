import SkySdk.Shm.Host
import SkySdk.Shm.Proof.Resources

/-!
# Requests on a host

`Has`: what there is in the course of a call. `Early`: the same before the handle is pushed, with
the number of system calls made so far, so that each answer is known. One rule for each request says
what it adds or takes away; the clean-up takes away what its struct says (`hostCleanUp_ends`).
-/

set_option autoImplicit false

namespace Sky.Shm

open Base

variable {E : Env} {sizes : Nat → Option Nat} {b : Build} {h0 h : Host} {p : Addr}
  {sm sm0 : SkyHandleShareMem} {name : CStr} {size : UInt32} {nameMax k : Nat}
  {B : Ledger SkyHandleShareMem} {M : Multiset (Addr × Nat)} {D : Multiset Nat}
  {N : List UInt8 → Option Nat}

/-- `share_mem_list` is a list, as `sky_share_memory_init` and every call leave it. -/
def Listed (s : Process) : Prop :=
  ∃ G ns ps, LinkedList.Shape s.nodes G s.shareMemList maxCount ns ps

/-- What the process has in the course of a call on `h0`, and the names. -/
structure Has (h0 : Host) (B : Ledger SkyHandleShareMem) (M : Multiset (Addr × Nat))
    (D : Multiset Nat) (N : List UInt8 → Option Nat) (h : Host) : Prop where
  blocks : h.process.blocks.entries = B
  maps : h.process.maps = M
  files : h.process.files = D
  names : h.names = N
  registry : registry h.process = registry h0.process

/-- The same before the handle is pushed: the list is untouched, and `k` system calls were made. -/
structure Early (h0 : Host) (k : Nat) (B : Ledger SkyHandleShareMem) (M : Multiset (Addr × Nat))
    (D : Multiset Nat) (N : List UInt8 → Option Nat) (h : Host) : Prop where
  blocks : h.process.blocks.entries = B
  maps : h.process.maps = M
  files : h.process.files = D
  names : h.names = N
  nodes : h.process.nodes = h0.process.nodes
  list : h.process.shareMemList = h0.process.shareMemList
  calls : h.process.log.length = h0.process.log.length + k

theorem Early.has (h' : Early h0 k B M D N h) : Has h0 B M D N h where
  blocks := h'.blocks
  maps := h'.maps
  files := h'.files
  names := h'.names
  registry := by rw [Shm.registry, h'.nodes, h'.list, ← Shm.registry]

/-! ## Programs -/

abbrev EndsOn {α : Type} (E : Env) (sizes : Nat → Option Nat) (b : Build) (x : ShmM α) (h : Host)
    (Q : α → Host → Prop) : Prop :=
  Ends (x.run (handleHost E sizes b)) h Q

section
variable {α β : Type} {Q : α → Host → Prop}

theorem hostRequest_ends {o : Request} {f : o.Reply → ShmM α} {P : o.Reply → Host → Prop}
    (h' : Ends (handleHost E sizes b o) h P)
    (hk : ∀ r h1, P r h1 → EndsOn E sizes b (f r) h1 Q) :
    EndsOn E sizes b (request o >>= f) h Q := h'.bind hk

theorem hostPure_ends {a : α} (h' : Q a h) : EndsOn E sizes b (pure a) h Q := (ends_pure a).2 h'

theorem hostBind_ends {x : ShmM β} {f : β → ShmM α} {P : β → Host → Prop}
    (h' : EndsOn E sizes b x h P) (hk : ∀ a h1, P a h1 → EndsOn E sizes b (f a) h1 Q) :
    EndsOn E sizes b (x >>= f) h Q := by
  unfold EndsOn
  rw [Proc.run_bind]
  exact h'.bind hk

theorem hostLast_ends {o : Request} {P : o.Reply → Host → Prop}
    (h' : Ends (handleHost E sizes b o) h P) : EndsOn E sizes b (request o) h P :=
  h'.bind fun _ _ hp => (ends_pure _).2 hp

end

/-! ## Requests -/

theorem hostAlloc_ends : Ends (handleHost E sizes b .alloc) h0 fun p h =>
    if E.blocks.grants h0.process.blocks.time = true then
      p ≠ 0 ∧ Early h0 0 (cell p zeroShareMem + h0.process.blocks.entries) h0.process.maps
        h0.process.files h0.names h
    else p = 0 ∧ Has h0 h0.process.blocks.entries h0.process.maps h0.process.files h0.names h := by
  refine ends_zoom.2 (ends_zoom.2 (Ends.malloc ?_ ?_))
  · intro h' hg he _
    rw [if_neg (by simp [hg])]
    exact ⟨rfl, he, rfl, rfl, rfl, rfl⟩
  · intro p h' hg hp he _
    rw [if_pos hg]
    exact ⟨hp, he, rfl, rfl, rfl, rfl, rfl, rfl⟩

theorem hostPrint_ends {n : Nat} {before : List UInt8} (h' : Early h0 k B M D N h) :
    Ends (handleHost E sizes b (.print n before name)) h fun r h1 =>
      r = skyStrPrintf n before name (E.left (h0.process.log.length + k)) ∧ h1 = h := by
  rw [← h'.calls]
  exact (ends_of_eq rfl).2 ⟨rfl, rfl⟩

theorem hostStore_ends (h' : Early h0 k (cell p sm0 + B) M D N h) :
    Ends (handleHost E sizes b (.store p sm)) h fun _ h1 =>
      Early h0 k (cell p sm + B) M D N h1 := by
  refine ends_zoom.2 (ends_zoom.2 (Ends.store h'.blocks ?_))
  intro h1 he _
  exact ⟨he, h'.maps, h'.files, h'.names, h'.nodes, h'.list, h'.calls⟩

theorem hostEnter_ends : Ends (handleHost E sizes b .enter) h fun _ h1 => h1 = h :=
  (ends_of_eq rfl).2 rfl

theorem hostLeave_ends : Ends (handleHost E sizes b .leave) h fun _ h1 => h1 = h :=
  (ends_of_eq rfl).2 rfl

theorem hostFree_ends (h' : Has h0 (cell p sm + B) M D N h) :
    Ends (handleHost E sizes b (.free p)) h fun _ h1 => Has h0 B M D N h1 := by
  refine ends_zoom.2 (ends_zoom.2 (Ends.free h'.blocks ?_))
  intro h1 he _
  exact ⟨he, h'.maps, h'.files, h'.names, h'.registry⟩

/-- A system call that touches neither the list nor the names. -/
theorem hostSysCall_ends {α : Type} {c : SysCall} {answer : Nat → α}
    {effect : α → Process → Process} (h' : Early h0 k B M D N h) {M' : α → Multiset (Addr × Nat)}
    {D' : α → Multiset Nat}
    (heffect : ∀ r s, (effect r s).blocks = s.blocks ∧ (effect r s).nodes = s.nodes ∧
      (effect r s).shareMemList = s.shareMemList ∧
      (s.maps = M → (effect r s).maps = M' r) ∧ (s.files = D → (effect r s).files = D' r)) :
    Ends (onProcess (sysCall c answer effect)) h fun r h1 =>
      r = answer (h0.process.log.length + k) ∧ Early h0 (k + 1) B (M' r) (D' r) N h1 := by
  rw [← h'.calls]
  refine (ends_of_eq rfl).2 ⟨rfl, ?_⟩
  obtain ⟨hb, hn, hl, hm, hf⟩ := heffect (answer h.process.log.length) h.process
  exact ⟨(congrArg Heap.entries hb).trans h'.blocks, hm h'.maps, hf h'.files, h'.names,
    hn.trans h'.nodes, hl.trans h'.list, by simp [h'.calls, Nat.add_assoc]⟩

theorem hostFtruncate_ends {fd : Nat} (h' : Early h0 k B M D N h) :
    Ends (handleHost E sizes b (.ftruncate fd size)) h fun _ h1 => Early h0 (k + 1) B M D N h1 :=
  (hostSysCall_ends h' fun _ _ => ⟨rfl, rfl, rfl, id, id⟩).mono fun _ _ h1 => h1.2

theorem hostFstat_ends {fd : Nat} (h' : Early h0 k B M D N h) :
    Ends (handleHost E sizes b (.fstat fd)) h fun r h1 =>
      r = sizes (h0.process.log.length + k) ∧ Early h0 (k + 1) B M D N h1 :=
  hostSysCall_ends h' fun _ _ => ⟨rfl, rfl, rfl, id, id⟩

/-- A mapping is added. -/
def withMap (length : Nat) (ptr : Option Addr) (M : Multiset (Addr × Nat)) :
    Multiset (Addr × Nat) :=
  match ptr with
  | some a => (a, length) ::ₘ M
  | none => M

theorem hostMmap_ends {length fd : Nat} (h' : Early h0 k B M D N h) :
    Ends (handleHost E sizes b (.mmap length fd)) h fun r h1 =>
      r = (if length = 0 then none else E.mmap (h0.process.log.length + k)) ∧
        Early h0 (k + 1) B (withMap length r M) D N h1 := by
  change Ends (onProcess (sysCall (.mmap length fd)
    (fun t => if length = 0 then none else E.mmap t) (addMap length))) h _
  refine hostSysCall_ends h' fun r s => ?_
  cases r with
  | none => exact ⟨rfl, rfl, rfl, id, id⟩
  | some a => exact ⟨rfl, rfl, rfl, fun hm => congrArg _ hm, id⟩

/-- A name that is bound is not made, one that is not is not opened. -/
theorem hostShmOpen_ends {text : List UInt8} {create : Bool} (h' : Early h0 k B M D N h) :
    Ends (handleHost E sizes b (.shmOpen text create)) h fun r h1 =>
      r = (if create = (N text).isSome then none else E.shmOpen (h0.process.log.length + k)) ∧
        Early h0 (k + 1) B M (fileOf r + D)
          (if create = true ∧ r ≠ none then Function.update N text (some h.objects) else N) h1 := by
  refine (ends_of_eq rfl).2 ⟨?_, ?_⟩
  · rw [h'.names, h'.calls]
  · dsimp only
    generalize (if create = (h.names text).isSome then none
      else E.shmOpen h.process.log.length) = file
    refine { blocks := ?_, maps := ?_, files := ?_, names := ?_, nodes := ?_, list := ?_,
             calls := ?_ }
    · cases file <;> exact h'.blocks
    · cases file <;> exact h'.maps
    · cases file with
      | none => exact h'.files.trans (zero_add D).symm
      | some fd =>
        change fd ::ₘ h.process.files = {fd} + D
        rw [h'.files, Multiset.singleton_add]
    · by_cases hmake : create = true ∧ file ≠ none
      · simp only [if_pos hmake, setName, h'.names]
      · simp only [if_neg hmake, h'.names]
    · cases file <;> exact h'.nodes
    · cases file <;> exact h'.list
    · simp [h'.calls, Nat.add_assoc]

/-- The push succeeds if the registry has room; else it adds nothing. -/
theorem hostPushBack_ends (hlist : Listed h0.process) (h' : Early h0 k B M D N h) :
    Ends (handleHost E sizes b (.pushBack p)) h fun r h1 =>
      r = true ∧ Registers E h0.process ∨
        r = false ∧ ¬ Registers E h0.process ∧ Has h0 B M D N h1 := by
  obtain ⟨G, ns, ps, S⟩ := hlist
  have hreg : registry h0.process = LinkedList.datas ns := S.seqOf_eq
  have hroom : LinkedList.hasRoom E.nodes h0.process.nodes h0.process.shareMemList =
      LinkedList.room E.nodes h0.process.nodes ps := S.hasRoom_eq
  have hpush := LinkedList.skyListPushBack_ends (A := E.nodes) (b := b) S p
  rw [← h'.nodes, ← h'.list] at hpush
  refine ends_zoom.2 ((ends_bind _ _).2 ((ends_of_eq rfl).2 (ends_zoom.2 (hpush.mono ?_))))
  intro r heap hpost
  obtain ⟨ns', ps', S', -, hseq, -⟩ := hpost
  rw [h'.nodes] at hseq
  simp only [LinkedList.seqCall, LinkedList.seqAdd] at hseq
  unfold Registers
  rw [hreg, hroom]
  by_cases hc : (LinkedList.datas ns).length < maxCount.toNat ∧
      LinkedList.room E.nodes h0.process.nodes ps = true
  · rw [if_pos hc] at hseq
    exact .inl ⟨LinkedList.Resp.bool.inj (Prod.mk.inj hseq).1, hc⟩
  · rw [if_neg hc] at hseq
    obtain ⟨hr, hzs⟩ := Prod.mk.inj hseq
    refine .inr ⟨LinkedList.Resp.bool.inj hr, hc, h'.blocks, h'.maps, h'.files, h'.names, ?_⟩
    rw [hreg, ← hzs]
    exact S'.seqOf_eq

/-! ## The clean-up -/

/-- What is mapped after the clean-up. -/
def unmapped (sm : SkyHandleShareMem) (M : Multiset (Addr × Nat)) : Multiset (Addr × Nat) :=
  match sm.ptr with
  | some a => if sm.size = 0 then M else M.erase (a, sm.size.toNat)
  | none => M

/-- What is open after it. -/
def closed (sm : SkyHandleShareMem) (D : Multiset Nat) : Multiset Nat :=
  match sm.file with
  | some fd => D.erase fd
  | none => D

/-- The names after it. -/
def unlinked (sm : SkyHandleShareMem) (N : List UInt8 → Option Nat) : List UInt8 → Option Nat :=
  if sm.file = none then N else Function.update N sm.name none

theorem hostMunmap_ends (h' : Has h0 B M D N h) :
    Ends (handleHost E sizes b (.munmap sm.ptr sm.size)) h fun _ h1 =>
      Has h0 B (unmapped sm M) D N h1 := by
  refine (ends_of_eq rfl).2 ?_
  unfold unmapped
  cases sm.ptr with
  | none => exact ⟨h'.blocks, h'.maps, h'.files, h'.names, h'.registry⟩
  | some a =>
    by_cases hz : sm.size = 0
    · simp only [removeMap, if_pos hz]
      exact ⟨h'.blocks, h'.maps, h'.files, h'.names, h'.registry⟩
    · simp only [removeMap, if_neg hz]
      exact ⟨h'.blocks, congrArg (Multiset.erase · _) h'.maps, h'.files, h'.names, h'.registry⟩

theorem hostClose_ends (h' : Has h0 B M D N h) :
    Ends (handleHost E sizes b (.close sm.file)) h fun _ h1 =>
      Has h0 B M (closed sm D) N h1 := by
  refine (ends_of_eq rfl).2 ?_
  unfold closed
  cases sm.file with
  | none => exact ⟨h'.blocks, h'.maps, h'.files, h'.names, h'.registry⟩
  | some fd =>
    exact ⟨h'.blocks, h'.maps, congrArg (Multiset.erase · _) h'.files, h'.names, h'.registry⟩

theorem hostShmUnlink_ends {text : List UInt8} (h' : Has h0 B M D N h) :
    Ends (handleHost E sizes b (.shmUnlink text)) h fun _ h1 =>
      Has h0 B M D (Function.update N text none) h1 := by
  refine (ends_of_eq rfl).2 ?_
  refine ⟨h'.blocks, h'.maps, h'.files, ?_, h'.registry⟩
  change Function.update h.names text none = _
  rw [h'.names]

/-- Whatever `sm` says is undone, whether or not it was done. -/
theorem hostCleanUp_ends (h' : Has h0 (cell p sm0 + B) M D N h) :
    EndsOn E sizes b (cleanUp p sm) h fun r h1 =>
      r = 0 ∧ Has h0 B (unmapped sm M) (closed sm D) (unlinked sm N) h1 := by
  unfold cleanUp
  have hunmap : EndsOn E sizes b
      (if sm.ptr ≠ none then request (.munmap sm.ptr sm.size) else pure ()) h
      fun _ h1 => Has h0 (cell p sm0 + B) (unmapped sm M) D N h1 := by
    by_cases hptr : sm.ptr = none
    · rw [if_neg (not_not.2 hptr)]
      refine hostPure_ends ?_
      rwa [unmapped, hptr]
    · rw [if_pos hptr]
      exact hostLast_ends (hostMunmap_ends h')
  refine hostBind_ends hunmap ?_
  intro _ h1 hh1
  have hclose : EndsOn E sizes b
      (if sm.file ≠ none then do
        request (.close sm.file)
        request (.shmUnlink sm.name)
      else pure ()) h1 fun _ h2 =>
        Has h0 (cell p sm0 + B) (unmapped sm M) (closed sm D) (unlinked sm N) h2 := by
    by_cases hfile : sm.file = none
    · rw [if_neg (not_not.2 hfile)]
      refine hostPure_ends ?_
      rwa [closed, unlinked, if_pos hfile, hfile]
    · rw [if_pos hfile, unlinked, if_neg hfile]
      refine hostRequest_ends (hostClose_ends hh1) ?_
      intro _ h2 hh2
      exact hostLast_ends (hostShmUnlink_ends hh2)
  refine hostBind_ends hclose ?_
  intro _ h2 hh2
  refine hostRequest_ends (hostFree_ends hh2) ?_
  intro _ h3 hh3
  exact hostPure_ends ⟨rfl, hh3⟩

end Sky.Shm
