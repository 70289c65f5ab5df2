import SkySdk.List.Proof.Run
import SkySdk.Shm.Process

/-!
# What a process has

`At … R ys`: the process has the blocks, mappings and descriptors `R` and its registry holds `ys`.
One rule for each request says what it adds to them or takes from them. A descriptor is only
accounted for while all names can be formatted (`fit`): the clean-up after a name that cannot be
closes descriptor 0, which the struct holds from its allocation.
-/

set_option autoImplicit false

namespace Sky.Shm

open Base

variable {E : Env} {b : Build} {s : Process} {p q : Addr} {sm : SkyHandleShareMem}
  {ys : List Addr} {l : Addr} {G : Ledger LinkedList.Block} {fit : Prop}

/-- Blocks, mappings and descriptors. -/
abbrev Resources := Ledger SkyHandleShareMem × Multiset (Addr × Nat) × Multiset Nat

/-- The mapping of a struct. -/
def mapOf (ptr : Option Addr) (size : UInt32) : Multiset (Addr × Nat) :=
  match ptr with
  | some a => if size = 0 then 0 else {(a, size.toNat)}
  | none => 0

/-- The descriptor of a struct. -/
def fileOf (file : Option Nat) : Multiset Nat :=
  match file with
  | some fd => {fd}
  | none => 0

/-- The block `p`, with what its struct `sm` holds. -/
def heldBy (p : Addr) (sm : SkyHandleShareMem) : Resources :=
  (cell p sm, mapOf sm.ptr sm.size, fileOf sm.file)

/-- The list `l` is the registry, and the rest of its heap is `G`. -/
structure At (G : Ledger LinkedList.Block) (l : Addr) (fit : Prop) (s : Process) (R : Resources)
    (ys : List Addr) : Prop where
  blocks : s.blocks.entries = R.1
  maps : s.maps = R.2.1
  files : fit → s.files = R.2.2
  list : s.shareMemList = l
  shape : ∃ ns ps, LinkedList.Shape s.nodes G l maxCount ns ps ∧ LinkedList.datas ns = ys

theorem At.registry {R : Resources} (h : At G l fit s R ys) : registry s = ys := by
  obtain ⟨ns, ps, S, hys⟩ := h.shape
  unfold Shm.registry
  rw [h.list, S.seqOf_eq, hys]

theorem At.length_le {R : Resources} (h : At G l fit s R ys) : ys.length ≤ maxShareMemCount := by
  obtain ⟨ns, ps, S, rfl⟩ := h.shape
  rw [LinkedList.datas, List.length_map]
  exact S.le

/-- A registered handle is not NULL when its block is there. -/
theorem At.ne_zero {R : Resources} (h : At G l fit s (heldBy p sm + R) ys) : p ≠ 0 :=
  Heap.ne_zero_of_mem (Heap.mem_of_entries h.blocks)

/-- What is said of the descriptors counts only while all names fit. -/
theorem At.unfit {R : Resources} {B : Ledger SkyHandleShareMem} {M : Multiset (Addr × Nat)}
    {D D' : Multiset Nat} (h : At G l fit s ((B, M, D) + R) ys) (hf : ¬ fit) :
    At G l fit s ((B, M, D') + R) ys :=
  ⟨h.blocks, h.maps, fun hc => absurd hc hf, h.list, h.shape⟩

/-! ## Programs -/

/-- A program of `sky_ipc_shm.c` in the process. -/
abbrev EndsIn {α : Type} (E : Env) (b : Build) (x : ShmM α) (s : Process)
    (Q : α → Process → Prop) : Prop :=
  Ends (x.run (handle E b)) s Q

section
variable {α β : Type} {Q : α → Process → Prop}

theorem request_ends {o : Request} {f : o.Reply → ShmM α} {P : o.Reply → Process → Prop}
    (h : Ends (handle E b o) s P) (k : ∀ r s', P r s' → EndsIn E b (f r) s' Q) :
    EndsIn E b (request o >>= f) s Q := h.bind k

/-- A request in the last place. -/
theorem last_ends {o : Request} {P : o.Reply → Process → Prop} (h : Ends (handle E b o) s P) :
    EndsIn E b (request o) s P :=
  h.bind fun _ _ hp => (ends_pure _).2 hp

theorem pure_ends {a : α} (h : Q a s) : EndsIn E b (pure a) s Q := (ends_pure a).2 h

theorem bind_ends {x : ShmM β} {f : β → ShmM α} {P : β → Process → Prop} (h : EndsIn E b x s P)
    (k : ∀ a s', P a s' → EndsIn E b (f a) s' Q) : EndsIn E b (x >>= f) s Q := by
  unfold EndsIn
  rw [Proc.run_bind]
  exact h.bind k

end

/-! ## Requests -/

section
variable {R : Resources}

theorem alloc_ends (h : At G l fit s R ys) : Ends (handle E b .alloc) s fun p s' =>
    p = 0 ∧ ¬ E.Willing ∧ At G l fit s' R ys ∨
      p ≠ 0 ∧ At G l fit s' ((cell p zeroShareMem, 0, 0) + R) ys := by
  refine ends_zoom.2 (Ends.malloc ?_ ?_)
  · intro h' hg he _
    refine .inl ⟨rfl, ?_, { h with blocks := he.trans h.blocks }⟩
    intro hE
    rw [hE.blocks] at hg
    cases hg
  · intro p h' _ hp he _
    refine .inr ⟨hp, ?_, ?_, ?_, h.list, h.shape⟩
    · rw [he, h.blocks]
      rfl
    · rw [Prod.snd_add, Prod.fst_add, zero_add]
      exact h.maps
    · intro hf
      rw [Prod.snd_add, Prod.snd_add, zero_add]
      exact h.files hf

theorem store_ends {sm' : SkyHandleShareMem} {M : Multiset (Addr × Nat)} {D : Multiset Nat}
    (h : At G l fit s ((cell p sm, M, D) + R) ys) :
    Ends (handle E b (.store p sm')) s fun _ s' =>
      At G l fit s' ((cell p sm', M, D) + R) ys := by
  refine ends_zoom.2 (Ends.store h.blocks ?_)
  intro h' he _
  exact ⟨he, h.maps, h.files, h.list, h.shape⟩

theorem free_ends {M : Multiset (Addr × Nat)} {D : Multiset Nat}
    (h : At G l fit s ((cell p sm, M, D) + R) ys) :
    Ends (handle E b (.free p)) s fun _ s' =>
      s'.log = s.log ∧ At G l fit s' ((0, M, D) + R) ys := by
  refine ends_zoom.2 (Ends.free h.blocks ?_)
  intro h' he _
  exact ⟨rfl, he.trans (zero_add _).symm, h.maps, h.files, h.list, h.shape⟩

theorem enter_ends : Ends (handle E b .enter) s fun _ s' => s' = s := (ends_pure ()).2 rfl

theorem leave_ends : Ends (handle E b .leave) s fun _ s' => s' = s := (ends_pure ()).2 rfl

theorem load_ends (h : At G l fit s (heldBy p sm + R) ys) :
    Ends (handle E b (.load p)) s fun r s' => r = sm ∧ s' = s :=
  ends_zoom.2 (Ends.load h.blocks ⟨rfl, rfl⟩)

theorem print_ends {size : Nat} {before : List UInt8} {name : CStr} :
    Ends (handle E b (.print size before name)) s fun r s' =>
      s' = s ∧ ∃ left, r = skyStrPrintf size before name left :=
  (ends_of_eq rfl).2 ⟨rfl, _, rfl⟩

variable {B : Ledger SkyHandleShareMem} {M : Multiset (Addr × Nat)} {D D' : Multiset Nat}

theorem At.note (h : At G l fit s R ys) (c : SysCall) :
    At G l fit { s with log := s.log ++ [c] } R ys :=
  ⟨h.blocks, h.maps, h.files, h.list, h.shape⟩

theorem shmOpen_ends {name : List UInt8} {create : Bool} (h : At G l fit s ((B, M, 0) + R) ys) :
    Ends (handle E b (.shmOpen name create)) s fun r s' =>
      (r = none → ¬ E.Willing) ∧ At G l fit s' ((B, M, fileOf r) + R) ys := by
  refine (ends_of_eq rfl).2 ⟨fun hr hE => hE.shmOpen _ hr, ?_⟩
  cases E.shmOpen s.log.length with
  | none => exact h.note _
  | some fd =>
    refine ⟨h.blocks, h.maps, ?_, h.list, h.shape⟩
    intro hf
    have hfiles : s.files = R.2.2 := (h.files hf).trans (zero_add _)
    change fd ::ₘ s.files = {fd} + R.2.2
    rw [hfiles, Multiset.singleton_add]

theorem ftruncate_ends {file : Nat} {size : UInt32} (h : At G l fit s R ys) :
    Ends (handle E b (.ftruncate file size)) s fun r s' =>
      (r = false → ¬ E.Willing) ∧ At G l fit s' R ys := by
  refine (ends_of_eq rfl).2 ⟨?_, h.note _⟩
  intro hr hE
  exact Bool.noConfusion (hr.symm.trans (hE.ftruncate _))

/-- The size of an object is below 4 GiB. -/
theorem fstat_ends {file : Nat} (h : At G l fit s R ys) :
    Ends (handle E b (.fstat file)) s fun r s' =>
      (∀ n, r = some n → n < 2 ^ 32) ∧ (r = none ∨ r = some 0 → ¬ E.Willing) ∧
        At G l fit s' R ys := by
  refine (ends_of_eq rfl).2 ⟨fun n hn => E.fstat_lt _ n hn, ?_, h.note _⟩
  intro hr hE
  cases hr with
  | inl hr => exact (hE.fstat _).1 hr
  | inr hr => exact (hE.fstat _).2 hr

/-- `size` is the length, as the struct has it. -/
theorem mmap_ends {length file : Nat} {size : UInt32} (hs : size.toNat = length)
    (h : At G l fit s ((B, 0, D) + R) ys) :
    Ends (handle E b (.mmap length file)) s fun r s' =>
      (r = none → length ≠ 0 → ¬ E.Willing) ∧ (r ≠ none → size ≠ 0) ∧
        At G l fit s' ((B, mapOf r size, D) + R) ys := by
  refine (ends_of_eq rfl).2 ?_
  by_cases hz : length = 0
  · simp only [if_pos hz]
    exact ⟨fun _ hc => absurd hz hc, fun hc => absurd rfl hc, h.note _⟩
  have hsize : size ≠ 0 := by
    intro hc
    rw [hc] at hs
    exact hz hs.symm
  simp only [if_neg hz]
  refine ⟨fun hr _ hE => hE.mmap _ hr, fun _ => hsize, ?_⟩
  cases E.mmap s.log.length with
  | none => exact h.note _
  | some a =>
    refine ⟨h.blocks, ?_, h.files, h.list, h.shape⟩
    have hmaps : s.maps = R.2.1 := h.maps.trans (zero_add _)
    change (a, length) ::ₘ s.maps = mapOf (some a) size + R.2.1
    rw [hmaps, mapOf, if_neg hsize, hs, Multiset.singleton_add]

theorem munmap_ends {ptr : Option Addr} {size : UInt32}
    (h : At G l fit s ((B, mapOf ptr size, D) + R) ys) :
    Ends (handle E b (.munmap ptr size)) s fun _ s' =>
      s'.log = s.log ++ [.munmap ptr size] ∧ At G l fit s' ((B, 0, D) + R) ys := by
  refine (ends_of_eq rfl).2 ⟨rfl, ?_⟩
  cases ptr with
  | none => exact h.note _
  | some a =>
    by_cases hz : size = 0
    · subst hz
      exact h.note _
    have hmaps : s.maps = {(a, size.toNat)} + R.2.1 := by
      rw [h.maps]
      change mapOf (some a) size + R.2.1 = _
      rw [mapOf, if_neg hz]
    simp only [removeMap, if_neg hz]
    refine ⟨h.blocks, ?_, h.files, h.list, h.shape⟩
    change s.maps.erase (a, size.toNat) = 0 + R.2.1
    rw [hmaps, Multiset.singleton_add, Multiset.erase_cons_head, zero_add]

theorem close_ends {file : Option Nat} (h : At G l fit s ((B, M, fileOf file) + R) ys) :
    Ends (handle E b (.close file)) s fun _ s' =>
      s'.log = s.log ++ [.close file] ∧ At G l fit s' ((B, M, 0) + R) ys := by
  refine (ends_of_eq rfl).2 ⟨rfl, ?_⟩
  cases file with
  | none => exact h.note _
  | some fd =>
    refine ⟨h.blocks, h.maps, ?_, h.list, h.shape⟩
    intro hf
    have hfiles : s.files = {fd} + R.2.2 := h.files hf
    change s.files.erase fd = 0 + R.2.2
    rw [hfiles, Multiset.singleton_add, Multiset.erase_cons_head, zero_add]

theorem shmUnlink_ends {name : List UInt8} (h : At G l fit s R ys) :
    Ends (handle E b (.shmUnlink name)) s fun _ s' =>
      s'.log = s.log ++ [.shmUnlink name] ∧ At G l fit s' R ys :=
  (ends_of_eq rfl).2 ⟨rfl, h.note _⟩

theorem validate_ends (h : At G l fit s (heldBy p sm + R) ys)
    (ht : sm.handleType = SkyHandleType.shareMemory.code) :
    Ends (handle E b (.validate p)) s fun _ s' => s' = s := by
  change Ends (skyValidateHandle b p) s _
  unfold skyValidateHandle skyAssert
  rw [if_neg h.ne_zero, ends_ite]
  refine ⟨fun _ => ?_, fun _ => (ends_pure _).2 rfl⟩
  rw [ends_bind, ends_bind]
  refine (load_ends (E := E) (b := b) h).mono ?_
  intro r s' hr
  obtain ⟨rfl, rfl⟩ := hr
  rw [ends_pure, ht, beq_self_eq_true, if_pos rfl, ends_pure]

/-! ## The registry -/

theorem pushBack_ends (h : At G l fit s R ys) : Ends (handle E b (.pushBack p)) s fun r s' =>
    r = true ∧ ys.length < maxShareMemCount ∧ At G l fit s' R (ys ++ [p]) ∨
      r = false ∧ ¬ (E.Willing ∧ ys.length < maxShareMemCount) ∧ At G l fit s' R ys := by
  obtain ⟨ns, ps, S, hys⟩ := h.shape
  have hpush := LinkedList.skyListPushBack_ends (A := E.nodes) (b := b) S p
  rw [← h.list] at hpush
  refine (ends_bind _ _).2 ((ends_of_eq rfl).2 (ends_zoom.2 (hpush.mono ?_)))
  intro r h' hpost
  obtain ⟨ns', ps', S', -, hseq, -⟩ := hpost
  rw [hys] at hseq
  have hat : ∀ zs, LinkedList.datas ns' = zs → At G l fit { s with nodes := h' } R zs :=
    fun zs hzs => ⟨h.blocks, h.maps, h.files, h.list, ns', ps', h.list ▸ S', hzs⟩
  simp only [LinkedList.seqCall, LinkedList.seqAdd] at hseq
  by_cases hc : ys.length < maxCount.toNat ∧ LinkedList.room E.nodes s.nodes ps = true
  · rw [if_pos hc] at hseq
    obtain ⟨hr, hzs⟩ := Prod.mk.inj hseq
    exact .inl ⟨LinkedList.Resp.bool.inj hr, hc.1, hat _ hzs⟩
  · rw [if_neg hc] at hseq
    obtain ⟨hr, hzs⟩ := Prod.mk.inj hseq
    refine .inr ⟨LinkedList.Resp.bool.inj hr, ?_, hat _ hzs⟩
    intro hE
    refine hc ⟨hE.2, ?_⟩
    rw [LinkedList.room, hE.1.nodes, Bool.or_true]

/-- Removing a pointer is removing its first occurrence. -/
theorem seqRemove_eq_erase (p : Addr) : ∀ ys : List Addr,
    LinkedList.seqRemove (· == p) ys = ys.erase p
  | [] => rfl
  | y :: ys => by
    rw [LinkedList.seqRemove, List.erase_cons, seqRemove_eq_erase p ys]

theorem remove_ends (h : At G l fit s R ys) (hp : p ∈ ys) :
    Ends (handle E b (.remove p)) s fun r s' =>
      r = p ∧ s'.log = s.log ∧ At G l fit s' R (ys.erase p) := by
  obtain ⟨ns, ps, S, hys⟩ := h.shape
  have hremove := LinkedList.skyListRemove_ends (A := E.nodes) (b := b) S p
  rw [← h.list] at hremove
  refine (ends_bind _ _).2 ((ends_of_eq rfl).2 (ends_zoom.2 (hremove.mono ?_)))
  intro r h' hpost
  obtain ⟨ns', ps', S', -, hseq, -⟩ := hpost
  rw [hys] at hseq
  simp only [LinkedList.seqCall] at hseq
  obtain ⟨hr, hzs⟩ := Prod.mk.inj hseq
  have hfind : ys.find? (· == p) = some p := by
    cases hf : ys.find? (· == p) with
    | none => exact absurd (beq_self_eq_true p) (List.find?_eq_none.1 hf p hp)
    | some y =>
      have hy : (y == p) = true := List.find?_some (p := (· == p)) hf
      rw [beq_iff_eq.1 hy]
  rw [hfind] at hr
  rw [seqRemove_eq_erase] at hzs
  exact ⟨LinkedList.Resp.ptr.inj hr, rfl, h.blocks, h.maps, h.files, h.list, ns', ps',
    h.list ▸ S', hzs⟩

theorem remove_absent (h : At G l fit s R ys) (hp : p ∉ ys) :
    Ends (handle E b (.remove p)) s fun r s' => r = 0 ∧ s' = s := by
  obtain ⟨ns, ps, S, rfl⟩ := h.shape
  have hremove : Ends (LinkedList.skyListRemove b s.shareMemList p) s.nodes fun r h' =>
      r = 0 ∧ h' = s.nodes := by
    rw [h.list]
    exact LinkedList.skyListRemove_absent S hp
  refine (ends_bind _ _).2 ((ends_of_eq rfl).2 (ends_zoom.2 (hremove.mono ?_)))
  intro r h' hr
  obtain ⟨rfl, rfl⟩ := hr
  exact ⟨rfl, rfl⟩

end

end Sky.Shm
