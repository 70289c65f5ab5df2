import SkySdk.List.Proof.Calls

/-!
# Creating and destroying a list

`skyListCreate` gives an empty list in shape with `SKY_LIST_PREALLOC_NUM` spare nodes, or NULL. If a
node cannot be pre-allocated it frees the struct and then reads it, so it does not return.
`skyListDestroy` leaves the rest of the ledger and frees each node and the struct once.
-/

set_option autoImplicit false

namespace Sky.LinkedList

open Base Base.Dll
open Block (list item)
open ItemPtr (null head tail node)

variable {A : Allocator} {b : Build} {h : Heap Block} {F G : Ledger Block} {l a : Addr}
  {s : Stats} {m c : UInt32} {xs : Nodes} {ps : Spares} {p p' q : ItemPtr}

/-! ## Create -/

/-- What stops a creation that cannot have a node: the assertion, else the access to the freed
struct. -/
def exitFault (b : Build) : Fault := if b.assertAborts then .aborted else .badAccess

/-- The pool of a list that is no more. -/
theorem freePool_dead (hl : l ∉ h.blocks) (n : Nat) :
    freePool l (n + 1) h = .error .badAccess := by
  have hnone : h.get? l = none := Finmap.lookup_eq_none.2 hl
  simp [freePool, loadList, load, hnone]

/-- The way out when a node cannot be pre-allocated, if the assertion lets it be taken: what is left
to be done after the struct was freed. -/
theorem preallocFailed_freed (hb : b.assertAborts = false)
    (he : h.entries = cell l (list (struct s p q)) + F) :
    ∃ h1 : Heap Block, l ∉ h1.blocks ∧ h1.entries = F ∧ h1.log = .free l :: h.log ∧
      (do
        skyAssert b (pure false)
        free l
        freePool l (← walkRounds)
        pure false : ListM Bool) h = (do
          freePool l (← walkRounds)
          pure false : ListM Bool) h1 := by
  have hassert : (skyAssert b (pure false) : ListM Unit) h = .ok ((), h) := by
    simp [skyAssert, hb]
  have hfree : Ends (free l) h fun _ h' => h'.entries = F ∧ h'.log = .free l :: h.log :=
    Ends.free_log he fun h' e hl => ⟨e, hl⟩
  obtain ⟨_, h1, hfree, e1, hl1⟩ := hfree
  refine ⟨h1, ?_, e1, hl1, ?_⟩
  · rw [Heap.mem_blocks_iff_entries, e1]
    exact Heap.notMem_frame he
  · rw [bind_apply, hassert]
    dsimp only
    rw [bind_apply, hfree]

theorem preallocFailed_stops (he : h.entries = cell l (list (struct s p q)) + F) :
    (do
      skyAssert b (pure false)
      free l
      freePool l (← walkRounds)
      pure false : ListM Bool) h = .error (exitFault b) := by
  unfold exitFault
  cases hb : b.assertAborts with
  | true =>
    have hassert : (skyAssert b (pure false) : ListM Unit) h = .error .aborted := by
      simp [skyAssert, hb]
    rw [bind_apply, hassert]
    rfl
  | false =>
    obtain ⟨h1, hl, -, -, hx⟩ := preallocFailed_freed hb he
    have hrounds : walkRounds h1 = .ok (h1.size + 1, h1) := rfl
    rw [hx, bind_apply, hrounds]
    dsimp only
    rw [bind_apply, freePool_dead hl]
    rfl

/-- The struct of a list that is being created. -/
def newStats (ps : Spares) : Stats := ⟨first node ps null, 0, 0⟩

theorem preallocItems_granted (hg : A.grants h.time = true)
    (he : h.entries = whole l (newStats ps) [] + (chain node spareItem ps null + F)) :
    ∃ a h1, (∀ n, preallocItems A b l (n + 1) h = preallocItems A b l n h1) ∧
      h1.log = .malloc a :: h.log ∧ h1.entries = whole l (newStats ((a, 0, null) :: ps)) [] +
        (chain node spareItem ((a, 0, null) :: ps) null + F) := by
  have halloc : Ends (allocItem A) h fun p h' => ∃ a, p = node a ∧
      h'.entries = cell a (item zeroItem) + h.entries ∧ h'.log = .malloc a :: h.log := by
    refine allocItem_ends (fun h' hrefused _ _ => ?_) fun a h' _ _ e hl => ⟨a, rfl, e, hl⟩
    rw [hg] at hrefused
    cases hrefused
  obtain ⟨_, h1, hx1, a, rfl, e1, hl1⟩ := halloc
  rw [he] at e1
  have hdata : Ends (setData (node a) 0) h1 fun _ h' => h'.log = h1.log ∧
      h'.entries = cell a (item zeroItem) +
        (cell l (list (struct ⟨first node ps null, 0, 0⟩ (tail l) (head l))) +
          (chain node spareItem ps null + F)) := by
    refine modifyNode_ends e1 fun h' e hl => ⟨hl, ?_⟩
    rw [e, whole_struct, seg_nil, zero_add]
    rfl
  obtain ⟨_, h2, hx2, hl2, e2⟩ := hdata
  have hpool : Ends (poolItem l (node a)) h2 fun _ h' => h'.log = h2.log ∧
      h'.entries = whole l (newStats ((a, 0, null) :: ps)) [] +
        (chain node spareItem ((a, 0, null) :: ps) null + F) := by
    refine poolItem_ends e2 fun h' e hl => ⟨hl, ?_⟩
    rw [e, whole_struct, seg_nil, zero_add]
    rfl
  obtain ⟨_, h3, hx3, hl3, e3⟩ := hpool
  refine ⟨a, h3, fun n => ?_, by rw [hl3, hl2, hl1], e3⟩
  rw [preallocItems, bind_apply, hx1]
  dsimp only
  rw [if_neg (by simp), bind_apply, hx2]
  dsimp only
  rw [bind_apply, hx3]

theorem preallocItems_refused (hg : A.grants h.time = false) :
    ∃ h1 : Heap Block, h1.log = .malloc 0 :: h.log ∧ h1.entries = h.entries ∧
      ∀ n, preallocItems A b l (n + 1) h = (do
        skyAssert b (pure false)
        free l
        freePool l (← walkRounds)
        pure false : ListM Bool) h1 := by
  have halloc : Ends (allocItem A) h fun p h' => p = null ∧ h'.entries = h.entries ∧
      h'.log = .malloc 0 :: h.log := by
    refine allocItem_ends (fun h' _ e hl => ⟨rfl, e, hl⟩) fun a h' hgrant _ _ _ => ?_
    rw [hg] at hgrant
    cases hgrant
  obtain ⟨_, h1, hx1, rfl, e1, hl1⟩ := halloc
  refine ⟨h1, hl1, e1, fun n => ?_⟩
  rw [preallocItems, bind_apply, hx1]
  dsimp only
  rw [if_pos rfl]

/-- The pre-allocation returns when all the nodes are granted. -/
theorem preallocItems_outcome : ∀ (n : Nat) (ps : Spares) (h : Heap Block),
    h.entries = whole l (newStats ps) [] + (chain node spareItem ps null + F) →
    Outcome (preallocItems A b l n) h (fun r h' => r = true ∧
      (∀ t < n, A.grants (h.time + t) = true) ∧
      ∃ qs : Spares, qs.length = n ∧ h'.log = qs.map (fun y => .malloc y.1) ++ h.log ∧
        h'.entries = whole l (newStats (qs ++ ps)) [] +
          (chain node spareItem (qs ++ ps) null + F))
      fun e => e = exitFault b ∧ ∃ t < n, A.grants (h.time + t) = false
  | 0, ps, h, he => Outcome.pure ⟨rfl, fun _ ht => absurd ht (Nat.not_lt_zero _), [], rfl, rfl, he⟩
  | n + 1, ps, h, he => by
    cases hg : A.grants h.time with
    | false =>
      obtain ⟨h1, -, e1, hx⟩ := preallocItems_refused (b := b) (l := l) hg
      have hstops := preallocFailed_stops (b := b) ((e1.trans he).trans (whole_struct l _ _ _))
      exact Outcome.of_error ((hx n).trans hstops) ⟨rfl, 0, Nat.succ_pos n, hg⟩
    | true =>
      obtain ⟨a, h1, hx, hl1, e1⟩ := preallocItems_granted (b := b) hg he
      have htime := Heap.time_add_of_log hl1
      refine Outcome.of_eq (hx n) ((preallocItems_outcome n ((a, 0, null) :: ps) h1 e1).mono ?_ ?_)
      · rintro r h2 ⟨hr, hgrants, qs, hqs, hl2, e2⟩
        refine ⟨hr, ?_, qs ++ [(a, 0, null)], ?_, ?_, ?_⟩
        · intro t ht
          cases t with
          | zero => exact hg
          | succ t =>
            rw [← htime]
            exact hgrants t (Nat.lt_of_succ_lt_succ ht)
        · rw [List.length_append, hqs]
          rfl
        · rw [hl2, hl1]
          simp
        · rw [e2, List.append_assoc]
          rfl
      · rintro e ⟨he, t, ht, hrefused⟩
        rw [htime] at hrefused
        exact ⟨he, t + 1, Nat.succ_lt_succ ht, hrefused⟩

/-- The list that a successful creation gives; the rest of the ledger is what was there. -/
def Created (b : Build) (h : Heap Block) (m : UInt32) (l : Addr) (h' : Heap Block) : Prop :=
  0 < m ∧ ∃ ps : Spares, ps.length = b.preallocNum ∧ Shape h' h.entries l m [] ps ∧
    h'.log = ps.map (fun y => .malloc y.1) ++ .malloc l :: h.log

theorem skyListCreate_granted (hm : 0 < m) (hg : A.grants h.time = true) :
    ∃ l h1, l ≠ 0 ∧ h1.log = .malloc l :: h.log ∧
      h1.entries = whole l (newStats []) [] + (chain node spareItem [] null + h.entries) ∧
      skyListCreate A b m h = (do
        if ← preallocItems A b l b.preallocNum then do
          modifyList l fun l => { l with count := 0, maxSize := m }
          pure l
        else pure 0 : ListM Addr) h1 := by
  have halloc : Ends (malloc A (list zeroList)) h fun l h' => l ≠ 0 ∧
      h'.entries = cell l (list zeroList) + h.entries ∧ h'.log = .malloc l :: h.log := by
    refine Ends.malloc_log (fun h' hrefused _ _ => ?_) fun l h' _ h0 e hl => ⟨h0, e, hl⟩
    rw [hg] at hrefused
    cases hrefused
  obtain ⟨l, h1, hx1, h0, e1, hl1⟩ := halloc
  have hinit : Ends (modifyList l fun l' => { l' with
      cb := 72
      handleType := SkyHandleType.list.code
      head := { data := 0, prev := .null, next := .tail l }
      tail := { data := 0, prev := .head l, next := .null }
      prealloc := .null }) h1 fun _ h' => h'.log = h1.log ∧
        h'.entries = whole l (newStats []) [] + (chain node spareItem [] null + h.entries) := by
    refine modifyList_ends e1 fun h' e hl => ⟨hl, ?_⟩
    rw [e, whole_struct, seg_nil, chain_nil, zero_add, zero_add]
    rfl
  obtain ⟨_, h2, hx2, hl2, e2⟩ := hinit
  refine ⟨l, h2, h0, hl2.trans hl1, e2, ?_⟩
  rw [skyListCreate, if_pos hm, bind_apply, hx1]
  dsimp only
  rw [if_neg h0, bind_apply, hx2]

theorem skyListCreate_refused (hm : 0 < m) (hg : A.grants h.time = false) :
    Ends (skyListCreate A b m) h fun l _ => l = 0 := by
  rw [skyListCreate, if_pos hm, ends_bind]
  refine Ends.malloc_log (fun h' _ _ _ => ?_) fun l h' hgrant _ _ _ => ?_
  · rw [if_pos rfl, ends_pure]
  · rw [hg] at hgrant
    cases hgrant

/-- When a creation gets the struct, it makes a list if it gets all the nodes too, and does not
return otherwise. -/
theorem skyListCreate_outcome (A : Allocator) (b : Build) (m : UInt32) (h : Heap Block) :
    Outcome (skyListCreate A b m) h
      (fun l h' => (l ≠ 0 → Created b h m l h') ∧ (0 < m → A.grants h.time = true →
        l ≠ 0 ∧ ∀ t < b.preallocNum, A.grants (h.time + (t + 1)) = true))
      fun e => e = exitFault b ∧
        ∃ t < b.preallocNum, A.grants (h.time + (t + 1)) = false := by
  by_cases hm : 0 < m
  · cases hg : A.grants h.time with
    | false =>
      refine (skyListCreate_refused hm hg).outcome.mono ?_ fun _ he => he
      rintro l h' rfl
      exact ⟨fun hc => absurd rfl hc, fun _ hgrant => by cases hgrant⟩
    | true =>
      obtain ⟨l, h1, h0, hl1, e1, hx⟩ := skyListCreate_granted (b := b) hm hg
      have htime := Heap.time_add_of_log hl1
      have hprealloc := preallocItems_outcome (A := A) (b := b) b.preallocNum [] h1 e1
      simp only [htime] at hprealloc
      refine Outcome.of_eq hx (hprealloc.bind ?_)
      rintro _ h2 ⟨rfl, hgrants, qs, hqs, hl2, e2⟩
      rw [if_pos rfl, List.append_nil] at *
      have hfinish : Ends (modifyList l fun l => { l with count := 0, maxSize := m }) h2
          fun _ h' => h'.log = h2.log ∧ h'.entries = whole l ⟨first node qs null, 0, m⟩ [] +
            (chain node spareItem qs null + h.entries) :=
        modifyStats_ends e2 (fun _ _ => rfl) fun h' e hl => ⟨hl, e⟩
      refine hfinish.outcome.bind ?_
      rintro _ h3 ⟨hl3, e3⟩
      refine Outcome.pure ⟨fun _ => ⟨hm, qs, hqs, ⟨Nat.zero_le _, ?_⟩, ?_⟩, ?_⟩
      · rw [e3, ← add_assoc]
        rfl
      · rw [hl3, hl2, hl1]
      · exact fun _ _ => ⟨h0, hgrants⟩
  · rw [skyListCreate, if_neg hm]
    exact Outcome.pure ⟨fun hc => absurd rfl hc, fun hc => absurd hc hm⟩

theorem skyListCreate_returns (A : Allocator) (b : Build) (m : UInt32) (h : Heap Block) :
    Returns (skyListCreate A b m) h fun l h' => l ≠ 0 → Created b h m l h' :=
  fun l h' hx => ((skyListCreate_outcome A b m h).1 l h' hx).1

theorem exists_create {A : Allocator} {b : Build} {m : UInt32} (hm : 0 < m)
    (hg : ∀ t ≤ b.preallocNum, A.grants (h.time + t) = true) :
    ∃ l h', skyListCreate A b m h = .ok (l, h') ∧ l ≠ 0 := by
  have hends := (skyListCreate_outcome A b m h).ends ?_
  · exact hends.mono fun l h' hq => (hq.2 hm (hg 0 (Nat.zero_le _))).1
  · rintro e ⟨-, t, ht, hrefused⟩
    rw [hg (t + 1) ht] at hrefused
    cases hrefused

/-! ## Destroy -/

theorem freeItems_ends : ∀ (n : Nat) (ys : Nodes) (p : ItemPtr) (h : Heap Block),
    ys.length < n →
    h.entries = cell l (list (struct ⟨q, .ofNat ys.length, m⟩ (first node ys (tail l)) p')) +
      (seg node liveItem p ys (tail l) + F) →
    Ends (freeItems l n) h fun _ h' =>
      h'.entries = cell l (list (struct ⟨q, .ofNat 0, m⟩ (tail l) p')) + F ∧
      h'.log = (ys.map fun y => Event.free y.1).reverse ++ h.log
  | 0, _, _, _, hn, _ => absurd hn (Nat.not_lt_zero _)
  | n + 1, [], p, h, _, he => by
    unfold freeItems
    rw [ends_bind]
    apply loadHead_ends he
    simp only [struct, first_nil, if_true, ends_pure]
    exact ⟨by rw [he, seg_nil, zero_add]; rfl, rfl⟩
  | n + 1, (a, d) :: ys, p, h, hn, he => by
    rw [seg_cons, add_assoc] at he
    unfold freeItems
    rw [ends_bind]
    apply loadHead_ends he
    have hne : (struct ⟨q, .ofNat (ys.length + 1), m⟩ (node a) p').head.next ≠ tail l := by
      simp [struct]
    rw [ends_ite]
    refine ⟨fun hc => absurd hc hne, fun _ => ?_⟩
    simp only [struct, first_cons]
    rw [ends_bind]
    apply loadNode_ends (he.trans (add_left_comm _ _ _))
    rw [ends_bind]
    apply modifyList_ends he
    intro h1 e1 hl1
    rw [ends_bind]
    apply Ends.free_log (e1.trans (add_left_comm _ _ _))
    intro h2 e2 hl2
    rw [ends_bind]
    apply modifyList_ends e2
    intro h3 e3 hl3
    have e3' : h3.entries = cell l (list (struct ⟨q, .ofNat ys.length, m⟩
        (first node ys (tail l)) p')) + (seg node liveItem (node a) ys (tail l) + F) := by
      rw [e3]
      simp only [struct, List.length_cons, count_pred]
    apply (freeItems_ends n ys (node a) h3 (Nat.lt_of_succ_lt_succ hn) e3').mono
    rintro _ h' ⟨e', hl'⟩
    refine ⟨e', ?_⟩
    rw [hl', hl3, hl2, hl1]
    simp

theorem freePool_ends : ∀ (n : Nat) (ys : Spares) (h : Heap Block), ys.length < n →
    h.entries = cell l (list (struct ⟨first node ys null, c, m⟩ p q)) +
      (chain node spareItem ys null + F) →
    Ends (freePool l n) h fun _ h' =>
      h'.entries = cell l (list (struct ⟨null, c, m⟩ p q)) + F ∧
      h'.log = (ys.map fun y => Event.free y.1).reverse ++ h.log
  | 0, _, _, hn, _ => absurd hn (Nat.not_lt_zero _)
  | n + 1, [], h, _, he => by
    unfold freePool
    rw [ends_bind]
    apply loadList_ends he
    simp only [struct, first_nil, if_true, ends_pure]
    exact ⟨by rw [he, chain_nil, zero_add]; rfl, rfl⟩
  | n + 1, (a, y) :: ys, h, hn, he => by
    rw [chain_cons, add_assoc] at he
    have hcell := he.trans (add_left_comm _ _ _)
    unfold freePool
    rw [ends_bind]
    apply loadList_ends he
    have hne : (struct ⟨node a, c, m⟩ p q).prealloc ≠ null := by simp [struct]
    rw [ends_ite]
    refine ⟨fun hc => absurd hc hne, fun _ => ?_⟩
    simp only [struct, first_cons]
    rw [ends_bind]
    apply loadNode_ends hcell
    rw [ends_bind]
    apply Ends.free_log hcell
    intro h1 e1 hl1
    rw [ends_bind]
    apply modifyList_ends e1
    intro h2 e2 hl2
    apply (freePool_ends n ys h2 (Nat.lt_of_succ_lt_succ hn) e2).mono
    rintro _ h' ⟨e', hl'⟩
    refine ⟨e', ?_⟩
    rw [hl', hl2, hl1]
    simp

theorem spares_lt_rounds {G : Ledger Block} {ys : Spares}
    (he : h.entries = chain node spareItem ys null + G) : ys.length < h.size + 1 := by
  have hle := Heap.length_le_size he (keys_chain node spareItem ys null)
  rw [List.length_map] at hle
  exact Nat.lt_succ_of_le hle

theorem skyListDestroy_ends (S : Shape h F l m xs ps) :
    Ends (skyListDestroy b l) h fun _ h' => h'.entries = F ∧
      ∃ fs : List Addr, fs.Perm (l :: addrs xs ps) ∧ h'.log = fs.map Event.free ++ h.log := by
  have hw := S.whole_eq
  unfold skyListDestroy
  rw [ends_bind]
  apply validate_ends hw
  rw [whole_struct] at hw
  have hrounds := length_lt_rounds (hw.trans (add_left_comm _ _ _))
  rw [ends_bind, ends_of_eq (rfl : walkRounds h = .ok (h.size + 1, h)), ends_bind]
  apply (freeItems_ends (h.size + 1) xs (head l) h hrounds hw).mono
  rintro _ h1 ⟨e1, hl1⟩
  have hrounds1 := spares_lt_rounds (e1.trans (add_left_comm _ _ _))
  rw [ends_bind, ends_of_eq (rfl : walkRounds h1 = .ok (h1.size + 1, h1)), ends_bind]
  apply (freePool_ends (h1.size + 1) ps h1 hrounds1 e1).mono
  rintro _ h2 ⟨e2, hl2⟩
  apply Ends.free_log e2
  intro h3 e3 hl3
  refine ⟨e3, l :: ((ps.map Prod.fst).reverse ++ (xs.map Prod.fst).reverse), ?_, ?_⟩
  · refine List.Perm.cons l ?_
    unfold addrs
    exact List.perm_append_comm.trans
      ((List.reverse_perm _).append (List.reverse_perm _))
  · rw [hl3, hl2, hl1]
    simp [List.map_reverse, Function.comp_def]

end Sky.LinkedList
