import SkySdk.List.Proof.Life

/-!
# When a node cannot be pre-allocated

`skyListCreate` frees the struct first, and then looks in the struct for the nodes that are to be
freed (`create_freed`). So whichever node is refused, it does not clean up (`not_cleansUp`).
-/

set_option autoImplicit false

namespace Sky.LinkedList

open Base Base.Dll
open ItemPtr (null node)

variable {A : Allocator} {b : Build} {h : Heap Block} {F : Ledger Block} {l : Addr} {m : UInt32}
  {k n : Nat}

/-- The struct and `k` nodes are granted, and the next node is refused. -/
structure RefusesNode (A : Allocator) (h : Heap Block) (k : Nat) : Prop where
  granted : ∀ t ≤ k, A.grants (h.time + t) = true
  refused : A.grants (h.time + (k + 1)) = false

/-- The creation returns NULL, and has freed the struct `l` and each of the `k` nodes once. It has
not used a block after that, or it would not return. -/
def CleansUp (A : Allocator) (b : Build) (m : UInt32) (h : Heap Block) (k : Nat) : Prop :=
  ∃ (l : Addr) (nodes frees : List Addr) (h' : Heap Block),
    skyListCreate A b m h = .ok (0, h') ∧ nodes.length = k ∧ frees.Perm (l :: nodes) ∧
      h'.log = frees.map .free ++ .malloc 0 :: (nodes.map .malloc ++ .malloc l :: h.log)

/-- The creation comes to a state in which the struct `l` was freed and the `k` nodes were not, and
goes on with the loop that reads the struct. -/
def UsesFreed (A : Allocator) (b : Build) (m : UInt32) (h : Heap Block) (k : Nat) : Prop :=
  ∃ (l : Addr) (nodes : List Addr) (h' : Heap Block),
    nodes.length = k ∧ l ∉ h'.blocks ∧ (∀ a ∈ nodes, a ∈ h'.blocks) ∧
      h'.log = .free l :: .malloc 0 :: (nodes.map .malloc ++ .malloc l :: h.log) ∧
      skyListCreate A b m h = (do
        freePool l (← walkRounds)
        pure 0 : ListM Addr) h'

/-! ## The run up to `free` -/

/-- The rounds up to the one that is refused its node. -/
theorem preallocItems_freed (hb : b.assertAborts = false) : ∀ (k n : Nat) (ps : Spares)
    (h : Heap Block), k < n → (∀ t < k, A.grants (h.time + t) = true) →
    A.grants (h.time + k) = false →
    h.entries = whole l (newStats ps) [] + (chain node spareItem ps null + F) →
    ∃ (qs : Spares) (h1 : Heap Block), qs.length = k ∧ l ∉ h1.blocks ∧
      h1.entries = chain node spareItem (qs ++ ps) null + F ∧
      h1.log = .free l :: .malloc 0 :: (qs.map (fun y => .malloc y.1) ++ h.log) ∧
      preallocItems A b l n h = (do
        freePool l (← walkRounds)
        pure false : ListM Bool) h1
  | _, 0, _, _, hk, _, _, _ => absurd hk (Nat.not_lt_zero _)
  | 0, n + 1, ps, h, _, _, hrefused, he => by
    obtain ⟨h1, hl1, e1, hx1⟩ := preallocItems_refused (b := b) (l := l) hrefused
    obtain ⟨h2, hl, e2, hl2, hx2⟩ :=
      preallocFailed_freed hb ((e1.trans he).trans (whole_struct l _ _ _))
    exact ⟨[], h2, rfl, hl, by rw [e2, seg_nil, zero_add]; rfl, by rw [hl2, hl1]; rfl,
      (hx1 n).trans hx2⟩
  | k + 1, n + 1, ps, h, hk, hgranted, hrefused, he => by
    obtain ⟨a, h1, hx1, hl1, e1⟩ :=
      preallocItems_granted (b := b) (hgranted 0 (Nat.succ_pos k)) he
    have htime := Heap.time_add_of_log hl1
    have hgranted1 : ∀ t < k, A.grants (h1.time + t) = true := by
      intro t ht
      rw [htime]
      exact hgranted (t + 1) (Nat.succ_lt_succ ht)
    obtain ⟨qs, h2, hqs, hl, e2, hl2, hx2⟩ := preallocItems_freed hb k n ((a, 0, null) :: ps) h1
      (Nat.lt_of_succ_lt_succ hk) hgranted1 (by rw [htime]; exact hrefused) e1
    refine ⟨qs ++ [(a, 0, null)], h2, ?_, hl, ?_, ?_, (hx1 n).trans hx2⟩
    · rw [List.length_append, hqs]
      rfl
    · rw [e2, List.append_assoc]
      rfl
    · rw [hl2, hl1]
      simp

theorem create_freed (hb : b.assertAborts = false) (hm : 0 < m) (hk : k < b.preallocNum)
    (hr : RefusesNode A h k) : UsesFreed A b m h k := by
  obtain ⟨l, h1, -, hl1, e1, hx1⟩ :=
    skyListCreate_granted (b := b) hm (hr.granted 0 (Nat.zero_le k))
  have htime := Heap.time_add_of_log hl1
  have hgranted : ∀ t < k, A.grants (h1.time + t) = true := by
    intro t ht
    rw [htime]
    exact hr.granted (t + 1) ht
  obtain ⟨qs, h2, hqs, hl, e2, hl2, hx2⟩ := preallocItems_freed hb k b.preallocNum [] h1 hk
    hgranted (by rw [htime]; exact hr.refused) e1
  refine ⟨l, qs.map Prod.fst, h2, ?_, hl, ?_, ?_, ?_⟩
  · rw [List.length_map, hqs]
  · intro a ha
    rw [Heap.mem_blocks_iff_entries, e2, List.append_nil, Multiset.map_add, keys_chain]
    exact Multiset.mem_add.2 (.inl (Multiset.mem_coe.2 ha))
  · rw [hl2, hl1, List.map_map]
    rfl
  · rw [hx1, bind_apply, hx2, ← bind_apply]
    simp only [bind_assoc, pure_bind, Bool.false_eq_true, if_false]

/-! ## No creation cleans up -/

theorem create_stops (hm : 0 < m) (hk : k < b.preallocNum) (hr : RefusesNode A h k) :
    skyListCreate A b m h = .error (exitFault b) := by
  have hout := (skyListCreate_outcome A b m h).mono (fun _ _ hq => hq) fun _ he => he.1
  refine hout.error fun l h' hq => ?_
  obtain ⟨-, hgrants⟩ := hq.2 hm (hr.granted 0 (Nat.zero_le k))
  have hrefused := hr.refused
  rw [hgrants k hk] at hrefused
  cases hrefused

theorem not_cleansUp_of_stops (hx : skyListCreate A b m h = .error (exitFault b)) :
    ¬ CleansUp A b m h k := by
  intro hclean
  obtain ⟨l, nodes, frees, h', hx', -⟩ := hclean
  rw [hx] at hx'
  cases hx'

/-- Whatever `SKY_LIST_PREALLOC_NUM` is and whichever node is refused, the call does not clean up:
the assertion stops it, and else the struct is read after it was freed. -/
theorem not_cleansUp (hm : 0 < m) (hk : k < b.preallocNum) (hr : RefusesNode A h k) :
    ¬ CleansUp A b m h k ∧
      skyListCreate A b m h = .error (if b.assertAborts then .aborted else .badAccess) ∧
      (b.assertAborts = false → UsesFreed A b m h k) :=
  ⟨not_cleansUp_of_stops (create_stops hm hk hr), create_stops hm hk hr,
    fun hb => create_freed hb hm hk hr⟩

/-- The allocator that refuses call number `n`. -/
def refusing (n : Nat) : Allocator := .bump (· != n)

theorem refusesNode_refusing (k : Nat) : RefusesNode (refusing (k + 1)) .empty k where
  granted t ht := by
    change (0 + t != k + 1) = true
    rw [bne_iff_ne]
    omega
  refused := by
    change (0 + (k + 1) != k + 1) = false
    simp

/-- The third of four nodes, with and without DEBUG. -/
theorem not_cleansUp_third : ¬ CleansUp (refusing 3) ⟨4, true⟩ 8 .empty 2 ∧
    ¬ CleansUp (refusing 3) ⟨4, false⟩ 8 .empty 2 ∧ UsesFreed (refusing 3) ⟨4, false⟩ 8 .empty 2 :=
  have hplain := not_cleansUp (b := ⟨4, false⟩) (m := 8) (by decide) (by decide)
    (refusesNode_refusing 2)
  ⟨(not_cleansUp (b := ⟨4, true⟩) (by decide) (by decide) (refusesNode_refusing 2)).1, hplain.1,
    hplain.2.2 rfl⟩

/-- The second of two nodes. -/
theorem create_uses_freed : RefusesNode (refusing 2) .empty 1 ∧
    skyListCreate (refusing 2) ⟨2, false⟩ 8 .empty = .error .badAccess ∧
      ¬ CleansUp (refusing 2) ⟨2, false⟩ 8 .empty 1 := by
  have hstops : skyListCreate (refusing 2) ⟨2, false⟩ 8 .empty = .error .badAccess :=
    create_stops (by decide) (by decide) (refusesNode_refusing 1)
  exact ⟨refusesNode_refusing 1, hstops, not_cleansUp_of_stops hstops⟩

end Sky.LinkedList
