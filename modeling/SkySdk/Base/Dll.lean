import SkySdk.Base.Heap

/-!
# Linked nodes in the ledger

Nodes are pairs of an address and a payload. `seg p xs q` is the part of a ledger in which the nodes
`xs` are linked both ways between the pointers `p` (before them) and `q` (behind them), `chain xs e`
one in which they are linked forward only and end in `e`. `node` is the pointer to a node and `mk`
the block of a node, given its payload and its links, so that the ends may be anything a pointer can
be: NULL, or sentinels that live elsewhere.

A segment splits wherever its list does (`seg_append`), which is how a node is taken out of it or
put into it; `follow` walks the links.
-/

set_option autoImplicit false

namespace Base.Dll

variable {β δ π : Type} (node : Addr → π) {p q e : π} {x : Addr × δ} {xs ys : List (Addr × δ)}

/-- The first of the nodes, or what lies behind them. -/
def first : List (Addr × δ) → π → π
  | [], e => e
  | x :: _, _ => node x.1

/-- The last of the nodes, or what lies before them. -/
def last : π → List (Addr × δ) → π
  | e, [] => e
  | _, x :: xs => last (node x.1) xs

@[simp] theorem first_nil (e : π) : first (δ := δ) node [] e = e := rfl

@[simp] theorem first_cons (x : Addr × δ) (xs : List (Addr × δ)) (e : π) :
    first node (x :: xs) e = node x.1 := rfl

@[simp] theorem last_nil (e : π) : last (δ := δ) node e [] = e := rfl

@[simp] theorem last_cons (e : π) (x : Addr × δ) (xs : List (Addr × δ)) :
    last node e (x :: xs) = last node (node x.1) xs := rfl

theorem first_append (xs ys : List (Addr × δ)) (e : π) :
    first node (xs ++ ys) e = first node xs (first node ys e) := by
  cases xs <;> rfl

theorem last_append (e : π) (xs ys : List (Addr × δ)) :
    last node e (xs ++ ys) = last node (last node e xs) ys := by
  induction xs generalizing e with
  | nil => rfl
  | cons x xs ih => exact ih (node x.1)

@[simp] theorem last_snoc (e : π) (xs : List (Addr × δ)) (x : Addr × δ) :
    last node e (xs ++ [x]) = node x.1 := by
  rw [last_append]
  rfl

theorem last_eq_first_reverse (e : π) (xs : List (Addr × δ)) :
    last node e xs = first node xs.reverse e := by
  induction xs generalizing e with
  | nil => rfl
  | cons x xs ih =>
    rw [last_cons, ih, List.reverse_cons, first_append]
    rfl

/-! ## Segments -/

section
variable (mk : δ → π → π → β)

/-- The nodes `xs` linked both ways between `p` and `q`: `mk` takes a node's next, then its
previous. -/
def seg : π → List (Addr × δ) → π → Ledger β
  | _, [], _ => 0
  | p, x :: xs, q => cell x.1 (mk x.2 (first node xs q) p) + seg (node x.1) xs q

@[simp] theorem seg_nil (p q : π) : seg node mk p [] q = 0 := rfl

@[simp] theorem seg_cons (p q : π) (x : Addr × δ) (xs : List (Addr × δ)) :
    seg node mk p (x :: xs) q =
      cell x.1 (mk x.2 (first node xs q) p) + seg node mk (node x.1) xs q := rfl

theorem seg_append (p q : π) (xs ys : List (Addr × δ)) :
    seg node mk p (xs ++ ys) q =
      seg node mk p xs (first node ys q) + seg node mk (last node p xs) ys q := by
  induction xs generalizing p with
  | nil => simp
  | cons x xs ih =>
    rw [List.cons_append, seg_cons, seg_cons, ih, first_append, last_cons]
    ac_rfl

theorem seg_snoc (p q : π) (xs : List (Addr × δ)) (x : Addr × δ) :
    seg node mk p (xs ++ [x]) q =
      seg node mk p xs (node x.1) + cell x.1 (mk x.2 q (last node p xs)) := by
  rw [seg_append]
  simp

theorem keys_seg (p q : π) (xs : List (Addr × δ)) :
    (seg node mk p xs q).map Sigma.fst = (↑(xs.map Prod.fst) : Multiset Addr) := by
  induction xs generalizing p with
  | nil => rfl
  | cons x xs ih =>
    rw [seg_cons, Multiset.map_add, ih, cell, Multiset.map_singleton, Multiset.singleton_add,
      Multiset.cons_coe, List.map_cons]

theorem mem_seg {pre post : List (Addr × δ)} (p q : π) (x : Addr × δ) :
    (⟨x.1, mk x.2 (first node post q) (last node p pre)⟩ : Σ _ : Addr, β) ∈
      seg node mk p (pre ++ x :: post) q := by
  rw [seg_append, seg_cons]
  simp [cell]

end

/-! ## Chains -/

section
variable (mk : δ → π → β)

/-- The nodes `xs` linked forward, the last one to `e`. -/
def chain : List (Addr × δ) → π → Ledger β
  | [], _ => 0
  | x :: xs, e => cell x.1 (mk x.2 (first node xs e)) + chain xs e

@[simp] theorem chain_nil (e : π) : chain node mk [] e = 0 := rfl

@[simp] theorem chain_cons (x : Addr × δ) (xs : List (Addr × δ)) (e : π) :
    chain node mk (x :: xs) e = cell x.1 (mk x.2 (first node xs e)) + chain node mk xs e := rfl

theorem chain_append (xs ys : List (Addr × δ)) (e : π) :
    chain node mk (xs ++ ys) e = chain node mk xs (first node ys e) + chain node mk ys e := by
  induction xs with
  | nil => simp
  | cons x xs ih =>
    rw [List.cons_append, chain_cons, chain_cons, ih, first_append]
    ac_rfl

theorem keys_chain (xs : List (Addr × δ)) (e : π) :
    (chain node mk xs e).map Sigma.fst = (↑(xs.map Prod.fst) : Multiset Addr) := by
  induction xs with
  | nil => rfl
  | cons x xs ih =>
    rw [chain_cons, Multiset.map_add, ih, cell, Multiset.map_singleton, Multiset.singleton_add,
      Multiset.cons_coe, List.map_cons]

theorem mem_chain {pre post : List (Addr × δ)} (x : Addr × δ) (e : π) :
    (⟨x.1, mk x.2 (first node post e)⟩ : Σ _ : Addr, β) ∈
      chain node mk (pre ++ x :: post) e := by
  induction pre with
  | nil => simp [cell]
  | cons y pre ih =>
    rw [List.cons_append, chain_cons]
    exact Multiset.mem_add.2 (.inr ih)

end

/-! ## Walks -/

/-- The pointers reached from `p` by `n` steps. -/
def follow (step : π → Option π) (p : π) : Nat → Option (List π)
  | 0 => some []
  | n + 1 =>
    match step p with
    | none => none
    | some q => (follow step q n).map (q :: ·)

/-- A walk from before the nodes visits them in order and arrives behind them. -/
theorem follow_first {step : π → Option π} : ∀ (xs : List (Addr × δ)) (p : π),
    step p = some (first node xs q) →
    (∀ pre x post, xs = pre ++ x :: post → step (node x.1) = some (first node post q)) →
    follow step p (xs.length + 1) = some (xs.map (fun x => node x.1) ++ [q])
  | [], p, hp, _ => by simp [follow, hp]
  | x :: xs, p, hp, hs => by
    have ih := follow_first xs (node x.1) (hs [] x xs rfl)
      fun pre y post he => hs (x :: pre) y post (by rw [he, List.cons_append])
    rw [first_cons] at hp
    rw [List.length_cons, follow]
    simp only [hp, ih]
    rfl

theorem follow_from_first {step : π → Option π} (xs : List (Addr × δ))
    (hs : ∀ pre x post, xs = pre ++ x :: post → step (node x.1) = some (first node post q)) :
    ∃ l, follow step (first node xs q) xs.length = some l ∧
      first node xs q :: l = xs.map (fun x => node x.1) ++ [q] := by
  cases xs with
  | nil => exact ⟨[], rfl, rfl⟩
  | cons x xs =>
    refine ⟨_, follow_first node xs (node x.1) (hs [] x xs rfl) ?_, rfl⟩
    intro pre y post he
    exact hs (x :: pre) y post (by rw [he, List.cons_append])

end Base.Dll
