import SkySdk.List.Defs

/-!
# The list's struct and nodes in the ledger

`whole l s xs` is the struct at `l` with the nodes `xs` linked between its sentinels, `halves` the
same with a gap: the nodes `pre` before it end in `q`, the nodes `post` behind it start from `p`.
Closing the gap, or filling it with a node, gives a whole list again, so that an operation in the
middle is two rules: write `next` before the gap, write `prev` behind it. The spare nodes are a
`chain`; they keep the data and the `prev` they had when they were pooled.
-/

set_option autoImplicit false

namespace Sky.LinkedList

open Base Base.Dll
open Block (list item)
open ItemPtr (null head tail node)

variable {h : Heap Block} {F : Ledger Block} {l a : Addr} {d : SkyHandleList} {x : SkyListItem}
  {p q : ItemPtr}

/-! ## Rules for the accesses -/

theorem loadList_ends {Q : SkyHandleList → Heap Block → Prop}
    (he : h.entries = cell l (list d) + F) (hq : Q d h) : Ends (loadList l) h Q := by
  unfold loadList
  rw [ends_bind]
  exact Ends.load he ((ends_pure d).2 hq)

theorem modifyList_ends {f : SkyHandleList → SkyHandleList} {Q : Unit → Heap Block → Prop}
    (he : h.entries = cell l (list d) + F)
    (hq : ∀ h' : Heap Block, h'.entries = cell l (list (f d)) + F → h'.log = h.log → Q () h') :
    Ends (modifyList l f) h Q := by
  unfold modifyList
  rw [ends_bind]
  refine loadList_ends he ?_
  exact Ends.store_log he hq

theorem loadHead_ends {Q : SkyListItem → Heap Block → Prop}
    (he : h.entries = cell l (list d) + F) (hq : Q d.head h) : Ends (loadItem (.head l)) h Q := by
  unfold loadItem
  rw [ends_bind]
  exact loadList_ends he ((ends_pure _).2 hq)

theorem loadTail_ends {Q : SkyListItem → Heap Block → Prop}
    (he : h.entries = cell l (list d) + F) (hq : Q d.tail h) : Ends (loadItem (tail l)) h Q := by
  unfold loadItem
  rw [ends_bind]
  exact loadList_ends he ((ends_pure _).2 hq)

theorem loadNode_ends {Q : SkyListItem → Heap Block → Prop}
    (he : h.entries = cell a (item x) + F) (hq : Q x h) : Ends (loadItem (node a)) h Q := by
  unfold loadItem
  rw [ends_bind]
  exact Ends.load he ((ends_pure x).2 hq)

theorem modifyNode_ends {f : SkyListItem → SkyListItem} {Q : Unit → Heap Block → Prop}
    (he : h.entries = cell a (item x) + F)
    (hq : ∀ h' : Heap Block, h'.entries = cell a (item (f x)) + F → h'.log = h.log → Q () h') :
    Ends (modifyItem (node a) f) h Q := by
  unfold modifyItem
  rw [ends_bind]
  refine Ends.load he ?_
  exact Ends.store_log he hq

theorem skyValidateHandle_ends {b : Build} {Q : Unit → Heap Block → Prop}
    (he : h.entries = cell l (list d) + F) (ht : d.handleType = SkyHandleType.list.code)
    (hq : Q () h) : Ends (skyValidateHandle b l) h Q := by
  have hl := Heap.ne_zero_of_mem (Heap.mem_of_entries he)
  unfold skyValidateHandle skyAssert
  rw [if_neg hl, ends_ite]
  refine ⟨fun _ => ?_, fun _ => (ends_pure _).2 hq⟩
  rw [ends_bind, ends_bind]
  refine loadList_ends he ?_
  rw [ends_pure, ht, beq_self_eq_true, if_pos rfl, ends_pure]
  exact hq

/-! ## The list with a gap -/

/-- What the struct holds besides the links of the sentinels. -/
structure Stats where
  prealloc : ItemPtr
  count : UInt32
  maxSize : UInt32

/-- The struct whose head links to `n` and whose tail links to `p`. -/
def struct (s : Stats) (n p : ItemPtr) : SkyHandleList :=
  { cb := 72
    handleType := SkyHandleType.list.code
    head := { data := 0, next := n, prev := .null }
    tail := { data := 0, next := .null, prev := p }
    prealloc := s.prealloc
    count := s.count
    maxSize := s.maxSize }

/-- Nodes: an address and the data pointer. -/
abbrev Nodes := List (Addr × Addr)

/-- Spare nodes: an address and the stale data and `prev`. -/
abbrev Spares := List (Addr × Addr × ItemPtr)

def liveItem (data : Addr) (next prev : ItemPtr) : Block := item ⟨data, next, prev⟩

def spareItem (stale : Addr × ItemPtr) (next : ItemPtr) : Block := item ⟨stale.1, next, stale.2⟩

def whole (l : Addr) (s : Stats) (xs : Nodes) : Ledger Block :=
  cell l (list (struct s (first node xs (tail l)) (last node (head l) xs))) +
    seg node liveItem (head l) xs (tail l)

def halves (l : Addr) (s : Stats) (pre : Nodes) (q p : ItemPtr) (post : Nodes) : Ledger Block :=
  cell l (list (struct s (first node pre q) (last node p post))) +
    seg node liveItem (head l) pre q + seg node liveItem p post (tail l)

variable {s : Stats} {pre post xs : Nodes}

/-- No gap. -/
theorem whole_append (l : Addr) (s : Stats) (pre post : Nodes) :
    whole l s (pre ++ post) =
      halves l s pre (first node post (tail l)) (last node (head l) pre) post := by
  unfold whole halves
  rw [seg_append, first_append, last_append]
  ac_rfl

/-- A node in the gap. -/
theorem whole_insert (l : Addr) (s : Stats) (pre post : Nodes) (a data : Addr) :
    whole l s (pre ++ (a, data) :: post) =
      halves l s pre (node a) (node a) post +
        cell a (liveItem data (first node post (tail l)) (last node (head l) pre)) := by
  unfold whole halves
  rw [seg_append, first_append, last_append, seg_cons, first_cons, last_cons]
  ac_rfl

/-- Write `next` before the gap. -/
theorem setNext_halves {n : ItemPtr} {Q : Unit → Heap Block → Prop}
    (he : h.entries = halves l s pre q p post + F)
    (hq : ∀ h' : Heap Block, h'.entries = halves l s pre n p post + F → h'.log = h.log → Q () h') :
    Ends (setNext (last node (head l) pre) n) h Q := by
  unfold halves at he
  rcases List.eq_nil_or_concat pre with rfl | ⟨pre, y, rfl⟩
  · refine modifyList_ends (F := seg node liveItem p post (tail l) + F)
      (by rw [he, seg_nil]; ac_rfl) ?_
    intro h' e hl
    refine hq h' ?_ hl
    unfold halves
    rw [e, seg_nil]
    simp only [struct, first_nil, add_zero]
    ac_rfl
  · rw [List.concat_eq_append] at he hq ⊢
    rw [last_snoc]
    rw [seg_snoc] at he
    refine modifyNode_ends (x := ⟨y.2, q, last node (head l) pre⟩)
      (F := cell l (list (struct s (first node (pre ++ [y]) q) (last node p post))) +
        seg node liveItem (head l) pre (node y.1) + seg node liveItem p post (tail l) + F)
      (by rw [he]; unfold liveItem; ac_rfl) ?_
    intro h' e hl
    refine hq h' ?_ hl
    unfold halves
    rw [e, seg_snoc, first_append, first_append]
    unfold liveItem
    ac_rfl

/-- Write `prev` behind the gap. -/
theorem setPrev_halves (post : Nodes) {n : ItemPtr} {Q : Unit → Heap Block → Prop}
    (he : h.entries = halves l s pre q p post + F)
    (hq : ∀ h' : Heap Block, h'.entries = halves l s pre q n post + F → h'.log = h.log → Q () h') :
    Ends (setPrev (first node post (tail l)) n) h Q := by
  unfold halves at he
  cases post with
  | nil =>
    refine modifyList_ends (F := seg node liveItem (head l) pre q + F)
      (by rw [he, seg_nil]; ac_rfl) ?_
    intro h' e hl
    refine hq h' ?_ hl
    unfold halves
    rw [e, seg_nil]
    simp only [struct, last_nil, add_zero]
    ac_rfl
  | cons y post =>
    rw [seg_cons] at he
    refine modifyNode_ends (x := ⟨y.2, first node post (tail l), p⟩)
      (F := cell l (list (struct s (first node pre q) (last node p (y :: post)))) +
        seg node liveItem (head l) pre q + seg node liveItem (node y.1) post (tail l) + F)
      (by rw [he]; unfold liveItem; ac_rfl) ?_
    intro h' e hl
    refine hq h' ?_ hl
    unfold halves
    rw [e, seg_cons, last_cons, last_cons]
    unfold liveItem
    ac_rfl

/-! ## The shape of a list -/

/-- The list `l` has the nodes `xs`, the spare nodes `ps` and room for `m` nodes; the rest of the
ledger is `F`. -/
structure Shape (h : Heap Block) (F : Ledger Block) (l : Addr) (m : UInt32) (xs : Nodes)
    (ps : Spares) : Prop where
  le : xs.length ≤ m.toNat
  ledger : h.entries = whole l ⟨first node ps null, .ofNat xs.length, m⟩ xs +
    chain node spareItem ps null + F

theorem toNat_count {n : Nat} {m : UInt32} (hn : n ≤ m.toNat) : (UInt32.ofNat n).toNat = n :=
  UInt32.toNat_ofNat_of_lt' (lt_of_le_of_lt hn m.toNat_lt)

theorem count_lt {n : Nat} {m : UInt32} (hn : n ≤ m.toNat) : UInt32.ofNat n < m ↔ n < m.toNat := by
  rw [UInt32.lt_iff_toNat_lt, toNat_count hn]

theorem count_pos {n : Nat} {m : UInt32} (hn : n ≤ m.toNat) : UInt32.ofNat n > 0 ↔ 0 < n := by
  rw [gt_iff_lt, UInt32.lt_iff_toNat_lt, toNat_count hn]
  rfl

theorem Shape.whole_eq {m : UInt32} {xs : Nodes} {ps : Spares} (S : Shape h F l m xs ps) :
    h.entries = whole l ⟨first node ps null, .ofNat xs.length, m⟩ xs +
      (chain node spareItem ps null + F) := by
  rw [S.ledger, add_assoc]

theorem count_succ (n : Nat) : UInt32.ofNat n + 1 = UInt32.ofNat (n + 1) := by
  rw [UInt32.ofNat_add]
  rfl

theorem count_pred (n : Nat) : UInt32.ofNat (n + 1) - 1 = UInt32.ofNat n := by
  rw [← count_succ, UInt32.add_sub_cancel]

variable {m : UInt32} {ps : Spares}

theorem length_lt_rounds {G : Ledger Block} {p : ItemPtr}
    (he : h.entries = seg node liveItem p xs q + G) :
    xs.length < h.size + 1 := by
  have hle := Heap.length_le_size he (keys_seg node liveItem p q xs)
  rw [List.length_map] at hle
  exact Nat.lt_succ_of_le hle

end Sky.LinkedList
