import SkySdk.List.Spec
import SkySdk.List.Proof.Own

/-!
# Adding to the list

The rules for a list in shape, and the three additions: each takes a node, prepares it and links it
in (`takeItem_cases`, `linkItem_ends`). `Post` is what a call leaves: the shape, the nodes moved,
the sequence changed as `seqCall` says.
-/

set_option autoImplicit false

namespace Sky.LinkedList

open Base Base.Dll
open Block (list item)
open ItemPtr (null head tail node)

variable {A : Allocator} {b : Build} {h : Heap Block} {F G : Ledger Block} {l a : Addr}
  {s : Stats} {m c : UInt32} {pre post xs : Nodes} {ps : Spares} {p q : ItemPtr}

/-! ## A list as struct and rest -/

theorem whole_struct (l : Addr) (s : Stats) (xs : Nodes) (G : Ledger Block) : whole l s xs + G =
    cell l (list (struct s (first node xs (tail l)) (last node (head l) xs))) +
      (seg node liveItem (head l) xs (tail l) + G) := by
  unfold whole
  ac_rfl

theorem modifyStats_ends {f : SkyHandleList → SkyHandleList} {t : Stats}
    {Q : Unit → Heap Block → Prop} (he : h.entries = whole l s xs + G)
    (hf : ∀ n p, f (struct s n p) = struct t n p)
    (hq : ∀ h' : Heap Block, h'.entries = whole l t xs + G → h'.log = h.log → Q () h') :
    Ends (modifyList l f) h Q := by
  rw [whole_struct] at he
  refine modifyList_ends he ?_
  intro h' e hl
  refine hq h' ?_ hl
  rw [e, hf, whole_struct]

theorem validate_ends {Q : Unit → Heap Block → Prop} (he : h.entries = whole l s xs + G)
    (hq : Q () h) : Ends (skyValidateHandle b l) h Q :=
  skyValidateHandle_ends (he.trans (whole_struct l s xs G)) rfl hq

theorem loadWhole_ends {Q : SkyHandleList → Heap Block → Prop} (he : h.entries = whole l s xs + G)
    (hq : Q (struct s (first node xs (tail l)) (last node (head l) xs)) h) :
    Ends (loadList l) h Q :=
  loadList_ends (he.trans (whole_struct l s xs G)) hq

theorem loadHead_whole {Q : SkyListItem → Heap Block → Prop} (he : h.entries = whole l s xs + G)
    (hq : Q ⟨0, first node xs (tail l), null⟩ h) : Ends (loadItem (head l)) h Q :=
  loadHead_ends (he.trans (whole_struct l s xs G)) hq

theorem loadTail_whole {Q : SkyListItem → Heap Block → Prop} (he : h.entries = whole l s xs + G)
    (hq : Q ⟨0, null, last node (head l) xs⟩ h) : Ends (loadItem (tail l)) h Q :=
  loadTail_ends (he.trans (whole_struct l s xs G)) hq

theorem loadNode_whole {d : Addr} {Q : SkyListItem → Heap Block → Prop}
    (he : h.entries = whole l s (pre ++ (a, d) :: post) + G)
    (hq : Q ⟨d, first node post (tail l), last node (head l) pre⟩ h) :
    Ends (loadItem (node a)) h Q := by
  rw [whole_insert] at he
  exact loadNode_ends (F := halves l s pre (node a) (node a) post + G)
    (by rw [he]; unfold liveItem; ac_rfl) hq

/-! ## Taking a node -/

theorem allocItem_ends {Q : ItemPtr → Heap Block → Prop}
    (h0 : ∀ h' : Heap Block, A.grants h.time = false → h'.entries = h.entries →
      h'.log = .malloc 0 :: h.log → Q null h')
    (h1 : ∀ a (h' : Heap Block), A.grants h.time = true → a ≠ 0 →
      h'.entries = cell a (item zeroItem) + h.entries → h'.log = .malloc a :: h.log →
      Q (node a) h') :
    Ends (allocItem A) h Q := by
  unfold allocItem
  rw [ends_bind]
  refine Ends.malloc_log ?_ ?_
  · intro h' hg e hl
    rw [if_pos rfl, ends_pure]
    exact h0 h' hg e hl
  · intro a h' hg ha e hl
    rw [if_neg ha, ends_pure]
    exact h1 a h' hg ha e hl

/-- A node is taken from the pool; from an empty pool one is allocated, if the allocator grants
it. -/
theorem takeItem_ends {onEmpty : ListM Unit} {Q : ItemPtr → Heap Block → Prop}
    (he : h.entries = whole l ⟨first node ps null, c, m⟩ xs + chain node spareItem ps null + F)
    (hon : ps = [] → onEmpty h = .ok ((), h))
    (h0 : ∀ h' : Heap Block, ps = [] → A.grants h.time = false → h'.entries = h.entries →
      h'.log = .malloc 0 :: h.log → Q null h')
    (h1 : ∀ a (h' : Heap Block), ps = [] → A.grants h.time = true → a ≠ 0 →
      h'.entries = cell a (item zeroItem) + (whole l ⟨null, c, m⟩ xs + F) →
      h'.log = .malloc a :: h.log → Q (node a) h')
    (h2 : ∀ a y ps' (h' : Heap Block), ps = (a, y) :: ps' →
      h'.entries = cell a (spareItem y (first node ps' null)) +
        (whole l ⟨first node ps' null, c, m⟩ xs + chain node spareItem ps' null + F) →
      h'.log = h.log → Q (node a) h') :
    Ends (takeItem A onEmpty l) h Q := by
  unfold takeItem
  rw [ends_bind]
  refine loadWhole_ends (G := chain node spareItem ps null + F) (by rw [he]; ac_rfl) ?_
  cases ps with
  | nil =>
    rw [if_pos (by rfl), ends_bind, ends_of_eq (hon rfl)]
    refine allocItem_ends ?_ ?_
    · intro h' hg e hl
      exact h0 h' rfl hg e hl
    · intro a h' hg ha e hl
      refine h1 a h' rfl hg ha ?_ hl
      rw [e, he]
      simp
  | cons y ps' =>
    obtain ⟨a, y⟩ := y
    have hcell : h.entries = cell a (spareItem y (first node ps' null)) +
        (whole l ⟨node a, c, m⟩ xs + chain node spareItem ps' null + F) := by
      rw [he, chain_cons, first_cons]
      ac_rfl
    rw [if_neg (by simp [struct]), ends_bind]
    refine loadNode_ends hcell ?_
    rw [ends_bind]
    refine modifyStats_ends (t := ⟨first node ps' null, c, m⟩)
      (G := cell a (spareItem y (first node ps' null)) + chain node spareItem ps' null + F)
      (by rw [hcell]; ac_rfl) (fun _ _ => rfl) ?_
    intro h' e hl
    rw [ends_pure]
    refine h2 a y ps' h' rfl ?_ hl
    rw [e]
    ac_rfl

/-- A prepared node is linked in between its neighbours. -/
theorem linkItem_ends {d : Addr} {Q : Unit → Heap Block → Prop} (hxs : xs = pre ++ post)
    (he : h.entries = cell a (item ⟨d, first node post (tail l), last node (head l) pre⟩) +
      (whole l s xs + G))
    (hq : ∀ h' : Heap Block,
      h'.entries = whole l { s with count := s.count + 1 } (pre ++ (a, d) :: post) + G →
      h'.log = h.log → Q () h') :
    Ends (linkItem l (node a)) h Q := by
  subst hxs
  unfold linkItem
  rw [ends_bind]
  refine loadNode_ends he ?_
  rw [whole_append] at he
  rw [ends_bind]
  refine setNext_halves
    (F := cell a (item ⟨d, first node post (tail l), last node (head l) pre⟩) + G)
    (by rw [he]; ac_rfl) ?_
  intro h1 e1 hl1
  rw [ends_bind]
  refine loadNode_ends
    (F := halves l s pre (node a) (last node (head l) pre) post + G) (by rw [e1]; ac_rfl) ?_
  rw [ends_bind]
  refine setPrev_halves post e1 ?_
  intro h2 e2 hl2
  have e2' : h2.entries = whole l s (pre ++ (a, d) :: post) + G := by
    rw [e2, whole_insert]
    unfold liveItem
    ac_rfl
  refine modifyStats_ends (t := { s with count := s.count + 1 }) e2' (fun _ _ => rfl) ?_
  intro h3 e3 hl3
  exact hq h3 e3 (hl3.trans (hl2.trans hl1))

/-! ## What an operation leaves -/

/-- The data pointers in order. -/
def datas (xs : Nodes) : List Addr := xs.map Prod.snd

/-- The addresses of the live and the spare nodes. -/
def addrs (xs : Nodes) (ps : Spares) : List Addr := xs.map Prod.fst ++ ps.map Prod.fst

/-- A node can be had. -/
def room (A : Allocator) (h : Heap Block) (ps : Spares) : Bool := !ps.isEmpty || A.grants h.time

/-- Nodes are moved between list and pool without an allocator call, or, the pool being empty, one
more is asked for. -/
def Moved (h h' : Heap Block) (xs : Nodes) (ps : Spares) (xs' : Nodes) (ps' : Spares) : Prop :=
  (h'.log = h.log ∧ (addrs xs' ps').Perm (addrs xs ps)) ∨
    (ps = [] ∧ ps' = [] ∧ ((h'.log = .malloc 0 :: h.log ∧ xs' = xs) ∨
      ∃ a, a ≠ 0 ∧ h'.log = .malloc a :: h.log ∧ (addrs xs' ps').Perm (a :: addrs xs ps)))

/-- The list after the call `c` that answers `r`. -/
def Post (A : Allocator) (h : Heap Block) (F : Ledger Block) (l : Addr) (m : UInt32) (xs : Nodes)
    (ps : Spares) (c : Call) (r : Resp) (h' : Heap Block) : Prop :=
  ∃ xs' ps', Shape h' F l m xs' ps' ∧ Moved h h' xs ps xs' ps' ∧
    (r, datas xs') = seqCall m.toNat (room A h ps) (datas xs) c ∧
    (datas xs' = datas xs → h'.entries = h.entries)

theorem Moved.refl (h : Heap Block) (xs : Nodes) (ps : Spares) : Moved h h xs ps xs ps :=
  .inl ⟨rfl, List.Perm.refl _⟩

/-- A call that changes nothing. -/
theorem Post.same {c : Call} {r : Resp} (S : Shape h F l m xs ps)
    (hr : (r, datas xs) = seqCall m.toNat (room A h ps) (datas xs) c) :
    Post A h F l m xs ps c r h :=
  ⟨xs, ps, S, Moved.refl h xs ps, hr, fun _ => rfl⟩

/-- The node `a` comes from the allocator or from the front of the pool. -/
def Taken (h h' : Heap Block) (a : Addr) (ps ps' : Spares) : Prop :=
  (ps = [] ∧ ps' = [] ∧ a ≠ 0 ∧ h'.log = .malloc a :: h.log) ∨
    (∃ y, ps = (a, y) :: ps' ∧ h'.log = h.log)

theorem Post.refused {c : Call} {xs' : List Addr} {h' : Heap Block} (S : Shape h F l m xs ps)
    (hps : ps = []) (hg : A.grants h.time = false) (he : h'.entries = h.entries)
    (hl : h'.log = .malloc 0 :: h.log)
    (hc : seqCall m.toNat (room A h ps) (datas xs) c =
      seqAdd m.toNat (room A h ps) (datas xs) xs') :
    Post A h F l m xs ps c (.bool false) h' := by
  refine ⟨xs, ps, ⟨S.le, he.trans S.ledger⟩, .inr ⟨hps, hps, .inl ⟨hl, rfl⟩⟩, ?_, fun _ => he⟩
  rw [hc, seqAdd, if_neg (by simp [room, hps, hg])]

theorem Post.added {c : Call} {d : Addr} {ps' : Spares} {h1 h' : Heap Block}
    (hxs : xs = pre ++ post) (S : Shape h F l m xs ps) (hlt : xs.length < m.toNat)
    (hg : ps = [] → A.grants h.time = true) (ht : Taken h h1 a ps ps') (hl : h'.log = h1.log)
    (he : h'.entries = whole l ⟨first node ps' null, .ofNat xs.length + 1, m⟩
      (pre ++ (a, d) :: post) + (chain node spareItem ps' null + F))
    (hc : seqCall m.toNat (room A h ps) (datas xs) c =
      seqAdd m.toNat (room A h ps) (datas xs) (datas pre ++ d :: datas post)) :
    Post A h F l m xs ps c (.bool true) h' := by
  subst hxs
  have hroom : room A h ps = true := by
    cases ps with
    | nil => simp [room, hg rfl]
    | cons y ps => rfl
  have hperm : (addrs (pre ++ (a, d) :: post) ps').Perm (a :: addrs (pre ++ post) ps') := by
    simp only [addrs, List.map_append, List.map_cons, List.append_assoc, List.cons_append]
    exact List.perm_middle
  refine ⟨pre ++ (a, d) :: post, ps', ⟨?_, ?_⟩, ?_, ?_, fun hd => ?_⟩
  · simp only [List.length_append, List.length_cons] at hlt ⊢
    omega
  · have hlen : (pre ++ (a, d) :: post).length = (pre ++ post).length + 1 := by
      simp only [List.length_append, List.length_cons]
      omega
    rw [he, count_succ, hlen, ← add_assoc]
  · rcases ht with ⟨rfl, rfl, ha, hl1⟩ | ⟨y, rfl, hl1⟩
    · exact .inr ⟨rfl, rfl, .inr ⟨a, ha, hl.trans hl1, hperm⟩⟩
    · refine .inl ⟨hl.trans hl1, hperm.trans ?_⟩
      simp only [addrs, List.map_cons]
      exact List.perm_middle.symm
  · rw [hc, seqAdd, if_pos ⟨by simpa [datas] using hlt, hroom⟩]
    simp [datas]
  · have hlen := congrArg List.length hd
    simp [datas] at hlen

/-- A node is taken, whether it comes from the pool or not. -/
theorem takeItem_cases {onEmpty : ListM Unit} {Q : ItemPtr → Heap Block → Prop}
    (S : Shape h F l m xs ps) (hon : ps = [] → onEmpty h = .ok ((), h))
    (h0 : ∀ h' : Heap Block, ps = [] → A.grants h.time = false → h'.entries = h.entries →
      h'.log = .malloc 0 :: h.log → Q null h')
    (h1 : ∀ a x ps' (h' : Heap Block), (ps = [] → A.grants h.time = true) → Taken h h' a ps ps' →
      h'.entries = cell a (item x) + (whole l ⟨first node ps' null, .ofNat xs.length, m⟩ xs +
        (chain node spareItem ps' null + F)) → Q (node a) h') :
    Ends (takeItem A onEmpty l) h Q := by
  refine takeItem_ends S.ledger hon h0 ?_ ?_
  · intro a h' hps hg ha e hl
    refine h1 a zeroItem [] h' (fun _ => hg) (.inl ⟨hps, rfl, ha, hl⟩) ?_
    rw [e, chain_nil, zero_add, first_nil]
  · intro a y ps' h' hps e hl
    refine h1 a ⟨y.1, first node ps' null, y.2⟩ ps' h' (fun h0 => ?_) (.inr ⟨y, hps, hl⟩) ?_
    · rw [hps] at h0
      cases h0
    · rw [e]
      unfold spareItem
      ac_rfl

theorem seqInsert_eq (i : Nat) (d : Addr) (xs : List Addr) :
    seqInsert i d xs = xs.take i ++ d :: xs.drop i := by
  unfold seqInsert
  rcases le_total i xs.length with hi | hi
  · rw [min_eq_left hi]
  · rw [min_eq_right hi, List.take_length, List.drop_length, List.take_of_length_le hi,
      List.drop_of_length_le hi]

/-! ## Additions -/

/-- An addition: `body` links in the node that was taken. -/
theorem addition_ends {onEmpty : ListM Unit} {body : ItemPtr → ListM Bool} {c : Call}
    {xs' : List Addr} (S : Shape h F l m xs ps)
    (hon : ps = [] → xs.length < m.toNat → onEmpty h = .ok ((), h))
    (hc : seqCall m.toNat (room A h ps) (datas xs) c =
      seqAdd m.toNat (room A h ps) (datas xs) xs')
    (hbody : ∀ a x ps' (h1 : Heap Block), xs.length < m.toNat →
      (ps = [] → A.grants h.time = true) → Taken h h1 a ps ps' →
      h1.entries = cell a (item x) + (whole l ⟨first node ps' null, .ofNat xs.length, m⟩ xs +
        (chain node spareItem ps' null + F)) →
      Ends (body (node a)) h1 fun r h' => Post A h F l m xs ps c (.bool r) h') :
    Ends (do
      skyValidateHandle b l
      let l' ← loadList l
      if l'.count < l'.maxSize then do
        let item ← takeItem A onEmpty l
        if item = .null then pure false else body item
      else pure false) h fun r h' => Post A h F l m xs ps c (.bool r) h' := by
  have hw := S.whole_eq
  rw [ends_bind]
  refine validate_ends hw ?_
  rw [ends_bind]
  refine loadWhole_ends hw ?_
  simp only [struct, count_lt S.le]
  by_cases hlt : xs.length < m.toNat
  · rw [if_pos hlt, ends_bind]
    refine takeItem_cases S (fun hps => hon hps hlt) ?_ ?_
    · intro h1 hps hg e1 hl1
      rw [if_pos rfl, ends_pure]
      exact Post.refused S hps hg e1 hl1 hc
    · intro a x ps' h1 hg ht e1
      rw [if_neg (by simp)]
      exact hbody a x ps' h1 hlt hg ht e1
  · rw [if_neg hlt, ends_pure]
    refine Post.same S ?_
    rw [hc, seqAdd, if_neg (fun hfit => hlt (by simpa [datas] using hfit.1))]

theorem skyListPushFront_ends (S : Shape h F l m xs ps) (d : Addr) :
    Ends (skyListPushFront A b l d) h fun r h' =>
      Post A h F l m xs ps (.pushFront d) (.bool r) h' := by
  refine addition_ends S (fun _ _ => rfl) rfl ?_
  intro a x ps' h1 hlt hg ht e1
  rw [ends_bind]
  refine modifyNode_ends e1 ?_
  intro h2 e2 hl2
  rw [ends_bind]
  refine modifyNode_ends e2 ?_
  intro h3 e3 hl3
  rw [ends_bind]
  refine loadHead_whole (e3.trans (add_left_comm _ _ _)) ?_
  rw [ends_bind]
  refine modifyNode_ends e3 ?_
  intro h4 e4 hl4
  rw [ends_bind]
  refine linkItem_ends (List.nil_append xs).symm e4 ?_
  intro h5 e5 hl5
  rw [ends_pure]
  exact Post.added (List.nil_append xs).symm S hlt hg ht
    (hl5.trans (hl4.trans (hl3.trans hl2))) e5 rfl

theorem skyListPushBack_ends (S : Shape h F l m xs ps) (d : Addr) :
    Ends (skyListPushBack A b l d) h fun r h' =>
      Post A h F l m xs ps (.pushBack d) (.bool r) h' := by
  refine addition_ends S (fun _ _ => rfl) rfl ?_
  intro a x ps' h1 hlt hg ht e1
  rw [ends_bind]
  refine modifyNode_ends e1 ?_
  intro h2 e2 hl2
  rw [ends_bind]
  refine loadTail_whole (e2.trans (add_left_comm _ _ _)) ?_
  rw [ends_bind]
  refine modifyNode_ends e2 ?_
  intro h3 e3 hl3
  rw [ends_bind]
  refine modifyNode_ends e3 ?_
  intro h4 e4 hl4
  rw [ends_bind]
  refine linkItem_ends (List.append_nil xs).symm e4 ?_
  intro h5 e5 hl5
  rw [ends_pure]
  exact Post.added (List.append_nil xs).symm S hlt hg ht
    (hl5.trans (hl4.trans (hl3.trans hl2))) e5 rfl

/-- The item at the start of `post`, which may be the tail. -/
theorem loadFirst_ends {Q : SkyListItem → Heap Block → Prop} (hxs : xs = pre ++ post)
    (he : h.entries = whole l s xs + G)
    (hq : ∀ x : SkyListItem, x.prev = last node (head l) pre →
      (post = [] → x.next = null) →
      (∀ y post', post = y :: post' → x.next = first node post' (tail l) ∧ x.data = y.2) → Q x h) :
    Ends (loadItem (first node post (tail l))) h Q := by
  subst hxs
  cases post with
  | nil =>
    rw [List.append_nil] at he
    refine loadTail_whole he (hq _ rfl (fun _ => rfl) ?_)
    intro y post' hp
    cases hp
  | cons y post =>
    refine loadNode_whole he (hq _ rfl (fun hp => ?_) ?_)
    · cases hp
    · rintro z post' hp
      cases hp
      exact ⟨rfl, rfl⟩

/-- The walk of `n` steps ends `n` nodes further, or behind the tail. -/
theorem stepsTo_ends : ∀ (n : Nat) (pre post : Nodes),
    h.entries = whole l s (pre ++ post) + G →
    Ends (stepsTo (first node post (tail l)) n) h fun r h' => h' = h ∧
      (if r = null then tail l else r) = first node (post.drop n) (tail l) ∧
      (n < post.length → r ≠ null)
  | 0, pre, post, _ => by
    have hn : first node post (tail l) ≠ null := by cases post <;> simp
    rw [stepsTo, ends_pure, if_neg hn]
    exact ⟨rfl, rfl, fun _ => hn⟩
  | n + 1, pre, post, he => by
    have hn : first node post (tail l) ≠ null := by cases post <;> simp
    rw [stepsTo, if_neg hn, ends_bind]
    refine loadFirst_ends rfl he ?_
    intro x _ hnil hcons
    cases post with
    | nil =>
      rw [hnil rfl]
      -- the tail's `next` is NULL, where the walk stops
      have hstop : stepsTo null n h = .ok (null, h) := by cases n <;> rfl
      rw [ends_of_eq hstop]
      exact ⟨rfl, by simp, fun hc => by simp at hc⟩
    | cons y post =>
      rw [(hcons y post rfl).1]
      refine (stepsTo_ends n (pre ++ [y]) post (by rw [he, List.append_assoc]; rfl)).mono ?_
      intro r h' hr
      exact ⟨hr.1, by simpa using hr.2.1, fun hc => hr.2.2 (by simpa using hc)⟩

theorem skyListInsert_ends (S : Shape h F l m xs ps) (i : UInt32) (d : Addr)
    (hb : b.assertAborts = true → ps = [] → m.toNat ≤ xs.length) :
    Ends (skyListInsert A b l i d) h fun r h' =>
      Post A h F l m xs ps (.insert i d) (.bool r) h' := by
  have hon : ps = [] → xs.length < m.toNat →
      (skyAssert b (pure false) : ListM Unit) h = .ok ((), h) := by
    intro hps hlt
    cases hab : b.assertAborts with
    | false => simp [skyAssert, hab]
    | true => exact absurd (hb hab hps) (by omega)
  refine addition_ends S hon rfl ?_
  intro a x ps' h1 hlt hg ht e1
  -- the new node goes between `pre` and `post`
  obtain ⟨pre, post, hxs, hpre, hpost⟩ : ∃ pre post : Nodes, xs = pre ++ post ∧
      pre = xs.take i.toNat ∧ post = xs.drop i.toNat :=
    ⟨_, _, (List.take_append_drop i.toNat xs).symm, rfl, rfl⟩
  have e1w : h1.entries = whole l ⟨first node ps' null, .ofNat xs.length, m⟩ ([] ++ xs) +
      (cell a (item x) + (chain node spareItem ps' null + F)) := by
    rw [e1, List.nil_append]
    ac_rfl
  rw [ends_bind]
  refine loadHead_whole e1w ?_
  rw [List.nil_append, ends_bind]
  refine (stepsTo_ends i.toNat [] xs e1w).mono ?_
  rintro r h1' ⟨rfl, hr, -⟩
  rw [hr, ← hpost, ends_bind]
  refine modifyNode_ends e1 ?_
  intro h2 e2 hl2
  rw [ends_bind]
  refine modifyNode_ends e2 ?_
  intro h3 e3 hl3
  rw [ends_bind]
  refine loadFirst_ends hxs (e3.trans (add_left_comm _ _ _)) ?_
  intro y hy _ _
  rw [hy, ends_bind]
  refine modifyNode_ends e3 ?_
  intro h4 e4 hl4
  rw [ends_bind]
  refine linkItem_ends hxs e4 ?_
  intro h5 e5 hl5
  rw [ends_pure]
  refine Post.added hxs S hlt hg ht (hl5.trans (hl4.trans (hl3.trans hl2))) e5 ?_
  rw [seqCall, seqInsert_eq, hpre, hpost]
  simp only [datas, List.map_take, List.map_drop]

end Sky.LinkedList
