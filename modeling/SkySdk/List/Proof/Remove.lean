import SkySdk.List.Proof.Ops

/-!
# Removing from the list, and searching it

A removal takes a node out of a gap it opens (`setNext_halves`, `setPrev_halves`) and pools it
(`poolItem_ends`); the searches find the first node whose data satisfies the predicate
(`findItem_ends`); clearing pools the nodes one by one and repairs one link at the end.
-/

set_option autoImplicit false

namespace Sky.LinkedList

open Base Base.Dll
open Block (list item)
open ItemPtr (null head tail node)

variable {A : Allocator} {b : Build} {h : Heap Block} {F G : Ledger Block} {l a : Addr}
  {s : Stats} {m c : UInt32} {pre post xs : Nodes} {ps : Spares} {p q : ItemPtr}

/-! ## Removals -/

/-- A node that is out of the list goes to the front of the pool, with its data and its `prev`. -/
theorem poolItem_ends {x : SkyListItem} {Q : Unit → Heap Block → Prop}
    (he : h.entries = cell a (item x) + (cell l (list (struct ⟨first node ps null, c, m⟩ p q)) +
      (chain node spareItem ps null + G)))
    (hq : ∀ h' : Heap Block, h'.entries = cell l (list (struct ⟨node a, c, m⟩ p q)) +
      (chain node spareItem ((a, x.data, x.prev) :: ps) null + G) → h'.log = h.log → Q () h') :
    Ends (poolItem l (node a)) h Q := by
  unfold poolItem
  rw [ends_bind]
  refine loadList_ends (he.trans (add_left_comm _ _ _)) ?_
  rw [ends_bind]
  refine modifyNode_ends he ?_
  intro h1 e1 hl1
  refine modifyList_ends (e1.trans (add_left_comm _ _ _)) ?_
  intro h2 e2 hl2
  refine hq h2 ?_ (hl2.trans hl1)
  rw [e2, chain_cons]
  unfold spareItem
  dsimp only [struct]
  ac_rfl

/-- A removal that has taken the node `a` out between `pre` and `post` and pooled it. -/
theorem Post.removed {k : Call} {d : Addr} {h' : Heap Block} {y : Addr × ItemPtr}
    (hxs : xs = pre ++ (a, d) :: post) (S : Shape h F l m xs ps) (hl : h'.log = h.log)
    (he : h'.entries = whole l ⟨node a, .ofNat (pre ++ post).length, m⟩ (pre ++ post) +
      (chain node spareItem ((a, y) :: ps) null + F))
    (hc : seqCall m.toNat (room A h ps) (datas xs) k = (.ptr d, datas pre ++ datas post)) :
    Post A h F l m xs ps k (.ptr d) h' := by
  subst hxs
  refine ⟨pre ++ post, (a, y) :: ps, ⟨?_, ?_⟩, .inl ⟨hl, ?_⟩, ?_, fun hd => ?_⟩
  · have hle := S.le
    simp only [List.length_append, List.length_cons] at hle ⊢
    omega
  · rw [he, ← add_assoc]
    rfl
  · simp only [addrs, List.map_append, List.map_cons, List.append_assoc, List.cons_append]
    refine (List.perm_append_left_iff _).2 ?_
    exact List.perm_middle
  · rw [hc]
    simp [datas]
  · have hlen := congrArg List.length hd
    simp [datas] at hlen

/-- The state of a removal after the node is out: count it off, pool it, read its data. -/
theorem drop_ends {k : Call} {d : Addr} {h1 : Heap Block}
    (hxs : xs = pre ++ (a, d) :: post) (S : Shape h F l m xs ps) (hl : h1.log = h.log)
    (he : h1.entries = whole l ⟨first node ps null, .ofNat xs.length, m⟩ (pre ++ post) +
      (cell a (item ⟨d, first node post (tail l), last node (head l) pre⟩) +
        (chain node spareItem ps null + F)))
    (hc : seqCall m.toNat (room A h ps) (datas xs) k = (.ptr d, datas pre ++ datas post)) :
    Ends (do
        modifyList l fun l => { l with count := l.count - 1 }
        poolItem l (node a)
        pure (← loadItem (node a)).data) h1 fun r h' => Post A h F l m xs ps k (.ptr r) h' := by
  have hlen : xs.length = (pre ++ post).length + 1 := by
    rw [hxs, List.length_append, List.length_append, List.length_cons]
    omega
  rw [ends_bind]
  refine modifyStats_ends (t := ⟨first node ps null, .ofNat (pre ++ post).length, m⟩) he ?_ ?_
  · intro n p
    simp only [struct, hlen, count_pred]
  intro h2 e2 hl2
  rw [whole_struct] at e2
  rw [ends_bind]
  refine poolItem_ends (G := seg node liveItem (head l) (pre ++ post) (tail l) + F)
    (by rw [e2]; ac_rfl) ?_
  intro h3 e3 hl3
  have e3' : h3.entries = whole l ⟨node a, .ofNat (pre ++ post).length, m⟩ (pre ++ post) +
      (chain node spareItem ((a, d, last node (head l) pre) :: ps) null + F) := by
    rw [e3]
    unfold whole
    ac_rfl
  have hcell : h3.entries = cell a (spareItem (d, last node (head l) pre) (first node ps null)) +
      (whole l ⟨node a, .ofNat (pre ++ post).length, m⟩ (pre ++ post) +
        (chain node spareItem ps null + F)) := by
    rw [e3', chain_cons]
    ac_rfl
  rw [ends_bind]
  refine loadNode_ends hcell ?_
  rw [ends_pure]
  exact Post.removed hxs S (hl3.trans (hl2.trans hl)) e3' hc

theorem skyListPopFront_ends (S : Shape h F l m xs ps) :
    Ends (skyListPopFront b l) h fun r h' => Post A h F l m xs ps .popFront (.ptr r) h' := by
  have hw := S.whole_eq
  unfold skyListPopFront
  rw [ends_bind]
  refine validate_ends hw ?_
  rw [ends_bind]
  refine loadWhole_ends hw ?_
  rw [ends_ite]
  cases xs with
  | nil =>
    refine ⟨fun hc => absurd ((count_pos S.le).1 hc) (Nat.lt_irrefl 0), fun _ => ?_⟩
    exact (ends_pure _).2 (Post.same S rfl)
  | cons x xs =>
    obtain ⟨a, d⟩ := x
    refine ⟨fun _ => ?_, fun hc => absurd ((count_pos S.le).2 (Nat.succ_pos _)) hc⟩
    rw [ends_ite]
    refine ⟨fun _ => ?_, fun hc => absurd (by simp [struct]) hc⟩
    rw [ends_bind]
    have hw' : h.entries = whole l ⟨first node ps null, .ofNat ((a, d) :: xs).length, m⟩
        ([] ++ (a, d) :: xs) + (chain node spareItem ps null + F) := hw
    refine loadNode_whole hw' ?_
    rw [whole_insert] at hw'
    rw [ends_bind]
    refine setNext_halves (hw'.trans (add_assoc _ _ _)) ?_
    intro h1 e1 hl1
    rw [ends_bind]
    refine loadNode_ends (e1.trans (add_left_comm _ _ _)) ?_
    rw [ends_bind]
    refine setPrev_halves xs e1 ?_
    intro h2 e2 hl2
    rw [← whole_append] at e2
    exact drop_ends (k := .popFront) rfl S (hl2.trans hl1) e2 rfl

theorem skyListPopBack_ends (S : Shape h F l m xs ps) :
    Ends (skyListPopBack b l) h fun r h' => Post A h F l m xs ps .popBack (.ptr r) h' := by
  have hw := S.whole_eq
  unfold skyListPopBack
  rw [ends_bind]
  refine validate_ends hw ?_
  rw [ends_bind]
  refine loadWhole_ends hw ?_
  rw [ends_ite]
  rcases List.eq_nil_or_concat xs with rfl | ⟨pre, x, rfl⟩
  · refine ⟨fun hc => absurd ((count_pos S.le).1 hc) (Nat.lt_irrefl 0), fun _ => ?_⟩
    exact (ends_pure _).2 (Post.same S rfl)
  · rw [List.concat_eq_append] at S hw ⊢
    obtain ⟨a, d⟩ := x
    have hn : first node (pre ++ [(a, d)]) (tail l) ≠ tail l := by cases pre <;> simp
    refine ⟨fun _ => ?_, fun hc => absurd ((count_pos S.le).2 (by simp)) hc⟩
    rw [ends_ite]
    refine ⟨fun _ => ?_, fun hc => absurd hn hc⟩
    simp only [struct]
    rw [last_snoc, ends_bind]
    refine loadNode_whole hw ?_
    rw [whole_insert] at hw
    rw [ends_bind]
    refine setPrev_halves [] (hw.trans (add_assoc _ _ _)) ?_
    intro h1 e1 hl1
    rw [ends_bind]
    refine loadNode_ends (e1.trans (add_left_comm _ _ _)) ?_
    rw [ends_bind]
    refine setNext_halves e1 ?_
    intro h2 e2 hl2
    rw [← whole_append] at e2
    refine drop_ends (k := .popBack) rfl S (hl2.trans hl1) e2 ?_
    simp [seqCall, datas, orNull]

/-! ## Searches -/

theorem find?_split {α : Type} {f : α → Bool} {zs ys : List α} {d : α}
    (hz : ∀ y ∈ zs, f y = false) (hd : f d = true) : (zs ++ d :: ys).find? f = some d := by
  rw [List.find?_append, List.find?_eq_none.2 (by simpa using hz), Option.none_or,
    List.find?_cons_of_pos hd]

theorem seqRemove_split {f : Addr → Bool} {zs ys : List Addr} {d : Addr}
    (hz : ∀ y ∈ zs, f y = false) (hd : f d = true) :
    seqRemove f (zs ++ d :: ys) = zs ++ ys := by
  induction zs with
  | nil => simp [seqRemove, hd]
  | cons z zs ih =>
    have hz0 := hz z List.mem_cons_self
    have ih := ih fun y hy => hz y (List.mem_cons_of_mem z hy)
    simp [seqRemove, hz0, ih]

theorem seqRemove_none {f : Addr → Bool} {ys : List Addr} (hn : ∀ y ∈ ys, f y = false) :
    seqRemove f ys = ys := by
  induction ys with
  | nil => rfl
  | cons y ys ih =>
    have hy0 := hn y List.mem_cons_self
    have ih := ih fun z hz => hn z (List.mem_cons_of_mem y hz)
    simp [seqRemove, hy0, ih]

/-- The search stops at the first match, or at the tail. -/
theorem findFrom_ends (f : SkyListCmpFunc) (p1 p2 : Addr) (he : h.entries = whole l s xs + G) :
    ∀ (n : Nat) (pre ys : Nodes), xs = pre ++ ys → ys.length < n →
      Ends (findFrom l (some f) p1 p2 (first node ys (tail l)) n) h fun r h' => h' = h ∧
        ((r = tail l ∧ ∀ y ∈ datas ys, f y p1 p2 = false) ∨
          ∃ zs a d post, ys = zs ++ (a, d) :: post ∧ r = node a ∧ f d p1 p2 = true ∧
            ∀ y ∈ datas zs, f y p1 p2 = false)
  | 0, _, ys, _, hn => absurd hn (Nat.not_lt_zero _)
  | n + 1, pre, [], _, _ => by
    rw [findFrom, first_nil, if_pos rfl, ends_pure]
    exact ⟨rfl, .inl ⟨rfl, fun y hy => by cases hy⟩⟩
  | n + 1, pre, (a, d) :: ys, hxs, hn => by
    rw [findFrom, first_cons, if_neg (by simp), ends_bind]
    refine loadNode_whole (hxs ▸ he) ?_
    rw [ends_bind, callCmp, ends_pure]
    cases hd : f d p1 p2 with
    | true =>
      rw [if_pos rfl, ends_pure]
      exact ⟨rfl, .inr ⟨[], a, d, ys, rfl, rfl, hd, fun y hy => by cases hy⟩⟩
    | false =>
      rw [if_neg (by decide)]
      have hxs' : xs = (pre ++ [(a, d)]) ++ ys := by rw [hxs, List.append_assoc]; rfl
      have ih := findFrom_ends f p1 p2 he n (pre ++ [(a, d)]) ys hxs' (Nat.lt_of_succ_lt_succ hn)
      refine ih.mono ?_
      rintro r h' ⟨rfl, hr⟩
      refine ⟨rfl, ?_⟩
      have hall : ∀ {zs : Nodes}, (∀ y ∈ datas zs, f y p1 p2 = false) →
          ∀ y ∈ datas ((a, d) :: zs), f y p1 p2 = false := by
        intro zs hz y hy
        rcases List.mem_cons.1 hy with rfl | hy
        · exact hd
        · exact hz y hy
      rcases hr with ⟨hr, hz⟩ | ⟨zs, a', d', post, rfl, hr, hd', hz⟩
      · exact .inl ⟨hr, hall hz⟩
      · exact .inr ⟨(a, d) :: zs, a', d', post, rfl, hr, hd', hall hz⟩

/-- The search from the head: nothing found, or the split at the first match. -/
theorem findItem_ends (f : SkyListCmpFunc) (p1 p2 : Addr) (S : Shape h F l m xs ps)
    {Q : ItemPtr → Heap Block → Prop}
    (h0 : (∀ y ∈ datas xs, f y p1 p2 = false) → Q (tail l) h)
    (h1 : ∀ zs a d post, xs = zs ++ (a, d) :: post → f d p1 p2 = true →
      (∀ y ∈ datas zs, f y p1 p2 = false) → Q (node a) h) :
    Ends (findItem l (some f) p1 p2) h Q := by
  have hw := S.whole_eq
  have hrounds : xs.length < h.size + 1 := by
    rw [whole_struct, add_left_comm] at hw
    exact length_lt_rounds hw
  unfold findItem
  rw [ends_bind]
  refine loadHead_whole hw ?_
  rw [ends_bind, ends_of_eq (rfl : walkRounds h = .ok (h.size + 1, h))]
  refine (findFrom_ends f p1 p2 hw (h.size + 1) [] xs rfl hrounds).mono ?_
  rintro r h' ⟨rfl, ⟨rfl, hn⟩ | ⟨zs, a, d, post, hxs, rfl, hd, hz⟩⟩
  · exact h0 hn
  · exact h1 zs a d post hxs hd hz

theorem skyListRemoveIf_ends (S : Shape h F l m xs ps) (f : SkyListCmpFunc) (p1 p2 : Addr) :
    Ends (skyListRemoveIf b l (some f) p1 p2) h fun r h' =>
      Post A h F l m xs ps (.removeIf f p1 p2) (.ptr r) h' := by
  have hw := S.whole_eq
  unfold skyListRemoveIf
  rw [ends_bind]
  refine validate_ends hw ?_
  rw [ends_bind]
  refine findItem_ends f p1 p2 S ?_ ?_
  · intro hn
    rw [if_neg (not_not.2 rfl), ends_pure]
    refine Post.same S ?_
    rw [seqCall, List.find?_eq_none.2 (by simpa using hn), seqRemove_none hn]
    rfl
  · intro zs a d post hxs hd hz
    rw [if_pos (by simp), ends_bind]
    have hw' := hw
    rw [hxs] at hw'
    refine loadNode_whole hw' ?_
    rw [whole_insert] at hw'
    rw [ends_bind]
    refine setNext_halves (hw'.trans (add_assoc _ _ _)) ?_
    intro h1 e1 hl1
    rw [ends_bind]
    refine loadNode_ends (e1.trans (add_left_comm _ _ _)) ?_
    rw [ends_bind]
    refine setPrev_halves post e1 ?_
    intro h2 e2 hl2
    rw [← whole_append, ← hxs] at e2
    refine drop_ends hxs S (hl2.trans hl1) e2 ?_
    have hdatas : datas xs = datas zs ++ d :: datas post := by
      rw [hxs]
      simp [datas]
    rw [seqCall, hdatas, find?_split hz hd, seqRemove_split hz hd]
    rfl

theorem skyListRemove_ends (S : Shape h F l m xs ps) (d : Addr) :
    Ends (skyListRemove b l d) h fun r h' => Post A h F l m xs ps (.remove d) (.ptr r) h' :=
  (skyListRemoveIf_ends (A := A) S compareDataPtr d 0).mono fun _ _ hr => hr

/-- A pointer that the list does not hold. -/
theorem skyListRemove_absent (S : Shape h F l m xs ps) {d : Addr} (hd : d ∉ datas xs) :
    Ends (skyListRemove b l d) h fun r h' => r = 0 ∧ h' = h := by
  have hw := S.whole_eq
  unfold skyListRemove skyListRemoveIf
  rw [ends_bind]
  refine validate_ends hw ?_
  rw [ends_bind]
  refine findItem_ends compareDataPtr d 0 S ?_ ?_
  · intro _
    rw [if_neg (not_not.2 rfl), ends_pure]
    exact ⟨rfl, rfl⟩
  · intro zs a e post hxs he _
    have hmem : e ∈ datas xs := by
      rw [hxs]
      simp [datas]
    rw [beq_iff_eq.1 he] at hmem
    exact absurd hmem hd

theorem skyListFindIf_ends (S : Shape h F l m xs ps) (f : SkyListCmpFunc) (p1 p2 : Addr) :
    Ends (skyListFindIf b l (some f) p1 p2) h fun r h' =>
      h' = h ∧ r = orNull ((datas xs).find? (f · p1 p2)) := by
  have hw := S.whole_eq
  have hassert : (skyAssert b (pure true) : ListM Unit) h = .ok ((), h) := by
    unfold skyAssert
    cases b.assertAborts <;> rfl
  unfold skyListFindIf
  rw [ends_bind]
  refine validate_ends hw ?_
  rw [ends_bind, Option.isSome_some, ends_of_eq hassert, ends_bind]
  refine findItem_ends f p1 p2 S ?_ ?_
  · intro hn
    rw [if_neg (not_not.2 rfl), ends_pure, List.find?_eq_none.2 (by simpa using hn)]
    exact ⟨rfl, rfl⟩
  · intro zs a d post hxs hd hz
    rw [if_pos (by simp), ends_bind]
    refine loadNode_whole (hxs ▸ hw) ?_
    have hdatas : datas xs = datas zs ++ d :: datas post := by
      rw [hxs]
      simp [datas]
    rw [ends_pure, hdatas, find?_split hz hd]
    exact ⟨rfl, rfl⟩

/-- The answer of the search by `compareDataPtr` is the pointer itself, if it is there. -/
theorem find?_ptr (d : Addr) (ys : List Addr) :
    (decide (orNull (ys.find? (· == d)) ≠ 0) && orNull (ys.find? (· == d)) == d) =
      decide (d ≠ 0 ∧ d ∈ ys) := by
  cases hf : ys.find? (· == d) with
  | none =>
    have hd : d ∉ ys := fun hm => absurd (List.find?_eq_none.1 hf d hm) (by simp)
    simp [orNull, hd]
  | some e =>
    have he : e = d := by simpa using List.find?_some hf
    have hm : e ∈ ys := List.mem_of_find?_eq_some hf
    subst he
    by_cases h0 : e = 0
    · simp [orNull, h0]
    · simp [orNull, h0, hm]

theorem skyListContain_ends (S : Shape h F l m xs ps) (d : Addr) :
    Ends (skyListContain b l d) h fun r h' => Post A h F l m xs ps (.contain d) (.bool r) h' := by
  unfold skyListContain
  rw [ends_bind]
  refine (skyListFindIf_ends S compareDataPtr d 0).mono ?_
  rintro r h' ⟨rfl, rfl⟩
  rw [ends_pure]
  refine Post.same S ?_
  rw [seqCall]
  exact congrArg (fun r => (Resp.bool r, datas xs)) (find?_ptr d (datas xs))

/-! ## Clear -/

/-- Every node goes to the pool, the last one first; the tail's `prev` is left as it is. -/
theorem poolItems_ends : ∀ (n : Nat) (ys : Nodes) (ps : Spares) (p : ItemPtr) (h : Heap Block),
    ys.length < n →
    h.entries = cell l (list (struct ⟨first node ps null, .ofNat ys.length, m⟩
      (first node ys (tail l)) q)) +
        (seg node liveItem p ys (tail l) + (chain node spareItem ps null + F)) →
    Ends (poolItems l n) h fun _ h' => h'.log = h.log ∧ (ys = [] → h' = h) ∧
      ∃ ps' : Spares, ps'.map Prod.fst = (ys.map Prod.fst).reverse ++ ps.map Prod.fst ∧
        h'.entries = cell l (list (struct ⟨first node ps' null, .ofNat 0, m⟩ (tail l) q)) +
          (chain node spareItem ps' null + F)
  | 0, _, _, _, _, hn, _ => absurd hn (Nat.not_lt_zero _)
  | n + 1, [], ps, p, h, _, he => by
    unfold poolItems
    rw [ends_bind]
    refine loadHead_ends he ?_
    simp only [struct, first_nil, if_true, ends_pure]
    exact ⟨trivial, fun _ => trivial, ps, rfl, by rw [he, seg_nil, zero_add]; rfl⟩
  | n + 1, (a, d) :: ys, ps, p, h, hn, he => by
    have hcell : h.entries = cell a (item ⟨d, first node ys (tail l), p⟩) +
        (cell l (list (struct ⟨first node ps null, .ofNat (ys.length + 1), m⟩ (node a) q)) +
          (chain node spareItem ps null + (seg node liveItem (node a) ys (tail l) + F))) := by
      rw [he, seg_cons]
      unfold liveItem
      dsimp only [first_cons, List.length_cons]
      ac_rfl
    unfold poolItems
    rw [ends_bind]
    refine loadHead_ends he ?_
    rw [ends_ite]
    refine ⟨fun hc => absurd hc (by simp [struct]), fun _ => ?_⟩
    simp only [struct, first_cons]
    rw [ends_bind]
    refine loadNode_ends hcell ?_
    rw [ends_bind]
    refine poolItem_ends hcell ?_
    intro h1 e1 hl1
    rw [ends_bind]
    refine modifyList_ends e1 ?_
    intro h2 e2 hl2
    rw [ends_bind]
    refine modifyList_ends e2 ?_
    intro h3 e3 hl3
    have e3' : h3.entries = cell l (list (struct ⟨node a, .ofNat ys.length, m⟩
        (first node ys (tail l)) q)) + (seg node liveItem (node a) ys (tail l) +
          (chain node spareItem ((a, d, p) :: ps) null + F)) := by
      rw [e3]
      simp only [struct, count_pred]
      ac_rfl
    have ih := poolItems_ends n ys ((a, d, p) :: ps) (node a) h3 (Nat.lt_of_succ_lt_succ hn) e3'
    refine ih.mono ?_
    rintro _ h' ⟨hl', -, ps', hps', he'⟩
    refine ⟨hl'.trans (hl3.trans (hl2.trans hl1)), by simp, ps', ?_, he'⟩
    rw [hps']
    simp

theorem skyListClear_ends (S : Shape h F l m xs ps) :
    Ends (skyListClear b l) h fun _ h' => Post A h F l m xs ps .clear .unit h' := by
  have hw := S.whole_eq
  unfold skyListClear
  rw [ends_bind]
  refine validate_ends hw ?_
  rw [whole_struct] at hw
  have hrounds := length_lt_rounds (hw.trans (add_left_comm _ _ _))
  rw [ends_bind, ends_of_eq (rfl : walkRounds h = .ok (h.size + 1, h)), ends_bind]
  refine (poolItems_ends (h.size + 1) xs ps (head l) h hrounds hw).mono ?_
  rintro _ h1 ⟨hl1, hsame, ps', hps', e1⟩
  -- `prev` of the tail is the one link the loop does not repair
  refine modifyList_ends e1 ?_
  intro h2 e2 hl2
  refine ⟨[], ps', ⟨Nat.zero_le _, ?_⟩, .inl ⟨hl2.trans hl1, ?_⟩, rfl, fun hd => ?_⟩
  · rw [e2]
    unfold whole
    simp only [struct, first_nil, last_nil, seg_nil, List.length_nil, add_zero]
    rw [add_assoc]
  · rw [addrs, addrs, hps']
    simp only [List.map_nil, List.nil_append]
    exact (List.reverse_perm _).append_right _
  · -- an empty list: the link is as it was
    have hnil : xs = [] := List.map_eq_nil_iff.1 hd.symm
    subst hnil
    rw [hsame rfl] at e1
    rw [e2, e1]
    rfl

end Sky.LinkedList
