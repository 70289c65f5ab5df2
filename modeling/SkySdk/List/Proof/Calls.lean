import SkySdk.List.Proof.Remove

/-!
# Every call on the list

The queries read the struct, or a node that `stepsTo` reaches. `call_ends`: from a list in shape,
every call returns, and leaves `Post`; the one exception is an `insert` that finds the pool empty in
a build whose assertions abort (`call_aborts`).
-/

set_option autoImplicit false

namespace Sky.LinkedList

open Base Base.Dll
open Block (list item)
open ItemPtr (null head tail node)

variable {A : Allocator} {b : Build} {h : Heap Block} {F G : Ledger Block} {l a : Addr}
  {s : Stats} {m c : UInt32} {pre post xs : Nodes} {ps : Spares} {p q : ItemPtr}

/-! ## Queries -/

theorem readList_ends {α : Type} (S : Shape h F l m xs ps) (f : SkyHandleList → α)
    {Q : α → Heap Block → Prop}
    (hq : Q (f (struct ⟨first node ps null, .ofNat xs.length, m⟩ (first node xs (tail l))
      (last node (head l) xs))) h) :
    Ends (do
      skyValidateHandle b l
      pure (f (← loadList l))) h Q := by
  rw [ends_bind]
  refine validate_ends S.whole_eq ?_
  rw [ends_bind]
  refine loadWhole_ends S.whole_eq ?_
  exact (ends_pure _).2 hq

theorem skyListSize_ends (S : Shape h F l m xs ps) :
    Ends (skyListSize b l) h fun r h' => h' = h ∧ r.toNat = xs.length :=
  readList_ends S (·.count) ⟨rfl, toNat_count S.le⟩

theorem skyListMaxSize_ends (S : Shape h F l m xs ps) :
    Ends (skyListMaxSize b l) h fun r h' => h' = h ∧ r = m :=
  readList_ends S (·.maxSize) ⟨rfl, rfl⟩

theorem skyListFull_ends (S : Shape h F l m xs ps) :
    Ends (skyListFull b l) h fun r h' => h' = h ∧ r = decide (xs.length = m.toNat) := by
  refine readList_ends S (fun l => l.count == l.maxSize) ⟨rfl, ?_⟩
  rw [beq_eq_decide]
  refine decide_eq_decide.2 ?_
  rw [← UInt32.toNat_inj]
  simp only [struct, toNat_count S.le]

theorem skyListEmpty_ends (S : Shape h F l m xs ps) :
    Ends (skyListEmpty b l) h fun r h' => h' = h ∧ r = decide (xs.length = 0) := by
  refine readList_ends S (fun l => l.count == 0) ⟨rfl, ?_⟩
  rw [beq_eq_decide]
  refine decide_eq_decide.2 ?_
  rw [← UInt32.toNat_inj]
  simp only [struct, toNat_count S.le, UInt32.toNat_zero]

theorem skyListFront_ends (S : Shape h F l m xs ps) :
    Ends (skyListFront b l) h fun r h' => h' = h ∧ r = orNull (datas xs).head? := by
  have hw := S.whole_eq
  unfold skyListFront
  rw [ends_bind]
  refine validate_ends hw ?_
  rw [ends_bind]
  refine loadHead_whole hw ?_
  cases xs with
  | nil => simp [datas, orNull]
  | cons x xs =>
    have hw' : h.entries = whole l ⟨first node ps null, .ofNat (x :: xs).length, m⟩
        ([] ++ x :: xs) + (chain node spareItem ps null + F) := hw
    rw [if_pos (by simp), ends_bind]
    refine loadNode_whole hw' ?_
    rw [ends_pure]
    exact ⟨rfl, rfl⟩

theorem skyListBack_ends (S : Shape h F l m xs ps) :
    Ends (skyListBack b l) h fun r h' => h' = h ∧ r = orNull (datas xs).getLast? := by
  have hw := S.whole_eq
  unfold skyListBack
  rw [ends_bind]
  refine validate_ends hw ?_
  rw [ends_bind]
  refine loadTail_whole hw ?_
  rcases List.eq_nil_or_concat xs with rfl | ⟨pre, x, rfl⟩
  · simp [datas, orNull]
  · rw [List.concat_eq_append] at hw ⊢
    rw [last_snoc, if_pos (by simp), ends_bind]
    refine loadNode_whole hw ?_
    rw [ends_pure]
    exact ⟨rfl, by simp [datas, orNull]⟩

theorem skyListGetAt_ends (S : Shape h F l m xs ps) (i : UInt32) :
    Ends (skyListGetAt b l i) h fun r h' => h' = h ∧ r = orNull (datas xs)[i.toNat]? := by
  have hw := S.whole_eq
  have hlen : (datas xs).length = xs.length := List.length_map _
  unfold skyListGetAt
  rw [ends_bind]
  refine validate_ends hw ?_
  rw [ends_bind]
  refine loadWhole_ends hw ?_
  rw [ends_ite]
  constructor
  · intro hpos
    rw [ends_ite]
    constructor
    · intro hi
      have hi : i.toNat < xs.length := (toNat_count S.le) ▸ UInt32.lt_iff_toNat_lt.1 hi
      have hw' : h.entries = whole l ⟨first node ps null, .ofNat xs.length, m⟩ ([] ++ xs) +
          (chain node spareItem ps null + F) := hw
      rw [ends_bind]
      refine loadHead_whole hw ?_
      rw [ends_bind]
      refine (stepsTo_ends i.toNat [] xs hw').mono ?_
      rintro r h' ⟨rfl, hr, hnull⟩
      rw [if_neg (hnull hi)] at hr
      -- the item `i` steps behind the first one
      have hdrop : xs = xs.take i.toNat ++
          (xs[i.toNat].1, xs[i.toNat].2) :: xs.drop (i.toNat + 1) := by
        rw [← List.drop_eq_getElem_cons hi, List.take_append_drop]
      rw [if_pos (hnull hi), hr, List.drop_eq_getElem_cons hi, first_cons, ends_bind]
      refine loadNode_whole (hdrop ▸ hw) ?_
      rw [ends_pure, List.getElem?_eq_getElem (hlen ▸ hi)]
      exact ⟨rfl, by simp [datas, orNull]⟩
    · intro hi
      have hi : xs.length ≤ i.toNat :=
        (toNat_count S.le) ▸ Nat.le_of_not_lt fun hc => hi (UInt32.lt_iff_toNat_lt.2 hc)
      rw [ends_pure, List.getElem?_eq_none (hlen ▸ hi)]
      exact ⟨rfl, rfl⟩
  · intro hpos
    have h0 : xs.length = 0 := Nat.eq_zero_of_not_pos fun hc => hpos ((count_pos S.le).2 hc)
    rw [ends_pure, List.getElem?_eq_none (by omega)]
    exact ⟨rfl, rfl⟩

/-! ## Every call -/

/-- The pool is empty where `insert` expects a pooled node, in a build whose assertions abort. -/
def InsertAborts (b : Build) (m : UInt32) (xs : Nodes) (ps : Spares) : Call → Prop
  | .insert _ _ => b.assertAborts = true ∧ ps = [] ∧ xs.length < m.toNat
  | _ => False

theorem call_ends (S : Shape h F l m xs ps) (c : Call) (hc : ¬ InsertAborts b m xs ps c) :
    Ends (call A b l c) h (Post A h F l m xs ps c) := by
  cases c with
  | pushFront d => exact (skyListPushFront_ends S d).bind fun r h' hp => (ends_pure _).2 hp
  | pushBack d => exact (skyListPushBack_ends S d).bind fun r h' hp => (ends_pure _).2 hp
  | insert i d =>
    have hb : b.assertAborts = true → ps = [] → m.toNat ≤ xs.length :=
      fun ha hps => Nat.le_of_not_lt fun hlt => hc ⟨ha, hps, hlt⟩
    exact (skyListInsert_ends S i d hb).bind fun r h' hp => (ends_pure _).2 hp
  | popFront => exact (skyListPopFront_ends S).bind fun r h' hp => (ends_pure _).2 hp
  | popBack => exact (skyListPopBack_ends S).bind fun r h' hp => (ends_pure _).2 hp
  | remove d => exact (skyListRemove_ends S d).bind fun r h' hp => (ends_pure _).2 hp
  | removeIf f p1 p2 =>
    exact (skyListRemoveIf_ends S f p1 p2).bind fun r h' hp => (ends_pure _).2 hp
  | clear => exact (skyListClear_ends S).bind fun r h' hp => (ends_pure _).2 hp
  | contain d => exact (skyListContain_ends S d).bind fun r h' hp => (ends_pure _).2 hp
  | size =>
    refine (skyListSize_ends S).bind ?_
    rintro r h' ⟨rfl, hr⟩
    exact (ends_pure _).2 (Post.same S (by rw [seqCall, hr, datas, List.length_map]))
  | maxSize =>
    refine (skyListMaxSize_ends S).bind ?_
    rintro r h' ⟨rfl, rfl⟩
    exact (ends_pure _).2 (Post.same S rfl)
  | full =>
    refine (skyListFull_ends S).bind ?_
    rintro r h' ⟨rfl, rfl⟩
    exact (ends_pure _).2 (Post.same S (by rw [seqCall, datas, List.length_map]))
  | empty =>
    refine (skyListEmpty_ends S).bind ?_
    rintro r h' ⟨rfl, rfl⟩
    exact (ends_pure _).2 (Post.same S (by rw [seqCall, datas, List.length_map]))
  | front =>
    refine (skyListFront_ends S).bind ?_
    rintro r h' ⟨rfl, rfl⟩
    exact (ends_pure _).2 (Post.same S rfl)
  | back =>
    refine (skyListBack_ends S).bind ?_
    rintro r h' ⟨rfl, rfl⟩
    exact (ends_pure _).2 (Post.same S rfl)
  | getAt i =>
    refine (skyListGetAt_ends S i).bind ?_
    rintro r h' ⟨rfl, rfl⟩
    exact (ends_pure _).2 (Post.same S rfl)
  | findIf f p1 p2 =>
    refine (skyListFindIf_ends S f p1 p2).bind ?_
    rintro r h' ⟨rfl, rfl⟩
    exact (ends_pure _).2 (Post.same S rfl)

/-- The assertion of an `insert` that finds the pool empty stops the program. -/
theorem call_aborts (S : Shape h F l m xs ps) {c : Call} (hc : InsertAborts b m xs ps c) :
    call A b l c h = .error .aborted := by
  cases c with
  | insert i d =>
    obtain ⟨hb, rfl, hlt⟩ := hc
    have hw := S.whole_eq
    have hval : skyValidateHandle b l h = .ok ((), h) :=
      Ends.apply (validate_ends hw ⟨rfl, rfl⟩)
    have hload : loadList l h = .ok (_, h) := Ends.apply (loadWhole_ends hw ⟨rfl, rfl⟩)
    have hassert : (skyAssert b (pure false) : ListM Unit) h = .error .aborted := by
      simp [skyAssert, hb]
    have htake : takeItem A (skyAssert b (pure false)) l h = .error .aborted := by
      unfold takeItem
      rw [bind_apply, hload]
      dsimp only [struct, first_nil]
      rw [if_pos rfl, bind_apply, hassert]
    have hins : skyListInsert A b l i d h = .error .aborted := by
      unfold skyListInsert
      rw [bind_apply, hval]
      dsimp only
      rw [bind_apply, hload]
      dsimp only [struct]
      rw [if_pos ((count_lt S.le).2 hlt), bind_apply, htake]
    rw [call, bind_apply, hins]
  | _ => exact hc.elim

end Sky.LinkedList
