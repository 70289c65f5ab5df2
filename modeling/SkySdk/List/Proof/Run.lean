import SkySdk.List.Links
import SkySdk.List.Proof.Life

/-!
# Runs of calls on a list

Every state that a run reaches from a successful creation is a list in shape (`reach_shape`), and so
is linked (`Shape.linked`) and answers the next call as its sequence does.
-/

set_option autoImplicit false

namespace Sky.LinkedList

open Base Base.Dll
open Block (list item)
open ItemPtr (null head tail node)

variable {A : Allocator} {b : Build} {h h0 h1 h' : Heap Block} {F G : Ledger Block} {l a : Addr}
  {m : UInt32} {pre post xs : Nodes} {ps : Spares}

/-! ## From the shape to the heap -/

theorem Shape.get_struct (S : Shape h F l m xs ps) :
    h.get? l = some (list (struct ⟨first node ps null, .ofNat xs.length, m⟩ (first node xs (tail l))
      (last node (head l) xs))) :=
  Heap.get?_of_entries (S.whole_eq.trans (whole_struct l _ _ _))

theorem Shape.get_live {x : Addr × Addr} (S : Shape h F l m xs ps) (hx : xs = pre ++ x :: post) :
    itemAt h (node x.1) = some ⟨x.2, first node post (tail l), last node (head l) pre⟩ := by
  have hm : (⟨x.1, liveItem x.2 (first node post (tail l)) (last node (head l) pre)⟩ :
      Σ _ : Addr, Block) ∈ h.entries := by
    rw [S.whole_eq, whole_struct, hx]
    refine Multiset.mem_add.2 (.inr (Multiset.mem_add.2 (.inl ?_)))
    exact mem_seg node liveItem (head l) (tail l) x
  simp only [itemAt, Heap.mem_entries.1 hm, liveItem]

theorem Shape.get_spare {qs rs : Spares} {y : Addr × Addr × ItemPtr} (S : Shape h F l m xs ps)
    (hy : ps = qs ++ y :: rs) : nextOf h (node y.1) = some (first node rs null) := by
  have hm : (⟨y.1, spareItem y.2 (first node rs null)⟩ : Σ _ : Addr, Block) ∈ h.entries := by
    rw [S.ledger, hy]
    refine Multiset.mem_add.2 (.inl (Multiset.mem_add.2 (.inr ?_)))
    exact mem_chain node spareItem y null
  simp only [nextOf, itemAt, Heap.mem_entries.1 hm, spareItem, Option.map_some]

theorem Shape.keys (S : Shape h F l m xs ps) : h.entries.map Sigma.fst =
    (↑(l :: addrs xs ps) : Multiset Addr) + F.map Sigma.fst := by
  rw [S.ledger]
  unfold whole addrs
  rw [Multiset.map_add, Multiset.map_add, Multiset.map_add, keys_seg, keys_chain]
  rfl

theorem Shape.nodup (S : Shape h F l m xs ps) : (l :: addrs xs ps).Nodup := by
  have hn := h.keys_nodup
  rw [S.keys] at hn
  exact Multiset.coe_nodup.1 (Multiset.nodup_add.1 hn).1

theorem Shape.ne_zero (S : Shape h F l m xs ps) (ha : a ∈ l :: addrs xs ps) : a ≠ 0 := by
  have hm : a ∈ h.blocks := by
    rw [Heap.mem_blocks_iff_entries, S.keys]
    exact Multiset.mem_add.2 (.inl (Multiset.mem_coe.2 ha))
  exact Heap.ne_zero_of_mem hm

theorem Shape.linked (S : Shape h F l m xs ps) :
    Linked h l m (struct ⟨first node ps null, .ofNat xs.length, m⟩ (first node xs (tail l))
      (last node (head l) xs)) (xs.map Prod.fst) (ps.map Prod.fst) := by
  have hget := S.get_struct
  refine ⟨hget, ?_, ?_, ?_, (List.nodup_cons.1 S.nodup).2, rfl, rfl, rfl, ?_⟩
  · have hhead : nextOf h (head l) = some (first node xs (tail l)) := by
      simp only [nextOf, itemAt, hget]
      rfl
    have hlive : ∀ pre x post, xs = pre ++ x :: post →
        nextOf h (node x.1) = some (first node post (tail l)) := by
      intro pre x post hx
      rw [nextOf, S.get_live hx]
      rfl
    have hwalk := follow_first node xs (head l) hhead hlive
    simp only [struct, toNat_count S.le, hwalk, List.map_map]
    rfl
  · have htail : prevOf h (tail l) = some (first node xs.reverse (head l)) := by
      rw [← last_eq_first_reverse]
      simp only [prevOf, itemAt, hget]
      rfl
    have hlive : ∀ pre x post, xs.reverse = pre ++ x :: post →
        prevOf h (node x.1) = some (first node post (head l)) := by
      intro pre x post hx
      have hx' : xs = post.reverse ++ x :: pre.reverse := by
        rw [← List.reverse_reverse xs, hx]
        simp
      rw [prevOf, S.get_live hx', last_eq_first_reverse, List.reverse_reverse]
      rfl
    have hwalk := follow_first node xs.reverse (tail l) htail hlive
    rw [List.length_reverse] at hwalk
    simp only [struct, toNat_count S.le, hwalk, List.map_reverse, List.map_map]
    rfl
  · obtain ⟨ptrs, hwalk, hptrs⟩ := follow_from_first node ps fun _ _ _ hy => S.get_spare hy
    refine ⟨ptrs, ?_, ?_⟩
    · rw [List.length_map]
      exact hwalk
    · rw [List.map_map]
      exact hptrs
  · rw [UInt32.le_iff_toNat_le]
    exact (toNat_count S.le).trans_le S.le

theorem Shape.dataFrom_eq (S : Shape h F l m xs ps) : ∀ (n : Nat) (pre ys : Nodes),
    xs = pre ++ ys → ys.length ≤ n → dataFrom h l (first node ys (tail l)) n = datas ys
  | 0, _, [], _, _ => rfl
  | n + 1, _, [], _, _ => by rw [dataFrom, first_nil, if_pos rfl]; rfl
  | 0, _, _ :: _, _, hn => absurd hn (Nat.not_succ_le_zero _)
  | n + 1, pre, y :: ys, hx, hn => by
    have ih := S.dataFrom_eq n (pre ++ [y]) ys (by rw [hx, List.append_assoc]; rfl)
      (Nat.le_of_succ_le_succ hn)
    rw [dataFrom, first_cons, if_neg (by simp), S.get_live hx]
    simp only [ih]
    rfl

theorem Shape.seqOf_eq (S : Shape h F l m xs ps) : seqOf h l = datas xs := by
  have hhead : nextOf h (head l) = some (first node xs (tail l)) := by
    simp only [nextOf, itemAt, S.get_struct]
    rfl
  have hw := S.whole_eq
  rw [whole_struct] at hw
  have hsize := length_lt_rounds (hw.trans (add_left_comm _ _ _))
  simp only [seqOf, hhead]
  exact S.dataFrom_eq h.size [] xs rfl (Nat.le_of_lt_succ hsize)

theorem Shape.poolEmpty_eq (S : Shape h F l m xs ps) : poolEmpty h l = ps.isEmpty := by
  simp only [poolEmpty, S.get_struct, struct]
  cases ps <;> simp

theorem Shape.hasRoom_eq (S : Shape h F l m xs ps) : hasRoom A h l = room A h ps := by
  rw [hasRoom, S.poolEmpty_eq, room]

/-! ## Runs -/

theorem call_post {c : Call} {r : Resp} (S : Shape h F l m xs ps)
    (hx : call A b l c h = .ok (r, h')) : Post A h F l m xs ps c r h' := by
  have hc : ¬ InsertAborts b m xs ps c := by
    intro hc
    rw [call_aborts S hc] at hx
    cases hx
  exact (call_ends S c hc).result hx

/-- Every state of a run from a creation is a list in shape. -/
theorem reach_shape {cs : List Call} (hc : skyListCreate A b m h0 = .ok (l, h1)) (hl : l ≠ 0)
    (hr : Steps (call A b l) (fun _ _ => True) h1 cs h) :
    ∃ xs ps, Shape h h0.entries l m xs ps := by
  obtain ⟨-, ps, -, S, -⟩ := skyListCreate_returns A b m h0 l h1 hc hl
  refine Steps.inv (I := fun h => ∃ xs ps, Shape h h0.entries l m xs ps) ?_ hr ⟨[], ps, S⟩
  rintro s c r s' ⟨xs, ps, S⟩ - hs
  obtain ⟨xs', ps', S', -⟩ := call_post S hs
  exact ⟨xs', ps', S'⟩

/-- The calls that do not return are the ones that `InsertAborts` describes. -/
theorem call_cases (S : Shape h F l m xs ps) (c : Call) :
    (InsertAborts b m xs ps c ∧ call A b l c h = .error .aborted) ∨
      ∃ r h', call A b l c h = .ok (r, h') ∧ Post A h F l m xs ps c r h' := by
  by_cases hc : InsertAborts b m xs ps c
  · exact .inl ⟨hc, call_aborts S hc⟩
  · exact .inr (call_ends S c hc)

/-- Calls that return, with what they answer. -/
inductive Log (A : Allocator) (b : Build) (l : Addr) :
    Heap Block → List (Call × Resp) → Heap Block → Prop
  | nil (h : Heap Block) : Log A b l h [] h
  | cons {h h' h'' : Heap Block} {c : Call} {r : Resp} {log : List (Call × Resp)} :
      call A b l c h = .ok (r, h') → Log A b l h' log h'' → Log A b l h ((c, r) :: log) h''

theorem Log.steps {log : List (Call × Resp)} (hlog : Log A b l h log h') :
    Steps (call A b l) (fun _ _ => True) h (log.map Prod.fst) h' := by
  induction hlog with
  | nil h => exact .nil h
  | cons hx _ ih => exact .cons trivial hx ih

theorem Log.append {log log' : List (Call × Resp)} {h'' : Heap Block} (hlog : Log A b l h log h')
    (hlog' : Log A b l h' log' h'') : Log A b l h (log ++ log') h'' := by
  induction hlog with
  | nil h => exact hlog'
  | cons hx _ ih => exact .cons hx (ih hlog')

/-! ## Runs in which every node is granted -/

/-- The build without pre-allocation and without assertions. -/
def plainBuild : Build := { preallocNum := 0, assertAborts := false }

/-- The allocator that grants everything. -/
def granting : Allocator := .bump fun _ => true

/-- Calls on a sequence, with a node for every addition: their answers, and what is left. -/
def seqRun (cap : Nat) : List Addr → List Call → List (Call × Resp) × List Addr
  | xs, [] => ([], xs)
  | xs, c :: cs =>
    let rest := seqRun cap (seqCall cap true xs c).2 cs
    ((c, (seqCall cap true xs c).1) :: rest.1, rest.2)

theorem call_granting (S : Shape h F l m xs ps) (c : Call) : ∃ h' xs' ps',
    call granting plainBuild l c h = .ok ((seqCall m.toNat true (datas xs) c).1, h') ∧
      Shape h' F l m xs' ps' ∧ datas xs' = (seqCall m.toNat true (datas xs) c).2 := by
  have hroom : room granting h ps = true := by simp [room, granting, Allocator.bump]
  rcases call_cases (A := granting) (b := plainBuild) S c with
    ⟨ha, -⟩ | ⟨r, h', hx, xs', ps', S', -, hs, -⟩
  · cases c with
    | insert i d => cases ha.1
    | _ => exact ha.elim
  · rw [hroom] at hs
    obtain ⟨rfl, hd⟩ := Prod.mk.inj hs
    exact ⟨h', xs', ps', hx, S', hd⟩

theorem log_granting : ∀ (cs : List Call) {h : Heap Block} {xs : Nodes} {ps : Spares},
    Shape h F l m xs ps → ∃ h' xs' ps',
      Log granting plainBuild l h (seqRun m.toNat (datas xs) cs).1 h' ∧ Shape h' F l m xs' ps' ∧
        datas xs' = (seqRun m.toNat (datas xs) cs).2
  | [], h, xs, ps, S => ⟨h, xs, ps, .nil h, S, rfl⟩
  | c :: cs, h, xs, ps, S => by
    obtain ⟨h1, xs1, ps1, hx, S1, hd1⟩ := call_granting S c
    obtain ⟨h2, xs2, ps2, hlog, S2, hd2⟩ := log_granting cs S1
    rw [hd1] at hlog hd2
    exact ⟨h2, xs2, ps2, .cons hx hlog, S2, hd2⟩

/-- Calls on a new list for two, and further calls. -/
theorem exists_logs (cs cs' : List Call) : ∃ l h1 h h',
    skyListCreate granting plainBuild 2 .empty = .ok (l, h1) ∧ l ≠ 0 ∧
      Log granting plainBuild l h1 (seqRun 2 [] cs).1 h ∧ seqOf h l = (seqRun 2 [] cs).2 ∧
      Log granting plainBuild l h (seqRun 2 (seqRun 2 [] cs).2 cs').1 h' ∧
      seqOf h' l = (seqRun 2 (seqRun 2 [] cs).2 cs').2 := by
  obtain ⟨l, h1, hc, hl⟩ : ∃ l h1, skyListCreate granting plainBuild 2 .empty = .ok (l, h1) ∧
      l ≠ 0 := exists_create (by decide) fun _ _ => rfl
  obtain ⟨-, ps1, -, S1, -⟩ := skyListCreate_returns granting plainBuild 2 .empty l h1 hc hl
  obtain ⟨h, xs, ps, hlog, S, hd⟩ := log_granting cs S1
  obtain ⟨h', xs', ps', hlog', S', hd'⟩ := log_granting cs' S
  rw [hd] at hlog' hd'
  exact ⟨l, h1, h, h', hc, hl, hlog, S.seqOf_eq.trans hd, hlog', S'.seqOf_eq.trans hd'⟩

/-- A list for two is filled, and refuses a third item. -/
def filled : List (Call × Resp) :=
  [(.pushBack 5, .bool true), (.pushFront 6, .bool true), (.pushBack 7, .bool false)]

/-- A full list gives up an item, and the item's node is used again. -/
def refilled : List (Call × Resp) := [(.popFront, .ptr 6), (.insert 0 8, .bool true)]

theorem exists_refill : ∃ l h1 h h', skyListCreate granting plainBuild 2 .empty = .ok (l, h1) ∧
    l ≠ 0 ∧ Log granting plainBuild l h1 filled h ∧ seqOf h l = [6, 5] ∧
      Log granting plainBuild l h refilled h' ∧ seqOf h' l = [8, 5] :=
  exists_logs (filled.map Prod.fst) (refilled.map Prod.fst)

/-! ## Links and sequence -/

/-- After every run from a creation the links are as `Linked` says, and the next call returns, the
assertion in `insert` apart. -/
theorem run_linked {cs : List Call} (hc : skyListCreate A b m h0 = .ok (l, h1)) (hl : l ≠ 0)
    (hr : Steps (call A b l) (fun _ _ => True) h1 cs h) :
    (∃ s live pool, Linked h l m s live pool) ∧
      ∀ c, (∃ r h', call A b l c h = .ok (r, h')) ∨
        (b.assertAborts = true ∧ (∃ i d, c = .insert i d) ∧ call A b l c h = .error .aborted) := by
  obtain ⟨xs, ps, S⟩ := reach_shape hc hl hr
  refine ⟨⟨_, _, _, S.linked⟩, fun c => ?_⟩
  rcases call_cases S c with ⟨ha, hx⟩ | ⟨r, h', hx, -⟩
  · cases c with
    | insert i d => exact .inr ⟨ha.1, ⟨i, d, rfl⟩, hx⟩
    | _ => exact ha.elim
  · exact .inl ⟨r, h', hx⟩

theorem run_linked_refill : ∃ l h1 h, skyListCreate granting plainBuild 2 .empty = .ok (l, h1) ∧
    Log granting plainBuild l h1 (filled ++ refilled) h ∧
      ∃ s live pool, Linked h l 2 s live pool := by
  obtain ⟨l, h1, h, h', hc, hl, hlog, -, hlog', -⟩ := exists_refill
  have hrun := hlog.append hlog'
  exact ⟨l, h1, h', hc, hrun, (run_linked hc hl hrun.steps).1⟩

/-- In every state that a run reaches from a creation, a call answers and changes the sequence as
`seqCall` says, and leaves every block as it is when it answers false or the sequence is the same
afterwards. The one call that does not return is an `insert` that finds the pool empty, in a build
whose assertions abort. -/
theorem run_refines_seqCall {cs : List Call} (hc : skyListCreate A b m h0 = .ok (l, h1))
    (hl : l ≠ 0) (hr : Steps (call A b l) (fun _ _ => True) h1 cs h) (c : Call) :
    seqOf h1 l = [] ∧
      ((∃ r h', call A b l c h = .ok (r, h') ∧
          (r, seqOf h' l) = seqCall m.toNat (hasRoom A h l) (seqOf h l) c ∧
          (r = .bool false ∨ seqOf h' l = seqOf h l → h'.blocks = h.blocks)) ∨
        (b.assertAborts = true ∧ (∃ i d, c = .insert i d) ∧ poolEmpty h l = true ∧
          (seqOf h l).length < m.toNat ∧ call A b l c h = .error .aborted)) := by
  obtain ⟨-, ps1, -, S1, -⟩ := skyListCreate_returns A b m h0 l h1 hc hl
  obtain ⟨xs, ps, S⟩ := reach_shape hc hl hr
  refine ⟨S1.seqOf_eq, ?_⟩
  rcases call_cases S c with ⟨ha, hx⟩ | ⟨r, h', hx, xs', ps', S', -, hs, hsame⟩
  · cases c with
    | insert i d =>
      obtain ⟨hb, rfl, hlt⟩ := ha
      refine .inr ⟨hb, ⟨i, d, rfl⟩, S.poolEmpty_eq, ?_, hx⟩
      rw [S.seqOf_eq]
      simpa [datas] using hlt
    | _ => exact ha.elim
  · rw [S.seqOf_eq, S.hasRoom_eq]
    refine .inl ⟨r, h', hx, by rw [S'.seqOf_eq]; exact hs, fun hd => ?_⟩
    have hdatas : datas xs' = datas xs := by
      rcases hd with rfl | hd
      · have h2 := seqCall_false (congrArg Prod.fst hs).symm
        rw [← hs] at h2
        exact h2
      · rw [← hd, S'.seqOf_eq]
    exact Finmap.ext (hsame hdatas)

/-- A full list takes nothing more. -/
theorem run_refines_seqCall_refill : ∃ l h1 h h',
    skyListCreate granting plainBuild 2 .empty = .ok (l, h1) ∧
      Log granting plainBuild l h1 (filled ++ refilled) h ∧ seqOf h l = [8, 5] ∧
      call granting plainBuild l (.pushFront 9) h = .ok (.bool false, h') ∧
      seqOf h' l = [8, 5] ∧ h'.blocks = h.blocks := by
  obtain ⟨l, h1, h0, h, hc, hl, hlog, -, hlog', hseq⟩ := exists_refill
  have hrun := hlog.append hlog'
  obtain ⟨-, ⟨r, h', hx, hs, hsame⟩ | ⟨hb, -⟩⟩ :=
    run_refines_seqCall hc hl hrun.steps (.pushFront 9)
  · rw [hseq] at hs
    have hs : (r, seqOf h' l) = (.bool false, [8, 5]) := by
      rw [hs, seqCall, seqAdd, if_neg fun hfit => absurd hfit.1 (by decide)]
    obtain ⟨rfl, hseq'⟩ := Prod.mk.inj hs
    exact ⟨l, h1, h, h', hc, hrun, hseq, hx, hseq', hsame (.inl rfl)⟩
  · cases hb

end Sky.LinkedList
