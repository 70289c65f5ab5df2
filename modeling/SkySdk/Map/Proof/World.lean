import SkySdk.Map.World
import SkySdk.Map.Proof.Run

/-!
# The ledger of any number of maps

`Covers live L`: the ledger `L` is the blocks of the maps `live`, one part for each. Every operation
keeps `Covers` of the heap's ledger (`step_covers`), so that after any run the live blocks are
exactly those of the live maps and no operation on one of them can fault.
-/

set_option autoImplicit false

namespace Sky.Map

open Base
open Block (map ptrs chars)

variable {A : Allocator} {h : Heap Block} {F L : Ledger Block} {m : Addr} {d : SkyHandleMap}
  {rows : List Row} {live : List Addr}

/-! ## The parts of the ledger -/

/-- The ledger is the blocks of the live maps. -/
inductive Covers : List Addr → Ledger Block → Prop
  | nil : Covers [] 0
  | cons {m : Addr} {d : SkyHandleMap} {rows : List Row} {O : Ledger Block} {live : List Addr}
      {L : Ledger Block} : Owns O m d rows → Covers live L → Covers (m :: live) (O + L)

/-- The part of one live map: it can be taken out, or replaced by another part for that map. -/
theorem Covers.split (hc : Covers live L) (hm : m ∈ live) : ∃ O F d rows,
    Owns O m d rows ∧ L = O + F ∧ Covers (live.erase m) F ∧
      ∀ O' d' rows', Owns O' m d' rows' → Covers live (O' + F) := by
  induction hc with
  | nil => cases hm
  | @cons a d rows O live L ho hc ih =>
    by_cases ha : a = m
    · subst ha
      refine ⟨O, L, d, rows, ho, rfl, ?_, fun O' d' rows' ho' => .cons ho' hc⟩
      rw [List.erase_cons_head]
      exact hc
    · have hm' : m ∈ live := by
        rcases List.mem_cons.1 hm with h | h
        · exact absurd h.symm ha
        · exact h
      obtain ⟨O1, F1, d1, rows1, ho1, rfl, he1, hr1⟩ := ih hm'
      refine ⟨O1, O + F1, d1, rows1, ho1, by ac_rfl, ?_, fun O' d' rows' ho' => ?_⟩
      · rw [List.erase_cons_tail (by simpa using ha)]
        exact .cons ho he1
      · rw [show O' + (O + F1) = O + (O' + F1) by ac_rfl]
        exact .cons ho (hr1 O' d' rows' ho')

/-- Every operation on a live handle returns and keeps the ledger covered. -/
theorem step_covers {w : World} (hc : Covers w.live w.heap.entries) {op : Op} (hv : op.Valid w) :
    Ends (World.step A op) w fun _ w' => Covers w'.live w'.heap.entries := by
  have hrun : ∀ {α : Type} {x : MapM α} {u : α → List Addr → List Addr},
      (Ends x w.heap fun a h' => Covers (u a w.live) h'.entries) →
      Ends (onHeap x u) w fun _ w' => Covers w'.live w'.heap.entries := by
    rintro α x u ⟨a, h', hx, hq⟩
    exact ⟨(), ⟨h', u a w.live⟩, by simp [onHeap, hx], hq⟩
  cases op with
  | create f =>
    refine hrun ((skyMapCreate_ends A f w.heap).mono fun m h' hp => ?_)
    rcases hp with ⟨rfl, -, he⟩ | H
    · rw [he, register, if_pos rfl]
      exact hc
    · obtain ⟨O, ho, he⟩ := H.owns
      rw [he, register, if_neg H.ne_zero]
      exact .cons ho hc
  | call m c =>
    obtain ⟨O, F, d, rows, ho, he, -, hrep⟩ := hc.split hv
    refine hrun (u := fun _ live => live) ((call_ends (ho.holds he) c).mono fun r h' hp => ?_)
    obtain ⟨-, d', rows', H', -⟩ := hp
    obtain ⟨O', ho', he'⟩ := H'.owns
    rw [he']
    exact hrep O' d' rows' ho'
  | clone m =>
    obtain ⟨O, F, d, rows, ho, he, -, -⟩ := hc.split hv
    refine hrun ((skyMapClone_ends (ho.holds he)).mono fun r h' hp => ?_)
    obtain ⟨-, ⟨rfl, -, he'⟩ | ⟨d', rows', H', -⟩⟩ := hp
    · rw [he', register, if_pos rfl]
      exact hc
    · obtain ⟨O', ho', he'⟩ := H'.owns
      rw [he', register, if_neg H'.ne_zero]
      exact .cons ho' hc
  | destroy m =>
    obtain ⟨O, F, d, rows, ho, he, hr, -⟩ := hc.split hv
    refine hrun (u := fun _ live => live.erase m)
      ((skyMapDestroy_ends (ho.holds he)).mono fun _ h' he' => ?_)
    rw [he']
    exact hr

/-- After every run from the empty world the ledger is covered. -/
theorem run_covers {ops : List Op} {w : World}
    (hs : Steps (World.step A) Op.Valid World.empty ops w) : Covers w.live w.heap.entries := by
  refine Steps.inv (I := fun w => Covers w.live w.heap.entries) ?_ hs .nil
  intro w op r w' hc hv hx
  exact (step_covers hc hv).result hx

/-! ## Reading the parts off the heap -/

theorem slotAddrs_eq {c : List (Option Addr)} {l : List Addr} {arr : Addr}
    (hg : h.get? arr = some (ptrs c)) (hp : l.map some <+: c) :
    slotAddrs h arr l.length = l := by
  obtain ⟨rest, rfl⟩ := hp
  simp [slotAddrs, hg, List.filterMap_map]

theorem kslots_eq_map (rows : List Row) : kslots rows = (rows.map Row.kaddr).map some := by
  simp [kslots]

theorem vslots_eq_map (rows : List Row) : vslots rows = (rows.map Row.vaddr).map some := by
  simp [vslots]

theorem Holds.ownBlocks_nil (H : Holds h F m d rows) (hr : rows = []) : ownBlocks h m = [m] := by
  have hc : d.count = 0 := by rw [H.count, hr]; rfl
  simp only [ownBlocks, H.get, if_pos hc]

theorem Holds.ownBlocks_cons (H : Holds h F m d rows) (hr : rows ≠ []) :
    ownBlocks h m =
      m :: d.keys :: d.values :: (rows.map Row.kaddr ++ rows.map Row.vaddr) := by
  obtain ⟨ks, vs, hkp, hvp, hgk, hgv⟩ := H.arrays hr
  have hc : d.count ≠ 0 := by
    rw [H.count]
    exact fun h0 => hr (List.length_eq_zero_iff.1 h0)
  have hk := slotAddrs_eq hgk (kslots_eq_map rows ▸ hkp)
  have hv := slotAddrs_eq hgv (vslots_eq_map rows ▸ hvp)
  rw [List.length_map, ← H.count] at hk hv
  simp only [ownBlocks, H.get, if_neg hc, hk, hv]

theorem keys_strings (rows : List Row) : (strings rows).map Sigma.fst =
    (↑(rows.map Row.kaddr ++ rows.map Row.vaddr) : Multiset Addr) := by
  rw [← Multiset.coe_add]
  induction rows with
  | nil => rfl
  | cons r rows ih =>
    simp only [strings_cons, Multiset.map_add, ih, cell, Multiset.map_singleton, List.map_cons,
      ← Multiset.cons_coe, ← Multiset.singleton_add]
    ac_rfl

/-- The blocks of a map's part of the ledger are those `ownBlocks` reads. -/
theorem Owns.keys_eq {O : Ledger Block} (ho : Owns O m d rows) (he : h.entries = O + F) :
    O.map Sigma.fst = (↑(ownBlocks h m) : Multiset Addr) := by
  have H := ho.holds he
  rcases ho.ledger with ⟨hr, -, -, rfl⟩ | ⟨ks, vs, hr, -, -, rfl⟩
  · rw [H.ownBlocks_nil hr]
    rfl
  · rw [H.ownBlocks_cons hr]
    simp only [Multiset.map_add, keys_strings, cell, Multiset.map_singleton,
      ← Multiset.cons_coe, ← Multiset.singleton_add]
    ac_rfl

theorem Holds.mapShape (H : Holds h F m d rows) : MapShape h m := by
  by_cases hr : rows = []
  · have hc : d.count = 0 := by rw [H.count, hr]; rfl
    rcases H.ledger with ⟨-, hk, hv, -⟩ | ⟨_, _, hn, -⟩
    · refine ⟨d, H.get, by simp [hk, hv], by simp [hv, hc], ?_, fun h0 => absurd hc h0⟩
      rw [H.ownBlocks_nil hr, if_pos hc]
      rfl
    · exact absurd hr hn
  · obtain ⟨ks, vs, hkp, hvp, hgk, hgv⟩ := H.arrays hr
    have hk0 := Heap.ne_zero_of_mem (Heap.mem_of_get? hgk)
    have hv0 := Heap.ne_zero_of_mem (Heap.mem_of_get? hgv)
    have hc : d.count ≠ 0 := by
      rw [H.count]
      exact fun h0 => hr (List.length_eq_zero_iff.1 h0)
    have hkl := hkp.length_le
    have hvl := hvp.length_le
    rw [length_kslots, ← H.count] at hkl
    rw [length_vslots, ← H.count] at hvl
    refine ⟨d, H.get, by simp [hk0, hv0], by simp [hv0, hc], ?_, fun _ => ⟨?_, ?_⟩⟩
    · rw [H.ownBlocks_cons hr, if_neg hc, H.count]
      simp only [List.length_cons, List.length_append, List.length_map]
      omega
    · refine ⟨ks, hgk, hkl, fun i hi => ?_⟩
      have hi' : i < rows.length := H.count ▸ hi
      have hg := H.get_key (List.getElem_mem hi')
      exact ⟨_, _, prefix_getElem? hkp (by simp [kslots, hi']),
        Heap.ne_zero_of_mem (Heap.mem_of_get? hg), hg⟩
    · refine ⟨vs, hgv, hvl, fun i hi => ?_⟩
      have hi' : i < rows.length := H.count ▸ hi
      have hg := H.get_value (List.getElem_mem hi')
      exact ⟨_, _, prefix_getElem? hvp (by simp [vslots, hi']),
        Heap.ne_zero_of_mem (Heap.mem_of_get? hg), hg⟩

/-- A covered ledger has exactly the blocks of the live maps. -/
theorem Covers.keys_eq : ∀ {live : List Addr} {L : Ledger Block} {F : Ledger Block},
    Covers live L → h.entries = L + F →
    L.map Sigma.fst = (↑(live.flatMap (ownBlocks h)) : Multiset Addr)
  | [], _, F, .nil, _ => rfl
  | m :: live, _, F, .cons (O := O) (L := L) ho hc, he => by
    rw [List.flatMap_cons, ← Multiset.coe_add, Multiset.map_add,
      ho.keys_eq (F := L + F) (by rw [he]; ac_rfl), hc.keys_eq (F := O + F) (by rw [he]; ac_rfl)]

/-- **The ledger of every run.** After any operations on any number of maps, whatever the allocator
refuses: the live blocks are exactly those of the live maps, pairwise distinct; every map is in
shape; every further operation on a live handle returns, so none reads or frees a dead block or
leaves an array; and destroying a map takes exactly its blocks out of the ledger. -/
theorem run_ledger (A : Allocator) (ops : List Op) (w : World)
    (hs : Steps (World.step A) Op.Valid World.empty ops w) :
    w.heap.entries.map Sigma.fst = (↑(w.live.flatMap (ownBlocks w.heap)) : Multiset Addr) ∧
    (w.live.flatMap (ownBlocks w.heap)).Nodup ∧
    (∀ m ∈ w.live, MapShape w.heap m) ∧
    ∀ op : Op, op.Valid w → ∃ w', World.step A op w = .ok ((), w') ∧
      ∀ m, op = .destroy m → ∃ O, w.heap.entries = O + w'.heap.entries ∧
        O.map Sigma.fst = (↑(ownBlocks w.heap m) : Multiset Addr) := by
  have hc := run_covers hs
  have hk := hc.keys_eq (h := w.heap) (F := 0) (add_zero _).symm
  refine ⟨hk, ?_, fun m hm => ?_, fun op hv => ?_⟩
  · rw [← Multiset.coe_nodup, ← hk]
    exact w.heap.keys_nodup
  · obtain ⟨O, F, d, rows, ho, he, -⟩ := hc.split hm
    exact (ho.holds he).mapShape
  · obtain ⟨⟨⟩, w', hx, -⟩ := step_covers (A := A) hc hv
    refine ⟨w', hx, ?_⟩
    rintro m rfl
    obtain ⟨O, F, d, rows, ho, he, -⟩ := hc.split hv
    obtain ⟨_, h', hd, he'⟩ := skyMapDestroy_ends (ho.holds he)
    have hw : w'.heap = h' := by
      simp only [World.step, onHeap, hd, Except.ok.injEq, Prod.mk.injEq, true_and] at hx
      rw [← hx]
    exact ⟨O, by rw [hw, he', he], ho.keys_eq he⟩

/-- The ledger after a map is created and a pair is added to it. -/
theorem run_ledger_add : ∃ m w, m ≠ 0 ∧
    Steps (World.step (Allocator.bump fun _ => true)) Op.Valid World.empty
      [.create none, .call m (.add keyA keyB)] w ∧
    w.heap.entries.map Sigma.fst = (↑(w.live.flatMap (ownBlocks w.heap)) : Multiset Addr) := by
  obtain ⟨m, h, hc, H⟩ := exists_create (A := Allocator.bump fun _ => true) (h := Heap.empty)
    none rfl
  obtain ⟨r, h1, hx, -⟩ := call_ends (A := Allocator.bump fun _ => true) H (.add keyA keyB)
  have h1s : World.step (Allocator.bump fun _ => true) (.create none) World.empty =
      .ok ((), ⟨h, [m]⟩) := by
    simp [World.step, onHeap, World.empty, hc, register, H.ne_zero]
  have h2s : World.step (Allocator.bump fun _ => true) (.call m (.add keyA keyB)) ⟨h, [m]⟩ =
      .ok ((), ⟨h1, [m]⟩) := by
    simp [World.step, onHeap, hx]
  have hs : Steps (World.step (Allocator.bump fun _ => true)) Op.Valid World.empty
      [.create none, .call m (.add keyA keyB)] ⟨h1, [m]⟩ :=
    .cons trivial h1s (.cons List.mem_cons_self h2s (.nil _))
  exact ⟨m, _, H.ne_zero, hs, (run_ledger _ _ _ hs).1⟩

end Sky.Map
