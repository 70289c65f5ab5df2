import SkySdk.Map.Proof.Run

/-!
# Calls that do not return `MAP_OK`

Such a call leaves count, pairs and filter as they were, with one exception: an insertion into an
empty map that is rolled back takes the filter with it (`refused_unchanged_iff`).
-/

set_option autoImplicit false

namespace Sky.Map

open Base

variable {A : Allocator} {h h0 h1 h2 : Heap Block} {F : Ledger Block} {m : Addr}
  {d d' : SkyHandleMap} {rows rows' : List Row} {f : Option MapFilterCallback}

/-- `sky_map_add`, `sky_map_addorupdate` and `sky_map_delete`. -/
def Call.Updates : Call → Prop
  | .add _ _ | .addorupdate _ _ | .delete _ => True
  | _ => False

/-- Count, filter and the first `count` pairs are the same in both heaps. -/
def Unchanged (m : Addr) (h h' : Heap Block) : Prop :=
  ∃ d d' ps, loadMap m h = .ok (d, h) ∧ loadMap m h' = .ok (d', h') ∧ d'.count = d.count ∧
    d'.mapFilterCallback = d.mapFilterCallback ∧
    pairsOf m h = .ok (ps, h) ∧ pairsOf m h' = .ok (ps, h')

/-- The call puts a pair that the stored filter accepts into an empty map, and gets the two arrays
but not both strings. -/
def LosesFilter (A : Allocator) (m : Addr) (h : Heap Block) : Call → Prop
  | .add k v | .addorupdate k v => ∃ d, loadMap m h = .ok (d, h) ∧ d.count = 0 ∧
    d.mapFilterCallback ≠ none ∧ filterRejects d.mapFilterCallback k v = false ∧
    insertRollsBack A h.time = true
  | _ => False

theorem unchanged_iff_view (H : Holds h F m d rows) (H' : Holds h1 F m d' rows') :
    Unchanged m h h1 ↔ view d' rows' = view d rows := by
  constructor
  · rintro ⟨e, e', ps, hl, hl', -, hf, hp, hp'⟩
    rw [loadMap_eq H] at hl
    rw [loadMap_eq H'] at hl'
    rw [pairsOf_eq H] at hp
    rw [pairsOf_eq H'] at hp'
    cases hl
    cases hl'
    have hps : rows.map Row.pair = ps := congrArg Prod.fst (Except.ok.inj hp)
    have hps' : rows'.map Row.pair = ps := congrArg Prod.fst (Except.ok.inj hp')
    unfold view
    rw [hf, hps, hps']
  · intro hv
    have hf : d'.mapFilterCallback = d.mapFilterCallback := congrArg AbsMap.filter hv
    have hp : rows'.map Row.pair = rows.map Row.pair := congrArg AbsMap.pairs hv
    have hc : d'.count = d.count := by
      rw [H.count, H'.count]
      simpa using congrArg List.length hp
    exact ⟨d, d', _, loadMap_eq H, loadMap_eq H', hc, hf, pairsOf_eq H, hp ▸ pairsOf_eq H'⟩

namespace AbsMap

variable {s : AbsMap} {t : Nat} {k v : CStr}

/-- The call drops the filter in force without returning `MAP_OK`. -/
def Loses (A : Allocator) (t : Nat) (s : AbsMap) : Call → Prop
  | .add k v | .addorupdate k v => s.pairs = [] ∧ s.filter ≠ none ∧
    filterRejects s.filter k v = false ∧ insertRollsBack A t = true
  | _ => False

theorem insert_refused (hr : (s.insert A t k v).1 ≠ .mapOk) :
    (s.insert A t k v).2 = s ↔
      ¬ (s.pairs = [] ∧ s.filter ≠ none ∧ insertRollsBack A t = true) := by
  unfold insert at hr ⊢
  split at hr
  · exact absurd rfl hr
  · rename_i hg
    rw [if_neg hg]
    by_cases hlost : s.pairs = [] ∧ insertRollsBack A t = true
    · have hs : ({ s with filter := none } : AbsMap) = s ↔ s.filter = none := by
        cases s
        simp [eq_comm]
      rw [if_pos hlost, hs]
      simp [hlost]
    · rw [if_neg hlost]
      exact iff_of_true rfl fun hl => hlost ⟨hl.1, hl.2.2⟩

theorem call_refused {c : Call} (hu : c.Updates) (hr : (s.call A t c).1 ≠ .code .mapOk) :
    (s.call A t c).2 = s ↔ ¬ s.Loses A t c := by
  have hins : ∀ k v, (s.insert A t k v).1 ≠ .mapOk → filterRejects s.filter k v = false →
      ((s.insert A t k v).2 = s ↔ ¬ (s.pairs = [] ∧ s.filter ≠ none ∧
        filterRejects s.filter k v = false ∧ insertRollsBack A t = true)) := by
    intro k v hi hf
    rw [insert_refused hi]
    simp only [hf, true_and]
  cases c with
  | add k v =>
    simp only [call, add, Loses] at hr ⊢
    by_cases hk : k ∈ s.keys
    · have hne : s.pairs ≠ [] := by
        intro hn
        simp [keys, hn] at hk
      simp [hk, hne]
    by_cases hf : filterRejects s.filter k v = true
    · simp [hk, hf]
    rw [if_neg hk, if_neg hf] at hr ⊢
    exact hins k v (fun hi => hr (congrArg Resp.code hi)) (by simpa using hf)
  | addorupdate k v =>
    simp only [call, addorupdate, Loses] at hr ⊢
    by_cases hf : filterRejects s.filter k v = true
    · simp [hf]
    rw [if_neg hf] at hr ⊢
    by_cases hk : k ∈ s.keys
    · have hne : s.pairs ≠ [] := by
        intro hn
        simp [keys, hn] at hk
      rw [if_pos hk] at hr ⊢
      by_cases hg : A.grants t = true
      · rw [if_pos hg] at hr
        exact absurd rfl hr
      · rw [if_neg hg]
        exact iff_of_true rfl fun hl => hne hl.1
    rw [if_neg hk] at hr ⊢
    exact hins k v (fun hi => hr (congrArg Resp.code hi)) (by simpa using hf)
  | delete k =>
    simp only [call, delete, Loses, not_false_eq_true, iff_true] at hr ⊢
    by_cases hk : k ∈ s.keys
    · rw [if_pos hk] at hr
      exact absurd rfl hr
    · rw [if_neg hk]
  | containskey k => exact hu.elim
  | containsvalue v => exact hu.elim
  | getvaluefromkey k => exact hu.elim

end AbsMap

theorem losesFilter_iff (H : Holds h F m d rows) (c : Call) :
    LosesFilter A m h c ↔ (view d rows).Loses A h.time c := by
  have hnil : (view d rows).pairs = [] ↔ d.count = 0 := by
    rw [H.count, pairs_view, List.map_eq_nil_iff, List.length_eq_zero_iff]
  have hload : ∀ P : SkyHandleMap → Prop,
      (∃ e, loadMap m h = .ok (e, h) ∧ P e) ↔ P d := by
    intro P
    rw [loadMap_eq H]
    constructor
    · rintro ⟨e, he, hp⟩
      cases he
      exact hp
    · exact fun hp => ⟨d, rfl, hp⟩
  cases c with
  | add k v => simp only [LosesFilter, AbsMap.Loses, hload, hnil, filter_view]
  | addorupdate k v => simp only [LosesFilter, AbsMap.Loses, hload, hnil, filter_view]
  | _ => exact Iff.rfl

theorem time_of_create (hc : skyMapCreate A f h0 = .ok (m, h)) : h.time = h0.time + 1 := by
  refine Ends.result (Q := fun _ h => h.time = h0.time + 1) ?_ hc
  unfold skyMapCreate
  rw [ends_bind]
  refine Ends.malloc (fun h1 _ _ t1 => ?_) (fun a h1 _ ha e1 t1 => ?_)
  · rw [if_neg (not_not.2 rfl), ends_pure]
    exact t1
  · rw [if_pos ha, ends_bind]
    refine Ends.store e1 fun h2 _ t2 => ?_
    rw [ends_pure, t2, t1]

theorem noNul_c : (0 : UInt8) ∉ [99] := by decide

def keyC : CStr := ⟨[99], noNul_c⟩

/-- After any calls on a map, a call of `add`, `addorupdate` or `delete` that does not return
`MAP_OK` leaves the map as it was, exactly unless it loses the filter. -/
theorem refused_unchanged_iff {cs : List Call} {rs : List Resp} {c : Call} {r : Resp}
    (hc : skyMapCreate A f h0 = .ok (m, h)) (hm : m ≠ 0)
    (hs : runCalls A m cs h = .ok (rs, h1)) (hx : call A m c h1 = .ok (r, h2))
    (hu : c.Updates) (hr : r ≠ .code .mapOk) :
    Unchanged m h1 h2 ↔ ¬ LosesFilter A m h1 c := by
  rcases (skyMapCreate_ends A f h0).result hc with ⟨hm0, -⟩ | H
  · exact absurd hm0 hm
  obtain ⟨-, d1, rows1, H1, -⟩ :=
    (runCalls_ends (I := fun _ => True) (fun _ _ _ _ => trivial) cs H trivial).result hs
  obtain ⟨-, d2, rows2, H2, hv⟩ := (call_ends H1 c).result hx
  have hr' : ((view d1 rows1).call A h1.time c).1 ≠ .code .mapOk := by
    rwa [← congrArg Prod.fst hv]
  rw [unchanged_iff_view H1 H2, losesFilter_iff H1, ← AbsMap.call_refused hu hr',
    ← congrArg Prod.snd hv]

/-- The second pair of a map with a filter, its key string refused. -/
theorem refused_unchanged_string : ∃ m h h1 h2,
    skyMapCreate (Allocator.bump (· != 7)) (some rejectB) Heap.empty = .ok (m, h) ∧
    runCalls (Allocator.bump (· != 7)) m [.add keyA keyA] h = .ok ([.code .mapOk], h1) ∧
    call (Allocator.bump (· != 7)) m (.add keyC keyA) h1 = .ok (.code .mapError, h2) ∧
    Unchanged m h1 h2 := by
  obtain ⟨m, h, h1, hc, hm, hx, ht⟩ : ∃ m h h1,
      skyMapCreate (Allocator.bump (· != 7)) (some rejectB) Heap.empty = .ok (m, h) ∧ m ≠ 0 ∧
      call (Allocator.bump (· != 7)) m (.add keyA keyA) h = .ok (.code .mapOk, h1) ∧
      h1.time = 5 := ⟨1, _, _, rfl, by decide, rfl, rfl⟩
  obtain ⟨h0, -⟩ | H := (skyMapCreate_ends _ _ _).result hc
  · exact absurd h0 hm
  obtain ⟨-, d1, rows1, H1, hv1⟩ := (call_ends H (.add keyA keyA)).result hx
  obtain ⟨r, h2, hx2, -, d2, rows2, -, hv2⟩ :=
    call_ends (A := Allocator.bump (· != 7)) H1 (.add keyC keyA)
  rw [time_of_create hc] at hv1
  have hview : view d1 rows1 = ⟨some rejectB, [(keyA, keyA)]⟩ := congrArg Prod.snd hv1
  rw [hview, ht] at hv2
  obtain rfl : r = .code .mapError := congrArg Prod.fst hv2
  have hs : runCalls (Allocator.bump (· != 7)) m [.add keyA keyA] h = .ok ([.code .mapOk], h1) := by
    simp [runCalls, bind_apply, hx]
  refine ⟨m, h, h1, h2, hc, hs, hx2, ?_⟩
  refine (refused_unchanged_iff hc hm hs hx2 trivial (by decide)).2 ?_
  rw [losesFilter_iff H1, hview]
  rintro ⟨hpairs, -⟩
  cases hpairs

/-- The first insertion into a map with a filter, its key string refused. -/
theorem refused_add_loses_filter : ∃ m h h1,
    skyMapCreate (Allocator.bump fun t => t != 3) (some rejectB) Heap.empty = .ok (m, h) ∧ m ≠ 0 ∧
    call (Allocator.bump fun t => t != 3) m (.add keyA keyA) h = .ok (.code .mapError, h1) ∧
    ¬ Unchanged m h h1 := by
  obtain ⟨m, h, hc, H⟩ := exists_create (A := Allocator.bump fun t => t != 3) (h := Heap.empty)
    (some rejectB) rfl
  have ht : h.time = 1 := time_of_create hc
  obtain ⟨r, h1, hx, -, d', rows', H', hv⟩ :=
    call_ends (A := Allocator.bump fun t => t != 3) H (.add keyA keyA)
  rw [ht] at hv
  have hr : r = .code .mapError := congrArg Prod.fst hv
  have hf : (view d' rows').filter = none := congrArg (fun x => x.2.filter) hv
  subst hr
  refine ⟨m, h, h1, hc, H.ne_zero, hx, fun hu => ?_⟩
  rw [(unchanged_iff_view H H').1 hu] at hf
  cases hf

end Sky.Map
