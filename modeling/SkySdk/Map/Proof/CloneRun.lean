import SkySdk.Map.Proof.World

/-!
# A map and its clone

When nothing is refused any more, a run of calls answers as `AbsMap.run` does from the filter and
the pairs (`runCalls_granted`), so a map and its clone answer alike exactly when these cannot be
told apart. The clone has the pairs; it has the filter unless the map is empty.
-/

set_option autoImplicit false

namespace Sky.Map

open Base

variable {A : Allocator} {h : Heap Block} {F : Ledger Block} {a b m c : Addr}

/-- Every list of calls gets the same answers from `a` as from `b`. -/
def SameAnswers (A : Allocator) (a b : Addr) (h : Heap Block) : Prop :=
  ∀ s : List Call, ∃ rs ha hb,
    runCalls A a s h = .ok (rs, ha) ∧ runCalls A b s h = .ok (rs, hb)

/-- Calls on two maps in any order, `true` with those on the second one, with their responses. -/
def runBoth (A : Allocator) (a b : Addr) : List (Bool × Call) → MapM (List (Bool × Resp))
  | [] => pure []
  | (second, c) :: cs => do
    let r ← call A (if second then b else a) c
    let rs ← runBoth A a b cs
    pure ((second, r) :: rs)

/-- What belongs to one of the two maps. -/
def only {α : Type} (second : Bool) (xs : List (Bool × α)) : List α :=
  (xs.filter (·.1 == second)).map Prod.snd

/-- However calls on `a` and on `b` are interleaved, each of the two answers as it does alone. -/
def Independent (A : Allocator) (a b : Addr) (h : Heap Block) : Prop :=
  ∀ cs : List (Bool × Call), ∃ rs h' ha hb, runBoth A a b cs h = .ok (rs, h') ∧
    runCalls A a (only false cs) h = .ok (only false rs, ha) ∧
    runCalls A b (only true cs) h = .ok (only true rs, hb)

/-! ## States that answer alike -/

namespace AbsMap

variable {s s' : AbsMap}

/-- The same pairs, and filters that reject the same pairs. -/
def Alike (s s' : AbsMap) : Prop :=
  s.pairs = s'.pairs ∧ ∀ k v, filterRejects s.filter k v = filterRejects s'.filter k v

theorem alike_insert (hs : s.Alike s') (A : Allocator) (t : Nat) (k v : CStr) :
    (s.insert A t k v).1 = (s'.insert A t k v).1 ∧
      (s.insert A t k v).2.Alike (s'.insert A t k v).2 := by
  obtain ⟨hp, hf⟩ := hs
  simp only [insert, hp]
  split
  · exact ⟨rfl, rfl, hf⟩
  · refine ⟨rfl, rfl, fun k v => ?_⟩
    dsimp only
    split
    · rfl
    · exact hf k v

theorem alike_call (hs : s.Alike s') (A : Allocator) (t : Nat) (c : Call) :
    (s.call A t c).1 = (s'.call A t c).1 ∧ (s.call A t c).2.Alike (s'.call A t c).2 := by
  have hi := alike_insert hs A t
  obtain ⟨hp, hf⟩ := hs
  have hk : s.keys = s'.keys := congrArg (List.map Prod.fst) hp
  have hv : s.values = s'.values := congrArg (List.map Prod.snd) hp
  cases c with
  | add k v =>
    simp only [call, add, hk, hf]
    split
    · exact ⟨rfl, hp, hf⟩
    · split
      · exact ⟨rfl, hp, hf⟩
      · exact ⟨congrArg Resp.code (hi k v).1, (hi k v).2⟩
  | addorupdate k v =>
    simp only [call, addorupdate, hk, hf]
    split
    · exact ⟨rfl, hp, hf⟩
    · split
      · split
        · exact ⟨rfl, congrArg (Assoc.replace k v) hp, hf⟩
        · exact ⟨rfl, hp, hf⟩
      · exact ⟨congrArg Resp.code (hi k v).1, (hi k v).2⟩
  | delete k =>
    simp only [call, delete, hk, hp]
    split
    · refine ⟨rfl, rfl, fun k v => ?_⟩
      dsimp only
      split
      · rfl
      · exact hf k v
    · exact ⟨rfl, hp, hf⟩
  | containskey k => exact ⟨by simp only [call, hk], hp, hf⟩
  | containsvalue v => exact ⟨by simp only [call, hv], hp, hf⟩
  | getvaluefromkey k => exact ⟨by simp only [call, hp], hp, hf⟩

theorem alike_run : ∀ (cs : List Call) {s s' : AbsMap}, s.Alike s' → (s.run cs).1 = (s'.run cs).1
  | [], _, _, _ => rfl
  | c :: cs, s, s', hs => by
    obtain ⟨hr, hs'⟩ := alike_call hs (Allocator.bump fun _ => true) 0 c
    have ih := alike_run cs hs'
    simp only [run, hr, ih]

end AbsMap

/-! ## Two maps in one heap -/

/-- The answers of a run are those of the filter and the pairs. -/
theorem runCalls_answers {d : SkyHandleMap} {rows : List Row} (H : Holds h F m d rows)
    (hg : ∀ t, h.time ≤ t → A.grants t = true) (cs : List Call) :
    ∃ h', runCalls A m cs h = .ok (((view d rows).run cs).1, h') ∧ h.time ≤ h'.time ∧
      ∃ d' rows', Holds h' F m d' rows' := by
  obtain ⟨rs, h', hx, ht, d', rows', H', hv⟩ := runCalls_granted cs H hg
  have hr : rs = ((view d rows).run cs).1 := congrArg Prod.fst hv
  exact ⟨h', by rw [hx, hr], ht, d', rows', H'⟩

/-- One call, with the state it leaves. -/
theorem call_answers {d : SkyHandleMap} {rows : List Row} (H : Holds h F m d rows)
    (hg : ∀ t, h.time ≤ t → A.grants t = true) (c : Call) : ∃ h' d' rows',
    call A m c h = .ok (((view d rows).call (Allocator.bump fun _ => true) 0 c).1, h') ∧
      h.time ≤ h'.time ∧ Holds h' F m d' rows' ∧
      view d' rows' = ((view d rows).call (Allocator.bump fun _ => true) 0 c).2 := by
  obtain ⟨r, h', hx, ht, d', rows', H', hv⟩ := call_ends (A := A) H c
  rw [AbsMap.call_granted hg] at hv
  obtain ⟨rfl, hview⟩ := Prod.mk.inj hv
  exact ⟨h', d', rows', hx, ht, H', hview⟩

/-- Maps with disjoint parts of the ledger: a call on one leaves the part of the other in place. -/
theorem runBoth_answers : ∀ (cs : List (Bool × Call)) {h : Heap Block} {Oa Ob : Ledger Block}
    {da db : SkyHandleMap} {ra rb : List Row}, Owns Oa a da ra → Owns Ob b db rb →
    h.entries = Oa + (Ob + F) → (∀ t, h.time ≤ t → A.grants t = true) → ∃ rs h',
      runBoth A a b cs h = .ok (rs, h') ∧
        only false rs = ((view da ra).run (only false cs)).1 ∧
        only true rs = ((view db rb).run (only true cs)).1
  | [], h, _, _, _, _, _, _, _, _, _, _ => ⟨[], h, rfl, rfl, rfl⟩
  | (false, c) :: cs, h, Oa, Ob, da, db, ra, rb, hoa, hob, he, hg => by
    obtain ⟨h1, d1, r1, hx, ht, H1, hv⟩ := call_answers (hoa.holds he) hg c
    obtain ⟨O1, ho1, he1⟩ := H1.owns
    obtain ⟨rs, h2, hrest, hfirst, hsecond⟩ :=
      runBoth_answers cs ho1 hob he1 fun t ht' => hg t (ht.trans ht')
    rw [hv] at hfirst
    refine ⟨(false, _) :: rs, h2, ?_, congrArg (_ :: ·) hfirst, hsecond⟩
    rw [runBoth, bind_apply, if_neg Bool.false_ne_true, hx]
    dsimp only
    rw [bind_apply, hrest]
    rfl
  | (true, c) :: cs, h, Oa, Ob, da, db, ra, rb, hoa, hob, he, hg => by
    have he' : h.entries = Ob + (Oa + F) := by rw [he]; ac_rfl
    obtain ⟨h1, d1, r1, hx, ht, H1, hv⟩ := call_answers (hob.holds he') hg c
    obtain ⟨O1, ho1, he1⟩ := H1.owns
    have he2 : h1.entries = Oa + (O1 + F) := by rw [he1]; ac_rfl
    obtain ⟨rs, h2, hrest, hfirst, hsecond⟩ :=
      runBoth_answers cs hoa ho1 he2 fun t ht' => hg t (ht.trans ht')
    rw [hv] at hsecond
    refine ⟨(true, _) :: rs, h2, ?_, hfirst, congrArg (_ :: ·) hsecond⟩
    rw [runBoth, bind_apply, if_pos rfl, hx]
    dsimp only
    rw [bind_apply, hrest]
    rfl

theorem independent_of_owns {Oa Ob : Ledger Block} {da db : SkyHandleMap} {ra rb : List Row}
    (hoa : Owns Oa a da ra) (hob : Owns Ob b db rb) (he : h.entries = Oa + (Ob + F))
    (hg : ∀ t, h.time ≤ t → A.grants t = true) : Independent A a b h := by
  intro cs
  have he' : h.entries = Ob + (Oa + F) := by rw [he]; ac_rfl
  obtain ⟨rs, h', hx, hfirst, hsecond⟩ := runBoth_answers cs hoa hob he hg
  obtain ⟨ha, hxa, -⟩ := runCalls_answers (hoa.holds he) hg (only false cs)
  obtain ⟨hb, hxb, -⟩ := runCalls_answers (hob.holds he') hg (only true cs)
  exact ⟨rs, h', ha, hb, hx, hfirst ▸ hxa, hsecond ▸ hxb⟩

/-- **A map and its clone.** After any operations on any number of maps, let the clone `c` of the
live map `m` be made and nothing be refused from then on. Then `m` and `c` answer every list of
calls alike, and neither changes the other's answers, exactly when `m` has a pair or its filter
rejects none. -/
theorem clone_sameAnswers_iff (A : Allocator) (ops : List Op) (w : World) (m c : Addr)
    (h : Heap Block) (hs : Steps (World.step A) Op.Valid World.empty ops w) (hm : m ∈ w.live)
    (hc : skyMapClone A m w.heap = .ok (c, h)) (hc0 : c ≠ 0)
    (hg : ∀ t, h.time ≤ t → A.grants t = true) :
    (SameAnswers A m c h ∧ Independent A m c h) ↔
      ∃ d, loadMap m w.heap = .ok (d, w.heap) ∧
        (d.count ≠ 0 ∨ ∀ k v, filterRejects d.mapFilterCallback k v = false) := by
  obtain ⟨O, F, d, rows, ho, he, -⟩ := (run_covers hs).split hm
  have H := ho.holds he
  obtain ⟨-, ⟨h0, -⟩ | ⟨d', rows', H', hv⟩⟩ := (skyMapClone_ends H).result hc
  · exact absurd h0 hc0
  obtain ⟨O', ho', he'⟩ := H'.owns
  rw [he] at he'
  have hcount : d.count = 0 ↔ rows = [] := by rw [H.count, List.length_eq_zero_iff]
  have Hm : Holds h (O' + F) m d rows := ho.holds (by rw [he']; ac_rfl)
  have Hc : Holds h (O + F) c d' rows' := ho'.holds he'
  constructor
  · rintro ⟨hsame, -⟩
    refine ⟨d, loadMap_eq H, ?_⟩
    by_contra hn
    obtain ⟨hn0, hnf⟩ := not_or.1 hn
    rw [not_not, hcount] at hn0
    simp only [not_forall, Bool.not_eq_false] at hnf
    obtain ⟨k, v, hr⟩ := hnf
    -- the first addition tells the two apart
    obtain ⟨rs, h1, h2, hx1, hx2⟩ := hsame [.add k v]
    obtain ⟨h3, hy1, -⟩ := runCalls_answers Hm hg [.add k v]
    obtain ⟨h4, hy2, -⟩ := runCalls_answers Hc hg [.add k v]
    rw [hx1] at hy1
    rw [hx2, hv, if_pos hn0] at hy2
    have h5 : rs = [.code .mapFilterReject] := by
      rw [(Prod.mk.inj (Except.ok.inj hy1)).1, hn0]
      simp [AbsMap.run, AbsMap.call, AbsMap.add, AbsMap.keys, view, hr]
    have h6 : rs = [.code .mapOk] := by
      rw [(Prod.mk.inj (Except.ok.inj hy2)).1, hn0]
      simp [AbsMap.run, AbsMap.call, AbsMap.add, AbsMap.keys, AbsMap.insert, filterRejects,
        insertGranted, Allocator.bump]
    rw [h5] at h6
    cases h6
  · rintro ⟨d1, hl, hcond⟩
    rw [loadMap_eq H] at hl
    cases hl
    have hal : (view d rows).Alike (view d' rows') := by
      rw [hv]
      refine ⟨rfl, fun k v => ?_⟩
      dsimp only
      split
      · rename_i hr
        exact (hcond.resolve_left (not_not.2 (hcount.2 hr))) k v
      · rfl
    refine ⟨fun s => ?_, independent_of_owns (F := F) ho ho' (by rw [he']; ac_rfl) hg⟩
    obtain ⟨h1, hx1, -⟩ := runCalls_answers Hm hg s
    obtain ⟨h2, hx2, -⟩ := runCalls_answers Hc hg s
    exact ⟨_, h1, h2, hx1, by rw [hx2, AbsMap.alike_run s hal]⟩

/-- The world after one map with the filter `rejectB` is created and cloned, both empty. -/
theorem exists_clone_empty : ∃ m w c h,
    Steps (World.step (Allocator.bump fun _ => true)) Op.Valid World.empty
      [.create (some rejectB)] w ∧ m ∈ w.live ∧ c ≠ 0 ∧
    skyMapClone (Allocator.bump fun _ => true) m w.heap = .ok (c, h) ∧
    ∃ d F d' F', Holds h F m d [] ∧ Holds h F' c d' [] ∧ loadMap m w.heap = .ok (d, w.heap) ∧
      d.mapFilterCallback = some rejectB ∧ d'.mapFilterCallback = none ∧ d.count = 0 := by
  obtain ⟨m, h, hc, H⟩ := exists_create (A := Allocator.bump fun _ => true) (h := Heap.empty)
    (some rejectB) rfl
  have hs : World.step (Allocator.bump fun _ => true) (.create (some rejectB)) World.empty =
      .ok ((), ⟨h, [m]⟩) := by
    simp [World.step, onHeap, World.empty, hc, register, H.ne_zero]
  obtain ⟨c, h1, hx, -, ⟨-, ⟨_, -, hr⟩, -⟩ | ⟨d', rows', H', hv⟩⟩ :=
    skyMapClone_ends (A := Allocator.bump fun _ => true) H
  · cases hr
  have hf : d'.mapFilterCallback = none := congrArg AbsMap.filter hv
  have hrows : rows'.map Row.pair = [] := congrArg AbsMap.pairs hv
  rw [List.map_eq_nil_iff] at hrows
  subst hrows
  obtain ⟨O, ho, he⟩ := H.owns
  obtain ⟨O', -, he'⟩ := H'.owns
  exact ⟨m, ⟨h, [m]⟩, c, h1, .cons trivial hs (.nil _), List.mem_cons_self, H'.ne_zero, hx, _, _,
    d', _, ho.holds (F := O' + Heap.empty.entries) (by rw [he', he]; ac_rfl), H', loadMap_eq H,
    rfl, hf, rfl⟩

/-- The equivalence for an empty map with a filter: its clone does not answer alike. -/
theorem clone_empty_not_sameAnswers : ∃ m w c h,
    Steps (World.step (Allocator.bump fun _ => true)) Op.Valid World.empty
      [.create (some rejectB)] w ∧
    skyMapClone (Allocator.bump fun _ => true) m w.heap = .ok (c, h) ∧
    ¬ (SameAnswers (Allocator.bump fun _ => true) m c h ∧
      Independent (Allocator.bump fun _ => true) m c h) := by
  obtain ⟨m, w, c, h, hs, hm, hc0, hc, d, F, d', F', -, -, hl, hf, -, hn⟩ := exists_clone_empty
  refine ⟨m, w, c, h, hs, hc, ?_⟩
  rw [clone_sameAnswers_iff _ _ w m c h hs hm hc hc0 fun _ _ => rfl]
  rintro ⟨d1, hl1, hcond⟩
  rw [hl] at hl1
  cases hl1
  rcases hcond with hcond | hcond
  · exact hcond hn
  · have hr := hcond keyB keyB
    rw [hf] at hr
    exact absurd hr (by decide)

/-- The clone of an empty map takes a pair that the map's filter rejects. -/
theorem clone_accepts_rejected : ∃ m w c h hm hc,
    Steps (World.step (Allocator.bump fun _ => true)) Op.Valid World.empty
      [.create (some rejectB)] w ∧ m ∈ w.live ∧ c ≠ 0 ∧
    skyMapClone (Allocator.bump fun _ => true) m w.heap = .ok (c, h) ∧
    runCalls (Allocator.bump fun _ => true) m [.add keyB keyA] h =
      .ok ([.code .mapFilterReject], hm) ∧
    runCalls (Allocator.bump fun _ => true) c [.add keyB keyA] h = .ok ([.code .mapOk], hc) := by
  obtain ⟨m, w, c, h, hs, hm, hc0, hc, d, F, d', F', H, H', -, hf, hf', -⟩ := exists_clone_empty
  have hg : ∀ t, h.time ≤ t → (Allocator.bump fun _ => true).grants t = true := fun _ _ => rfl
  obtain ⟨h1, hx1, -⟩ := runCalls_answers H hg [.add keyB keyA]
  obtain ⟨h2, hx2, -⟩ := runCalls_answers H' hg [.add keyB keyA]
  have hv : view d [] = ⟨some rejectB, []⟩ := by simp [view, hf]
  have hv' : view d' [] = ⟨none, []⟩ := by simp [view, hf']
  rw [hv] at hx1
  rw [hv'] at hx2
  exact ⟨m, w, c, h, h1, h2, hs, hm, hc0, hc, hx1, hx2⟩

end Sky.Map
