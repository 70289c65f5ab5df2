import SkySdk.Map.Proof.Clone

/-!
# Runs of calls on one map

A property of the filter and the pairs that every `AbsMap.call` keeps holds after every run
(`runCalls_ends`, `steps_holds`). Two instances: the pairs stay an insertion-ordered association
list with distinct keys, whatever the allocator refuses, and they all pass the filter given at
creation as long as no call drops the last pair.
-/

set_option autoImplicit false

namespace Sky.Map

open Base
open Block (map ptrs chars)

variable {A : Allocator} {h : Heap Block} {F : Ledger Block} {m : Addr} {d : SkyHandleMap}
  {rows : List Row}

/-! ## Reading the pairs -/

theorem pairsFrom_ends {ks vs : List (Option Addr)} (hgk : h.get? d.keys = some (ptrs ks))
    (hgv : h.get? d.values = some (ptrs vs)) :
    ∀ (rows : List Row) (i : Nat),
      (∀ j r, rows[j]? = some r →
        ks[i + j]? = some (some r.kaddr) ∧ vs[i + j]? = some (some r.vaddr)) →
      (∀ r ∈ rows, h.get? r.kaddr = some (chars r.key.cells) ∧
        h.get? r.vaddr = some (chars r.value.cells)) →
      Ends (pairsFrom d i rows.length) h fun ps h' => ps = rows.map Row.pair ∧ h' = h
  | [], i, _, _ => by simp [pairsFrom]
  | r :: rows, i, hs, hr => by
    have hslot := hs 0 r rfl
    have htext := hr r List.mem_cons_self
    simp only [List.length_cons, pairsFrom]
    rw [ends_bind]
    refine loadSlot_ends hgk hslot.1 ?_
    rw [ends_bind]
    refine loadStr_ends htext.1 ?_
    rw [ends_bind]
    refine loadSlot_ends hgv hslot.2 ?_
    rw [ends_bind]
    refine loadStr_ends htext.2 ?_
    have ih := pairsFrom_ends hgk hgv rows (i + 1)
      (fun j x hj => by
        have hj := hs (j + 1) x hj
        rwa [show i + (j + 1) = i + 1 + j by omega] at hj)
      fun x hx => hr x (List.mem_cons_of_mem _ hx)
    refine ih.bind fun ps h' hp => ?_
    obtain ⟨rfl, rfl⟩ := hp
    exact (ends_pure _).2 ⟨rfl, rfl⟩

theorem pairsOf_eq (H : Holds h F m d rows) : pairsOf m h = .ok (rows.map Row.pair, h) := by
  have he : Ends (pairsOf m) h fun ps h' => ps = rows.map Row.pair ∧ h' = h := by
    unfold pairsOf
    rw [ends_bind]
    refine loadMap_ends H.get ?_
    rw [H.count]
    by_cases hr : rows = []
    · subst hr
      simp [pairsFrom]
    · obtain ⟨ks, vs, hkp, hvp, hgk, hgv⟩ := H.arrays hr
      refine pairsFrom_ends hgk hgv rows 0 (fun j r hj => ?_)
        fun r hr => ⟨H.get_key hr, H.get_value hr⟩
      rw [Nat.zero_add]
      exact ⟨prefix_getElem? hkp (by simp [kslots, hj]), prefix_getElem? hvp (by simp [vslots, hj])⟩
  obtain ⟨ps, h', hx, rfl, rfl⟩ := he
  exact hx

theorem loadMap_eq (H : Holds h F m d rows) : loadMap m h = .ok (d, h) := by
  have hg := H.get
  simp [loadMap, load, hg]

/-! ## Invariants of runs -/

/-- What every call keeps of the filter and the pairs holds after a list of calls. -/
theorem runCalls_ends {I : AbsMap → Prop} (hI : ∀ t s c, I s → I (s.call A t c).2) :
    ∀ (cs : List Call) {h : Heap Block} {d : SkyHandleMap} {rows : List Row},
      Holds h F m d rows → I (view d rows) →
      Ends (runCalls A m cs) h fun _ h' => h.time ≤ h'.time ∧
        ∃ d' rows', Holds h' F m d' rows' ∧ I (view d' rows')
  | [], h, d, rows, H, hi => (ends_pure _).2 ⟨le_rfl, d, rows, H, hi⟩
  | c :: cs, h, d, rows, H, hi => by
    refine (call_ends H c).bind fun r h1 hp => ?_
    obtain ⟨t1, d1, rows1, H1, hv⟩ := hp
    have hi1 : I (view d1 rows1) := by
      have hi1 := hI h.time _ c hi
      rwa [← hv] at hi1
    refine (runCalls_ends hI cs H1 hi1).bind fun rs h2 hp => ?_
    obtain ⟨t2, h2⟩ := hp
    exact (ends_pure _).2 ⟨by omega, h2⟩

/-- The same of a run whose calls each satisfy `ok`, when those calls keep the property. -/
theorem steps_holds {I : AbsMap → Prop} {ok : Heap Block → Call → Prop}
    (hI : ∀ h d rows c, Holds h F m d rows → ok h c → I (view d rows) →
      I ((view d rows).call A h.time c).2)
    {cs : List Call} {h h' : Heap Block} (hs : Steps (call A m) ok h cs h')
    (hi : ∃ d rows, Holds h F m d rows ∧ I (view d rows)) :
    ∃ d rows, Holds h' F m d rows ∧ I (view d rows) := by
  refine Steps.inv (I := fun h => ∃ d rows, Holds h F m d rows ∧ I (view d rows)) ?_ hs hi
  rintro h1 c r h2 ⟨d, rows, H, hi⟩ hok hc
  obtain ⟨-, d2, rows2, H2, hv⟩ := (call_ends H c).result hc
  refine ⟨d2, rows2, H2, ?_⟩
  have hi2 := hI h1 d rows c H hok hi
  rwa [← hv] at hi2

/-! ## Runs with every allocation granted -/

theorem AbsMap.call_granted {t : Nat} (hg : ∀ t', t ≤ t' → A.grants t' = true) (s : AbsMap)
    (c : Call) : s.call A t c = s.call (Allocator.bump fun _ => true) 0 c := by
  have h0 := hg t le_rfl
  have h1 : insertGranted A t = true := by simp [insertGranted, hg]
  have hb0 : (Allocator.bump fun _ => true).grants 0 = true := rfl
  have hb1 : insertGranted (Allocator.bump fun _ => true) 0 = true := rfl
  cases c with
  | add k v => simp only [call, add, insert, h1, hb1, if_true]
  | addorupdate k v => simp only [call, addorupdate, insert, h0, h1, hb0, hb1, if_true]
  | delete k => rfl
  | containskey k => rfl
  | containsvalue v => rfl
  | getvaluefromkey k => rfl

/-- With every allocation granted from now on, the answers and the pairs are those of
`AbsMap.run`. -/
theorem runCalls_granted : ∀ (cs : List Call) {h : Heap Block} {d : SkyHandleMap} {rows : List Row},
    Holds h F m d rows → (∀ t, h.time ≤ t → A.grants t = true) →
    Ends (runCalls A m cs) h fun rs h' => h.time ≤ h'.time ∧
      ∃ d' rows', Holds h' F m d' rows' ∧ (rs, view d' rows') = (view d rows).run cs
  | [], h, d, rows, H, _ => (ends_pure _).2 ⟨le_rfl, d, rows, H, rfl⟩
  | c :: cs, h, d, rows, H, hg => by
    refine (call_ends H c).bind fun r h1 hp => ?_
    obtain ⟨t1, d1, rows1, H1, hv⟩ := hp
    rw [AbsMap.call_granted hg] at hv
    have ih := runCalls_granted cs H1 fun t ht => hg t (by omega)
    refine ih.bind fun rs h2 hp => ?_
    obtain ⟨t2, d2, rows2, H2, hv2⟩ := hp
    refine (ends_pure _).2 ⟨by omega, d2, rows2, H2, ?_⟩
    simp only [AbsMap.run, ← hv, ← hv2]

theorem exists_create (f : Option MapFilterCallback) (hg : A.grants h.time = true) :
    ∃ m h', skyMapCreate A f h = .ok (m, h') ∧ Holds h' h.entries m ⟨0, 0, 0, f⟩ [] := by
  obtain ⟨m, h', hx, hp⟩ := skyMapCreate_ends A f h
  rcases hp with ⟨-, hn, -⟩ | H
  · rw [hg] at hn
    cases hn
  · exact ⟨m, h', hx, H⟩

/-! ## The association list -/

namespace AbsMap

variable {s : AbsMap} {k v : CStr} {t : Nat}

theorem distinct_insert (hd : Assoc.Distinct s.pairs) (hk : k ∉ s.keys) :
    Assoc.Distinct (s.insert A t k v).2.pairs := by
  unfold insert
  split
  · exact hd.append hk
  · exact hd

theorem distinct_call (hd : Assoc.Distinct s.pairs) (c : Call) :
    Assoc.Distinct (s.call A t c).2.pairs := by
  cases c with
  | add k v =>
    simp only [call, add]
    split
    · exact hd
    · split
      · exact hd
      · exact distinct_insert hd ‹_›
  | addorupdate k v =>
    simp only [call, addorupdate]
    split
    · exact hd
    · split
      · split
        · exact hd.replace
        · exact hd
      · exact distinct_insert hd ‹_›
  | delete k =>
    simp only [call, delete]
    split
    · exact hd.remove
    · exact hd
  | containskey k => exact hd
  | containsvalue v => exact hd
  | getvaluefromkey k => exact hd

theorem insert_cases (A : Allocator) (t : Nat) (s : AbsMap) (k v : CStr) :
    ((s.insert A t k v).1 = .mapOk ∧ (s.insert A t k v).2.pairs = s.pairs ++ [(k, v)]) ∨
      ((s.insert A t k v).1 = .mapError ∧ (s.insert A t k v).2.pairs = s.pairs) := by
  unfold insert
  split
  · exact .inl ⟨rfl, rfl⟩
  · exact .inr ⟨rfl, rfl⟩

theorem mem_keys {s : AbsMap} {k : CStr} : k ∈ s.keys ↔ k ∈ s.pairs.map Prod.fst := Iff.rfl

/-- The deterministic call is one of the association list's. -/
theorem call_assocStep (A : Allocator) (t : Nat) (s : AbsMap) (c : Call) :
    AssocStep s.filter s.pairs (s.call A t c).1 (s.call A t c).2.pairs c := by
  cases c with
  | add k v =>
    simp only [AssocStep, call, add, ← mem_keys]
    by_cases hk : k ∈ s.keys
    · simp only [if_pos hk, and_self]
    by_cases hf : filterRejects s.filter k v = true
    · simp only [if_neg hk, if_pos hf, and_self]
    simp only [if_neg hk, if_neg hf]
    rcases insert_cases A t s k v with ⟨hr, hp⟩ | ⟨hr, hp⟩
    · exact .inl ⟨by rw [hr], hp⟩
    · exact .inr ⟨by rw [hr], hp⟩
  | addorupdate k v =>
    simp only [AssocStep, call, addorupdate, ← mem_keys]
    by_cases hf : filterRejects s.filter k v = true
    · simp only [if_pos hf, and_self]
    by_cases hk : k ∈ s.keys
    · simp only [if_neg hf, if_pos hk]
      obtain ⟨pre, w, post, hs, hn⟩ := Assoc.mem_split hk
      by_cases hg : A.grants t = true
      · simp only [if_pos hg]
        refine .inl ⟨trivial, pre, w, post, hs, ?_⟩
        rw [hs, Assoc.replace_split hn]
      · simp only [if_neg hg, and_self, or_true]
    simp only [if_neg hf, if_neg hk]
    rcases insert_cases A t s k v with ⟨hr, hp⟩ | ⟨hr, hp⟩
    · exact .inl ⟨by rw [hr], hp⟩
    · exact .inr ⟨by rw [hr], hp⟩
  | delete k =>
    simp only [AssocStep, call, delete, ← mem_keys]
    by_cases hk : k ∈ s.keys
    · simp only [if_pos hk]
      obtain ⟨pre, w, post, hs, hn⟩ := Assoc.mem_split hk
      refine ⟨trivial, pre, w, post, hs, ?_⟩
      rw [hs, Assoc.remove_split hn]
    · simp only [if_neg hk, and_self]
  | containskey k => exact ⟨rfl, rfl⟩
  | containsvalue v => exact ⟨rfl, rfl⟩
  | getvaluefromkey k => exact ⟨rfl, rfl⟩

end AbsMap

/-- **The map is an insertion-ordered association list.** From an empty one, after any calls `cs`
the keys are distinct and the next call is one of the association list under the filter then in the
handle. -/
theorem runCalls_assocStep (A : Allocator) (f : Option MapFilterCallback) (h0 : Heap Block) :
    Ends (skyMapCreate A f) h0 fun m h => m = 0 ∨
      (pairsOf m h = .ok ([], h) ∧
        ∀ (cs : List Call) (c : Call), Ends (runCalls A m cs) h fun _ h1 =>
          ∃ d ps, loadMap m h1 = .ok (d, h1) ∧ pairsOf m h1 = .ok (ps, h1) ∧
            (ps.map Prod.fst).Nodup ∧
            Ends (call A m c) h1 fun r h2 => ∃ ps', pairsOf m h2 = .ok (ps', h2) ∧
              AssocStep d.mapFilterCallback ps r ps' c) := by
  refine (skyMapCreate_ends A f h0).mono fun m h hp => ?_
  rcases hp with ⟨hm, -⟩ | H
  · exact .inl hm
  refine .inr ⟨pairsOf_eq H, fun cs c => ?_⟩
  have hd : Assoc.Distinct (view ⟨0, 0, 0, f⟩ []).pairs := List.nodup_nil
  refine (runCalls_ends (I := fun s => Assoc.Distinct s.pairs)
    (fun t s c hs => AbsMap.distinct_call hs c) cs H hd).mono fun rs h1 hp => ?_
  obtain ⟨-, d1, rows1, H1, hd1⟩ := hp
  refine ⟨d1, rows1.map Row.pair, loadMap_eq H1, pairsOf_eq H1, hd1, ?_⟩
  refine (call_ends H1 c).mono fun r h2 hp => ?_
  obtain ⟨-, d2, rows2, H2, hv⟩ := hp
  refine ⟨rows2.map Row.pair, pairsOf_eq H2, ?_⟩
  have hs := AbsMap.call_assocStep A h1.time (view d1 rows1) c
  rwa [← hv] at hs

/-! ## The filter -/

/-- The call `c` does not drop the last pair: it deletes no only pair, and it rolls back no first
insertion. -/
def KeepsFilter (A : Allocator) (m : Addr) (h : Heap Block) : Call → Prop
  | .add k v | .addorupdate k v => ∀ d, loadMap m h = .ok (d, h) → d.count = 0 →
    filterRejects d.mapFilterCallback k v = false → insertRollsBack A h.time = false
  | .delete k => ∀ d, loadMap m h = .ok (d, h) → d.count = 1 → findKey m k h = .ok (none, h)
  | _ => True

namespace AbsMap

variable {s : AbsMap} {f : MapFilterCallback} {k v : CStr} {t : Nat}

/-- The filter is `f`, and the pairs pass it. -/
def Filtered (f : MapFilterCallback) (s : AbsMap) : Prop :=
  s.filter = some f ∧ ∀ p ∈ s.pairs, f p.1 p.2 = 0

theorem filtered_insert (hs : s.Filtered f) (hr : filterRejects s.filter k v = false)
    (hk : s.pairs = [] → insertRollsBack A t = false) : (s.insert A t k v).2.Filtered f := by
  obtain ⟨hf, hp⟩ := hs
  have hv : f k v = 0 := by simpa [hf, filterRejects] using hr
  unfold insert
  split
  · refine ⟨hf, fun p hm => ?_⟩
    rcases List.mem_append.1 hm with hm | hm
    · exact hp p hm
    · rw [List.mem_singleton.1 hm]
      exact hv
  · refine ⟨?_, hp⟩
    dsimp only
    rw [if_neg (fun hc => by simp [hk hc.1] at hc)]
    exact hf

theorem filtered_replace (hs : s.Filtered f) (hr : filterRejects s.filter k v = false)
    (hk : k ∈ s.keys) : Filtered f { s with pairs := Assoc.replace k v s.pairs } := by
  obtain ⟨hf, hp⟩ := hs
  have hv : f k v = 0 := by simpa [hf, filterRejects] using hr
  obtain ⟨pre, w, post, he, hn⟩ := Assoc.mem_split hk
  refine ⟨hf, fun p hm => ?_⟩
  simp only [he, Assoc.replace_split hn, List.mem_append, List.mem_cons] at hm
  rcases hm with hm | rfl | hm
  · exact hp p (by simp [he, hm])
  · exact hv
  · exact hp p (by simp [he, hm])

theorem filtered_remove (hs : s.Filtered f) (hk : Assoc.remove k s.pairs ≠ []) :
    Filtered f { filter := if Assoc.remove k s.pairs = [] then none else s.filter
                 pairs := Assoc.remove k s.pairs } := by
  obtain ⟨hf, hp⟩ := hs
  refine ⟨?_, fun p hm => hp p ((Assoc.remove_sublist k s.pairs).mem hm)⟩
  dsimp only
  rw [if_neg hk]
  exact hf

end AbsMap

/-- One call that keeps the filter keeps it and stores only what it accepts. -/
theorem filtered_call {f : MapFilterCallback} (H : Holds h F m d rows) (c : Call)
    (hk : KeepsFilter A m h c) (hs : (view d rows).Filtered f) :
    ((view d rows).call A h.time c).2.Filtered f := by
  have hl := loadMap_eq H
  have hnil : (view d rows).pairs = [] → d.count = 0 := fun hn => by
    rw [H.count, List.map_eq_nil_iff.1 hn]
    rfl
  cases c with
  | add k v =>
    simp only [AbsMap.call, AbsMap.add]
    split
    · exact hs
    · split
      · exact hs
      · rename_i hf
        rw [Bool.not_eq_true] at hf
        exact AbsMap.filtered_insert hs hf fun hn => hk d hl (hnil hn) hf
  | addorupdate k v =>
    simp only [AbsMap.call, AbsMap.addorupdate]
    split
    · exact hs
    · rename_i hf
      rw [Bool.not_eq_true] at hf
      split
      · split
        · exact AbsMap.filtered_replace hs hf ‹_›
        · exact hs
      · exact AbsMap.filtered_insert hs hf fun hn => hk d hl (hnil hn) hf
  | delete k =>
    simp only [AbsMap.call, AbsMap.delete]
    split
    · rename_i hmem
      refine AbsMap.filtered_remove hs fun hnone => ?_
      -- removing one pair left none, so the key was that of the only pair
      obtain ⟨pre, w, post, he, hn⟩ := Assoc.mem_split hmem
      rw [he, Assoc.remove_split hn, List.append_eq_nil_iff] at hnone
      rw [pairs_view, hnone.1, hnone.2, List.nil_append] at he
      have hlen : rows.length = 1 := by simpa using congrArg List.length he
      obtain ⟨r, h', hx, rfl, hr⟩ := findKey_ends H k
      rw [hk d hl (H.count.trans hlen)] at hx
      cases hx
      have hsome := findIdx?_isSome rows k
      rw [← hr, decide_eq_true (keys_view d rows ▸ hmem)] at hsome
      cases hsome
    · exact hs
  | containskey k => exact hs
  | containsvalue v => exact hs
  | getvaluefromkey k => exact hs

/-- **Only accepted pairs, while the filter is kept.** In every run from a map created with the
filter `f` whose calls each keep the filter, the stored pairs pass `f`. -/
theorem filter_holds_of_keepsFilter (A : Allocator) (f : MapFilterCallback) (h0 h h1 : Heap Block)
    (m : Addr) (cs : List Call) (hc : skyMapCreate A (some f) h0 = .ok (m, h)) (hm : m ≠ 0)
    (hs : Steps (call A m) (KeepsFilter A m) h cs h1) :
    ∃ ps, pairsOf m h1 = .ok (ps, h1) ∧ ∀ p ∈ ps, f p.1 p.2 = 0 := by
  rcases (skyMapCreate_ends A (some f) h0).result hc with ⟨h0, -, -⟩ | H
  · exact absurd h0 hm
  obtain ⟨d, rows, H1, -, hp⟩ := steps_holds (I := AbsMap.Filtered f)
    (fun h d rows c H hk hi => filtered_call H c hk hi) hs ⟨_, _, H, rfl, fun p hp => by cases hp⟩
  exact ⟨rows.map Row.pair, pairsOf_eq H1, hp⟩

/-! The two strings and the filter of the examples below: `"b"` is a key the filter rejects. -/

def keyA : CStr := ⟨[97], CStr.noNul_a⟩

def keyB : CStr := ⟨[98], by decide⟩

def rejectB : MapFilterCallback := fun k _ => if k = keyB then 1 else 0

/-- A run that keeps the filter: one pair is added. -/
theorem filter_holds_after_add : ∃ m h h1, skyMapCreate (Allocator.bump fun _ => true)
      (some rejectB) Heap.empty = .ok (m, h) ∧ m ≠ 0 ∧
    Steps (call (Allocator.bump fun _ => true) m) (KeepsFilter (Allocator.bump fun _ => true) m) h
      [.add keyA keyB] h1 ∧
    ∃ ps, pairsOf m h1 = .ok (ps, h1) ∧ ∀ p ∈ ps, rejectB p.1 p.2 = 0 := by
  obtain ⟨m, h, hc, H⟩ := exists_create (A := Allocator.bump fun _ => true) (h := Heap.empty)
    (some rejectB) rfl
  obtain ⟨r, h1, hx, -⟩ := call_ends (A := Allocator.bump fun _ => true) H (.add keyA keyB)
  have hs : Steps (call (Allocator.bump fun _ => true) m)
      (KeepsFilter (Allocator.bump fun _ => true) m) h [.add keyA keyB] h1 :=
    .cons (fun _ _ _ _ => rfl) hx (.nil h1)
  exact ⟨m, h, h1, hc, H.ne_zero, hs,
    filter_holds_of_keepsFilter _ rejectB Heap.empty h h1 m _ hc H.ne_zero hs⟩

/-- After the only pair is deleted, a pair the filter rejects is stored. -/
theorem rejected_pair_stored : ∃ m h rs h1, skyMapCreate (Allocator.bump fun _ => true)
      (some rejectB) Heap.empty = .ok (m, h) ∧ m ≠ 0 ∧
    runCalls (Allocator.bump fun _ => true) m
      [.add keyA keyA, .delete keyA, .add keyB keyB] h = .ok (rs, h1) ∧
    pairsOf m h1 = .ok ([(keyB, keyB)], h1) ∧ rejectB keyB keyB ≠ 0 := by
  obtain ⟨m, h, hc, H⟩ := exists_create (A := Allocator.bump fun _ => true) (h := Heap.empty)
    (some rejectB) rfl
  obtain ⟨rs, h1, hx, -, d, rows, H1, hv⟩ := runCalls_granted (A := Allocator.bump fun _ => true)
    [.add keyA keyA, .delete keyA, .add keyB keyB] H fun _ _ => rfl
  have hp : rows.map Row.pair = [(keyB, keyB)] := congrArg (fun x => x.2.pairs) hv
  exact ⟨m, h, rs, h1, hc, H.ne_zero, hx, hp ▸ pairsOf_eq H1, by decide⟩

end Sky.Map
