import SkySdk.Map.Proof.Storage

/-!
# The public operations of the map

`call_ends`: a call on a map returns, whatever the allocator refuses, leaves the frame alone, and
answers and changes the pairs and the filter exactly as `AbsMap.call` does. Creation adds a map to
the ledger and destruction takes exactly its blocks out of it.
-/

set_option autoImplicit false

namespace Sky.Map

open Base
open Block (map ptrs chars)

variable {A : Allocator} {h : Heap Block} {F : Ledger Block} {m arr : Addr} {i : Nat}
  {d : SkyHandleMap} {v : List (Option Addr)} {s : CStr} {rows : List Row} {key value : CStr}

/-! ## Searches -/

/-- The loop finds the first of the strings `l` at the slots from `i` on that is `s`. -/
theorem findFrom_ends (hg : h.get? arr = some (ptrs v)) :
    ∀ (l : List (Addr × CStr)) (i : Nat), (∀ j x, l[j]? = some x → v[i + j]? = some (some x.1)) →
      (∀ x ∈ l, h.get? x.1 = some (chars x.2.cells)) →
      Ends (findFrom arr s i l.length) h fun r h' =>
        h' = h ∧ r = (l.findIdx? fun x => x.2 = s).map (i + ·)
  | [], i, _, _ => by simp [findFrom]
  | x :: l, i, hs, hx => by
    simp only [List.length_cons, findFrom]
    rw [ends_bind]
    refine loadSlot_ends (a := x.1) hg (by simpa using hs 0 x rfl) ?_
    rw [ends_bind]
    refine loadStr_ends (s := x.2) (hx x List.mem_cons_self) ?_
    by_cases he : x.2 = s
    · rw [if_pos he, ends_pure]
      simp [List.findIdx?_cons, he]
    · rw [if_neg he]
      have ih := findFrom_ends hg l (i + 1)
        (fun j y hj => by have := hs (j + 1) y hj; rwa [show i + 1 + j = i + (j + 1) by omega])
        fun y hy => hx y (List.mem_cons_of_mem _ hy)
      refine ih.mono fun r h' hp => ⟨hp.1, ?_⟩
      rw [hp.2, List.findIdx?_cons]
      simp only [he, decide_false, Bool.false_eq_true, if_false, Option.map_map]
      congr 1
      funext j
      simp only [Function.comp_apply]
      omega

theorem findKey_ends (H : Holds h F m d rows) (key : CStr) :
    Ends (findKey m key) h fun r h' => h' = h ∧ r = rows.findIdx? fun x => x.key = key := by
  unfold findKey
  rw [ends_bind]
  refine loadMap_ends H.get ?_
  by_cases hr : rows = []
  · rcases H.ledger with ⟨-, hk, -⟩ | ⟨_, _, hne, -⟩
    · simp [hk, hr]
    · exact absurd hr hne
  · obtain ⟨ks, vs, hk, -, hgk, -⟩ := H.arrays hr
    rw [if_neg (Heap.ne_zero_of_mem (Heap.mem_of_get? hgk)), H.count]
    have hl := findFrom_ends (s := key) hgk (rows.map fun x => (x.kaddr, x.key)) 0
      (fun j x hj => prefix_getElem? hk (by
        simp only [List.getElem?_map, Option.map_eq_some_iff] at hj
        obtain ⟨y, hy, rfl⟩ := hj
        simp [kslots, hy]))
      (fun x hx => by
        obtain ⟨y, hy, rfl⟩ := List.mem_map.1 hx
        exact H.get_key hy)
    rw [List.length_map] at hl
    refine hl.mono fun r h' hp => ⟨hp.1, ?_⟩
    simp only [hp.2, Nat.zero_add, Option.map_id', List.findIdx?_map]
    rfl

theorem findValue_ends (H : Holds h F m d rows) (value : CStr) :
    Ends (findValue m value) h fun r h' => h' = h ∧ r = rows.findIdx? fun x => x.value = value := by
  unfold findValue
  rw [ends_bind]
  refine loadMap_ends H.get ?_
  by_cases hr : rows = []
  · rcases H.ledger with ⟨-, -, hv, -⟩ | ⟨_, _, hne, -⟩
    · simp [hv, hr]
    · exact absurd hr hne
  · obtain ⟨ks, vs, -, hv, -, hgv⟩ := H.arrays hr
    rw [if_neg (Heap.ne_zero_of_mem (Heap.mem_of_get? hgv)), H.count]
    have hl := findFrom_ends (s := value) hgv (rows.map fun x => (x.vaddr, x.value)) 0
      (fun j x hj => prefix_getElem? hv (by
        simp only [List.getElem?_map, Option.map_eq_some_iff] at hj
        obtain ⟨y, hy, rfl⟩ := hj
        simp [vslots, hy]))
      (fun x hx => by
        obtain ⟨y, hy, rfl⟩ := List.mem_map.1 hx
        exact H.get_value hy)
    rw [List.length_map] at hl
    refine hl.mono fun r h' hp => ⟨hp.1, ?_⟩
    simp only [hp.2, Nat.zero_add, Option.map_id', List.findIdx?_map]
    rfl

/-! ## At a pair's own index -/

theorem findIdx?_split {α : Type} {p : α → Bool} :
    ∀ {l : List α} {i : Nat}, l.findIdx? p = some i →
      ∃ pre x post, l = pre ++ x :: post ∧ pre.length = i ∧ p x = true ∧ ∀ y ∈ pre, p y = false
  | [], i, h => by simp at h
  | x :: l, i, h => by
    rw [List.findIdx?_cons] at h
    cases hx : p x with
    | true =>
      simp only [hx, if_true, Option.some.injEq] at h
      exact ⟨[], x, l, rfl, h, hx, by simp⟩
    | false =>
      simp only [hx, Bool.false_eq_true, if_false, Option.map_eq_some_iff] at h
      obtain ⟨j, hj, rfl⟩ := h
      obtain ⟨pre, y, post, rfl, rfl, hy, hn⟩ := findIdx?_split hj
      refine ⟨x :: pre, y, post, rfl, rfl, hy, fun z hz => ?_⟩
      rcases List.mem_cons.1 hz with rfl | hz
      · exact hx
      · exact hn z hz

/-- The pair of a key that is found; the key is that of no pair before it. -/
theorem findKey_split (h : rows.findIdx? (fun x => x.key = key) = some i) :
    ∃ pre x post, rows = pre ++ x :: post ∧ pre.length = i ∧ x.key = key ∧
      x.key ∉ (pre.map Row.pair).map Prod.fst := by
  obtain ⟨pre, x, post, hrows, hlen, hx, hn⟩ := findIdx?_split h
  have hk : x.key = key := by simpa using hx
  subst hk
  exact ⟨pre, x, post, hrows, hlen, rfl, by simpa [Row.pair] using hn⟩

theorem prefix_set {α : Type} {a b v : List α} {x y : α} (hp : a ++ x :: b <+: v)
    (hi : a.length = i) : a ++ y :: b <+: v.set i y := by
  obtain ⟨rest, rfl⟩ := hp
  subst hi
  simp

theorem prefix_move {α : Type} {a b v : List α} {x : α} {n : Nat} (hp : a ++ x :: b <+: v)
    (hi : a.length = i) (hn : b.length = n) :
    a ++ b <+: v.take i ++ (v.drop (i + 1)).take n ++ v.drop (i + n) := by
  obtain ⟨rest, rfl⟩ := hp
  subst hi hn
  have hd : (a ++ x :: b ++ rest).drop (a.length + 1) = b ++ rest := by
    rw [List.append_assoc, List.drop_append]
    simp
  rw [hd]
  simp

/-! ## What the calls see of a map -/

/-- The filter and the pairs, without the addresses. -/
def view (d : SkyHandleMap) (rows : List Row) : AbsMap :=
  ⟨d.mapFilterCallback, rows.map Row.pair⟩

@[simp] theorem filter_view (d : SkyHandleMap) (rows : List Row) :
    (view d rows).filter = d.mapFilterCallback := rfl

@[simp] theorem pairs_view (d : SkyHandleMap) (rows : List Row) :
    (view d rows).pairs = rows.map Row.pair := rfl

@[simp] theorem keys_view (d : SkyHandleMap) (rows : List Row) :
    (view d rows).keys = rows.map Row.key := by
  simp [AbsMap.keys, Row.pair]

@[simp] theorem values_view (d : SkyHandleMap) (rows : List Row) :
    (view d rows).values = rows.map Row.value := by
  simp [AbsMap.values, Row.pair]

theorem view_inserted {t : Nat} {r : Int} {d' : SkyHandleMap} {rows' : List Row}
    (hi : Inserted A t d rows key value r d' rows') :
    (if r ≠ 0 then SkyMapResult.mapError else .mapOk, view d' rows') =
      (view d rows).insert A t key value := by
  rcases hi with ⟨rfl, hg, hf, ka, va, rfl⟩ | ⟨hr, hg, rfl, hf⟩
  · simp [AbsMap.insert, hg, view, hf, Row.pair]
  · simp [AbsMap.insert, hg, hr, view, hf]

theorem findIdx?_isSome (rows : List Row) (key : CStr) :
    (rows.findIdx? fun x => x.key = key).isSome = decide (key ∈ rows.map Row.key) := by
  rw [List.findIdx?_isSome, Bool.eq_iff_iff]
  simp

/-! ## The calls that change the map -/

theorem skyMapAdd_ends (H : Holds h F m d rows) (key value : CStr) :
    Ends (skyMapAdd A m (some key) (some value)) h fun r h' => h.time ≤ h'.time ∧
      ∃ d' rows', Holds h' F m d' rows' ∧
        (r, view d' rows') = (view d rows).add A h.time key value := by
  simp only [skyMapAdd, H.ne_zero, if_false]
  rw [ends_bind]
  refine (findKey_ends H key).mono fun r h1 hp => ?_
  obtain ⟨e1, hr⟩ := hp
  subst h1 hr
  rw [findIdx?_isSome, AbsMap.add, keys_view, filter_view]
  by_cases hk : key ∈ rows.map Row.key
  · simp only [hk, decide_true, if_true, ends_pure]
    exact ⟨le_rfl, d, rows, H, rfl⟩
  simp only [hk, decide_false, Bool.false_eq_true, if_false]
  rw [ends_bind]
  refine loadMap_ends H.get ?_
  by_cases hf : filterRejects d.mapFilterCallback key value = true
  · rw [if_pos hf, if_pos hf, ends_pure]
    exact ⟨le_rfl, d, rows, H, rfl⟩
  rw [if_neg hf, if_neg hf, ends_bind]
  refine (insertNewKeyValue_ends H).mono fun r h2 hp => ?_
  obtain ⟨t2, d2, rows2, H2, hi⟩ := hp
  rw [← view_inserted hi]
  split <;> exact (ends_pure _).2 ⟨t2, d2, rows2, H2, rfl⟩

/-- The value of the pair between `pre` and `post` is reallocated and overwritten. -/
theorem updateValue_ends {pre post : List Row} {x : Row}
    (H : Holds h F m d (pre ++ x :: post)) (value : CStr) :
    Ends (do
        let newValue ← reallocChars A (← loadSlot d.values pre.length) (value.length + 1)
        if newValue = 0 then pure SkyMapResult.mapError
        else do
          storeChars newValue value.cells
          storeSlot d.values pre.length newValue
          pure .mapOk) h fun r h' => h.time ≤ h'.time ∧
      ∃ rows', Holds h' F m d rows' ∧
        ((A.grants h.time = false ∧ r = .mapError ∧ rows' = pre ++ x :: post) ∨
          (A.grants h.time = true ∧ r = .mapOk ∧
            ∃ q, rows' = pre ++ { x with vaddr := q, value := value } :: post)) := by
  rcases H.ledger with ⟨hn, -⟩ | ⟨ks, vs, hne, hkp, hvp, he⟩
  · simp at hn
  have hlen : pre.length < vs.length := by
    have := hvp.length_le
    simp only [length_vslots, List.length_append, List.length_cons] at this
    omega
  rw [ends_bind]
  refine loadSlot_ends (v := vs) (a := x.vaddr) (Heap.mem_entries.1 (by rw [he]; simp [cell]))
    (prefix_getElem? hvp (by simp [vslots])) ?_
  rw [ends_bind]
  refine reallocChars_ends (p := x.vaddr) (x := x.value.cells)
    (F := cell m (map d) + cell d.keys (ptrs ks) + cell d.values (ptrs vs) + strings pre +
      cell x.kaddr (chars x.key.cells) + strings post + F)
    (by rw [he, strings_append, strings_cons]; ac_rfl)
    (fun h1 hg e1 t1 => ?_) (fun q h1 hg hq e1 t1 => ?_)
  · rw [if_pos rfl, ends_pure]
    refine ⟨by omega, _, ⟨H.count, .inr ⟨ks, vs, hne, hkp, hvp, ?_⟩⟩, .inl ⟨hg, rfl, rfl⟩⟩
    rw [e1, strings_append, strings_cons]
    ac_rfl
  rw [if_neg hq, ends_bind]
  refine storeChars_ends e1 (by simp [length_resize]) fun h2 e2 t2 => ?_
  rw [List.drop_of_length_le (by simp [length_resize]), List.append_nil] at e2
  rw [ends_bind]
  refine storeSlot_ends (v := vs)
    (F := cell q (chars value.cells) + cell m (map d) + cell d.keys (ptrs ks) + strings pre +
      cell x.kaddr (chars x.key.cells) + strings post + F)
    (by rw [e2]; ac_rfl) hlen fun h3 e3 t3 => ?_
  rw [ends_pure]
  refine ⟨by omega, pre ++ { x with vaddr := q, value := value } :: post,
    ⟨by rw [H.count]; simp, .inr ⟨ks, vs.set pre.length (some q), by simp, ?_, ?_, ?_⟩⟩,
    .inr ⟨hg, rfl, q, rfl⟩⟩
  · simpa [kslots] using hkp
  · rw [vslots_append] at hvp ⊢
    exact prefix_set hvp (length_vslots pre)
  · rw [e3, strings_append, strings_cons]
    dsimp only
    ac_rfl

theorem skyMapAddorupdate_ends (H : Holds h F m d rows) (key value : CStr) :
    Ends (skyMapAddorupdate A m (some key) (some value)) h fun r h' => h.time ≤ h'.time ∧
      ∃ d' rows', Holds h' F m d' rows' ∧
        (r, view d' rows') = (view d rows).addorupdate A h.time key value := by
  simp only [skyMapAddorupdate, H.ne_zero, if_false]
  rw [ends_bind]
  refine loadMap_ends H.get ?_
  rw [AbsMap.addorupdate, keys_view, filter_view, pairs_view]
  by_cases hf : filterRejects d.mapFilterCallback key value = true
  · rw [if_pos hf, if_pos hf, ends_pure]
    exact ⟨le_rfl, d, rows, H, rfl⟩
  rw [if_neg hf, if_neg hf, ends_bind]
  refine (findKey_ends H key).mono fun r h1 ⟨e1, hr⟩ => ?_
  subst h1
  have hs := findIdx?_isSome rows key
  rw [← hr] at hs
  cases r with
  | none =>
    have hk : key ∉ rows.map Row.key := by simpa using hs
    rw [if_neg hk]
    rw [ends_bind]
    refine (insertNewKeyValue_ends H).mono fun r h2 ⟨t2, d2, rows2, H2, hi⟩ => ?_
    rw [← view_inserted hi]
    split <;> exact (ends_pure _).2 ⟨t2, d2, rows2, H2, rfl⟩
  | some i =>
    obtain ⟨pre, x, post, rfl, rfl, rfl, hpre⟩ := findKey_split hr.symm
    rw [if_pos (by simp)]
    refine (updateValue_ends H value).mono fun r h' ⟨t, rows', H', hp⟩ => ⟨t, d, rows', H', ?_⟩
    rcases hp with ⟨hg, rfl, rfl⟩ | ⟨hg, rfl, q, rfl⟩
    · simp [hg]
    · rw [List.map_append, List.map_cons, Row.pair, Assoc.replace_split hpre]
      simp [hg, view, Row.pair]

theorem skyMapDelete_ends (H : Holds h F m d rows) (key : CStr) :
    Ends (skyMapDelete A m (some key)) h fun r h' => h.time ≤ h'.time ∧
      ∃ d' rows', Holds h' F m d' rows' ∧ (r, view d' rows') = (view d rows).delete key := by
  simp only [skyMapDelete, H.ne_zero, if_false]
  rw [ends_bind]
  refine (findKey_ends H key).mono fun r h1 hp => ?_
  obtain ⟨e1, hr⟩ := hp
  subst h1
  have hs := findIdx?_isSome rows key
  rw [← hr] at hs
  rw [AbsMap.delete, keys_view, pairs_view]
  cases r with
  | none =>
    have hk : key ∉ rows.map Row.key := by simpa using hs
    rw [if_neg hk, ends_pure]
    exact ⟨le_rfl, d, rows, H, rfl⟩
  | some i =>
    obtain ⟨pre, x, post, rfl, rfl, rfl, hpre⟩ := findKey_split hr.symm
    rw [if_pos (by simp)]
    rcases H.ledger with ⟨hnil, -⟩ | ⟨ks, vs, hne, hkp, hvp, he⟩
    · simp at hnil
    have hc : d.count = pre.length + 1 + post.length := by
      rw [H.count, List.length_append, List.length_cons]
      omega
    have hkl := hkp.length_le
    have hvl := hvp.length_le
    rw [length_kslots, ← H.count, hc] at hkl
    rw [length_vslots, ← H.count, hc] at hvl
    have hn : d.count - pre.length - 1 = post.length := by omega
    rw [ends_bind]
    refine loadMap_ends H.get ?_
    rw [hn, ends_bind]
    refine loadSlot_ends (v := ks) (a := x.kaddr) (Heap.mem_entries.1 (by rw [he]; simp [cell]))
      (prefix_getElem? hkp (by simp [kslots])) ?_
    rw [ends_bind]
    refine Ends.free (p := x.kaddr) (b := chars x.key.cells)
      (F := cell m (map d) + cell d.keys (ptrs ks) + cell d.values (ptrs vs) +
        cell x.vaddr (chars x.value.cells) + strings (pre ++ post) + F)
      (by rw [he, strings_append, strings_cons, strings_append]; ac_rfl) fun h2 e2 t2 => ?_
    rw [ends_bind]
    refine loadSlot_ends (v := vs) (a := x.vaddr) (Heap.mem_entries.1 (by rw [e2]; simp [cell]))
      (prefix_getElem? hvp (by simp [vslots])) ?_
    rw [ends_bind]
    refine Ends.free (p := x.vaddr) (b := chars x.value.cells)
      (F := cell m (map d) + cell d.keys (ptrs ks) + cell d.values (ptrs vs) +
        strings (pre ++ post) + F) (by rw [e2]; ac_rfl) fun h3 e3 t3 => ?_
    rw [ends_bind]
    refine movePtrs_ends (p := d.keys) (v := ks)
      (F := cell m (map d) + cell d.values (ptrs vs) + strings (pre ++ post) + F)
      (by rw [e3]; ac_rfl) (by omega) (by omega) fun h4 e4 t4 => ?_
    rw [ends_bind]
    refine movePtrs_ends (p := d.values) (v := vs)
      (F := cell m (map d) + cell d.keys (ptrs (ks.take pre.length ++
        (ks.drop (pre.length + 1)).take post.length ++ ks.drop (pre.length + post.length))) +
        strings (pre ++ post) + F)
      (by rw [e4]; ac_rfl) (by omega) (by omega) fun h5 e5 t5 => ?_
    rw [ends_bind]
    rw [kslots_append] at hkp
    rw [vslots_append] at hvp
    have hkp' := prefix_move (b := kslots post) hkp (length_kslots pre) (length_kslots post)
    have hvp' := prefix_move (b := vslots post) hvp (length_vslots pre) (length_vslots post)
    rw [← kslots_append] at hkp'
    rw [← vslots_append] at hvp'
    refine (mapDecreaseStorage_ends (F := F) (d := d) (by rw [hc, List.length_append]; omega)
      (by rw [e5]; ac_rfl) hkp' hvp').mono fun _ h6 hp => ?_
    obtain ⟨t6, d6, hf6, H6⟩ := hp
    rw [ends_pure]
    refine ⟨by omega, d6, pre ++ post, H6, ?_⟩
    rw [List.map_append, List.map_cons, Row.pair, Assoc.remove_split hpre]
    simp [view, hf6]

/-! ## The queries -/

theorem skyMapContainskey_ends (H : Holds h F m d rows) (key : CStr) (b : Bool) :
    Ends (skyMapContainskey m (some key) (some b)) h fun r h' => h' = h ∧
      r = (.mapOk, some (decide (key ∈ (view d rows).keys))) := by
  simp only [skyMapContainskey, H.ne_zero, if_false]
  rw [ends_bind]
  refine (findKey_ends H key).mono fun r h1 ⟨e1, hr⟩ => ?_
  rw [ends_pure, hr, findIdx?_isSome, keys_view]
  exact ⟨e1, rfl⟩

theorem skyMapContainsvalue_ends (H : Holds h F m d rows) (value : CStr) (b : Bool) :
    Ends (skyMapContainsvalue m (some value) (some b)) h fun r h' => h' = h ∧
      r = (.mapOk, some (decide (value ∈ (view d rows).values))) := by
  simp only [skyMapContainsvalue, H.ne_zero, if_false]
  rw [ends_bind]
  refine (findValue_ends H value).mono fun r h1 ⟨e1, hr⟩ => ?_
  have hs : r.isSome = decide (value ∈ rows.map Row.value) := by
    rw [hr, List.findIdx?_isSome, Bool.eq_iff_iff]
    simp
  rw [ends_pure, hs, values_view]
  exact ⟨e1, rfl⟩

/-- The pointer handed out is NULL without the key, else one to the stored value. -/
theorem skyMapGetvaluefromkey_ends (H : Holds h F m d rows) (key : CStr) :
    Ends (skyMapGetvaluefromkey m (some key)) h fun p h' => h' = h ∧
      ((p = 0 ∧ (view d rows).pairs.lookup key = none) ∨
        ∃ v, h.get? p = some (chars v.cells) ∧ (view d rows).pairs.lookup key = some v) := by
  simp only [skyMapGetvaluefromkey, H.ne_zero, if_false]
  rw [ends_bind]
  refine (findKey_ends H key).mono fun r h1 ⟨e1, hr⟩ => ?_
  subst h1
  cases r with
  | none =>
    have hk : key ∉ (rows.map Row.pair).map Prod.fst := by
      have hs := findIdx?_isSome rows key
      rw [← hr] at hs
      simpa [Row.pair] using hs
    rw [ends_pure]
    exact ⟨rfl, .inl ⟨rfl, Assoc.lookup_none hk⟩⟩
  | some i =>
    obtain ⟨pre, x, post, rfl, rfl, rfl, hpre⟩ := findKey_split hr.symm
    obtain ⟨ks, vs, -, hvp, -, hgv⟩ := H.arrays (by simp)
    rw [ends_bind]
    refine loadMap_ends H.get ?_
    refine loadSlot_ends (a := x.vaddr) hgv (prefix_getElem? hvp (by simp [vslots])) ?_
    refine ⟨rfl, .inr ⟨x.value, H.get_value (by simp), ?_⟩⟩
    rw [pairs_view, List.map_append, List.map_cons]
    exact Assoc.lookup_split hpre

/-! ## Every call -/

/-- A call answers and acts as `AbsMap.call`, and leaves the rest of the ledger alone. -/
theorem call_ends (H : Holds h F m d rows) (c : Call) :
    Ends (call A m c) h fun r h' => h.time ≤ h'.time ∧
      ∃ d' rows', Holds h' F m d' rows' ∧
        (r, view d' rows') = (view d rows).call A h.time c := by
  cases c with
  | add k v =>
    refine (skyMapAdd_ends H k v).bind fun r h1 ⟨t, d', rows', H', hv⟩ => ?_
    exact (ends_pure _).2 ⟨t, d', rows', H', by rw [AbsMap.call, ← hv]⟩
  | addorupdate k v =>
    refine (skyMapAddorupdate_ends H k v).bind fun r h1 ⟨t, d', rows', H', hv⟩ => ?_
    exact (ends_pure _).2 ⟨t, d', rows', H', by rw [AbsMap.call, ← hv]⟩
  | delete k =>
    refine (skyMapDelete_ends H k).bind fun r h1 ⟨t, d', rows', H', hv⟩ => ?_
    exact (ends_pure _).2 ⟨t, d', rows', H', by rw [AbsMap.call, ← hv]⟩
  | containskey k =>
    refine (skyMapContainskey_ends H k false).bind fun r h1 ⟨e, hr⟩ => ?_
    subst h1 hr
    exact (ends_pure _).2 ⟨le_rfl, d, rows, H, rfl⟩
  | containsvalue v =>
    refine (skyMapContainsvalue_ends H v false).bind fun r h1 ⟨e, hr⟩ => ?_
    subst h1 hr
    exact (ends_pure _).2 ⟨le_rfl, d, rows, H, rfl⟩
  | getvaluefromkey k =>
    refine (skyMapGetvaluefromkey_ends H k).bind fun p h1 ⟨e, hr⟩ => ?_
    subst h1
    rcases hr with ⟨rfl, hl⟩ | ⟨v, hg, hl⟩
    · rw [loadArg, if_pos rfl]
      exact ⟨_, _, rfl, le_rfl, d, rows, H, by rw [AbsMap.call, hl]⟩
    · rw [ends_bind]
      refine loadArg_ends hg ?_
      exact (ends_pure _).2 ⟨le_rfl, d, rows, H, by rw [AbsMap.call, hl]⟩

end Sky.Map
