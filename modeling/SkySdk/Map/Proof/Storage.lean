import SkySdk.Map.Spec
import SkySdk.Map.Proof.Own

/-!
# Growing and shrinking the two arrays

What `Map_IncreaseStorageKeysValues`, `Map_DecreaseStorageKeysValues` and `insertNewKeyValue` do to
the ledger, whichever of their allocator calls is refused. Each lemma names the blocks the function
touches and keeps the frame `F`, and says exactly which grants lead to success: the calls are
numbered by `Heap.time`.
-/

set_option autoImplicit false

namespace Sky.Map

open Base
open Block (map ptrs chars)

variable {A : Allocator} {h : Heap Block} {F : Ledger Block} {m arr : Addr} {i : Nat}
  {d : SkyHandleMap} {v ks vs : List (Option Addr)} {s : CStr}

theorem mallocandstrcpyS_ends {Q : Int → Heap Block → Prop}
    (he : h.entries = cell arr (ptrs v) + F) (hi : i < v.length)
    (h0 : ∀ h' : Heap Block, A.grants h.time = false → h'.entries = cell arr (ptrs v) + F →
      h'.time = h.time + 1 → Q ENOMEM h')
    (h1 : ∀ a (h' : Heap Block), A.grants h.time = true →
      h'.entries = cell arr (ptrs (v.set i (some a))) + cell a (chars s.cells) + F →
      h'.time = h.time + 1 → Q 0 h') :
    Ends (mallocandstrcpyS A arr i (some s)) h Q := by
  have harr := Heap.ne_zero_of_mem (Heap.mem_of_entries he)
  simp only [mallocandstrcpyS, harr, if_false, mallocChars]
  rw [ends_bind]
  refine Ends.malloc (fun h' hg e t => ?_) (fun a h' hg ha e t => ?_)
  · rw [if_pos rfl, ends_pure]
    exact h0 h' hg (by rw [e, he]) t
  · rw [if_neg ha, ends_bind]
    refine storeSlot_ends (F := cell a (chars (List.replicate (s.length + 1) none)) + F)
      (by rw [e, he]; ac_rfl) hi fun h2 e2 t2 => ?_
    rw [ends_bind]
    refine loadSlot_ends (a := a) (Heap.get?_of_entries e2) (by simp [hi]) ?_
    rw [ends_bind, strcpyS, if_pos (Nat.lt_succ_self _), ends_bind]
    refine storeChars_ends (F := cell arr (ptrs (v.set i (some a))) + F)
      (by rw [e2]; ac_rfl) (by simp) fun h3 e3 t3 => ?_
    have e3' : h3.entries = cell arr (ptrs (v.set i (some a))) + cell a (chars s.cells) + F := by
      rw [e3]
      simp only [CStr.length_cells, List.drop_replicate, Nat.sub_self, List.replicate_zero,
        List.append_nil]
      ac_rfl
    simp only [ends_pure, lt_self_iff_false, if_false]
    exact h1 a h3 hg e3' (by omega)

/-! ## `Map_IncreaseStorageKeysValues` -/

/-- The first pair: both arrays are made, or nothing is left of them. -/
theorem mapIncreaseStorage_nil (he : h.entries = cell m (map d) + F) (hk : d.keys = 0)
    (hv : d.values = 0) (hc : d.count = 0) :
    Ends (mapIncreaseStorageKeysValues A m) h fun r h' =>
      (r ≠ 0 ∧ ¬ (A.grants h.time ∧ A.grants (h.time + 1)) ∧ h'.entries = cell m (map d) + F ∧
        h.time ≤ h'.time) ∨
      (r = 0 ∧ (A.grants h.time ∧ A.grants (h.time + 1)) ∧ h'.time = h.time + 2 ∧
        ∃ k v, h'.entries = cell m (map { d with keys := k, values := v, count := 1 }) +
          cell k (ptrs [some 0]) + cell v (ptrs [some 0]) + F) := by
  unfold mapIncreaseStorageKeysValues
  rw [ends_bind]
  refine loadMap_ends (Heap.get?_of_entries he) ?_
  rw [ends_bind, hk, hc]
  refine reallocPtrs_null_ends (fun h1 hg e1 t1 => ?_) (fun k h1 hg hk0 e1 t1 => ?_)
  · rw [if_pos rfl, ends_pure]
    exact .inl ⟨by decide, by simp [hg], by rw [e1, he], by omega⟩
  rw [if_neg hk0, ends_bind]
  refine modifyMap_ends (d := d) (F := cell k (ptrs (List.replicate (0 + 1) none)) + F)
    (by rw [e1, he]; ac_rfl) fun h2 e2 t2 => ?_
  rw [ends_bind]
  refine storeSlot_ends (v := [none]) (F := cell m (map { d with keys := k }) + F)
    (by rw [e2]; simp only [List.replicate]; ac_rfl) (by simp) fun h3 e3 t3 => ?_
  simp only [List.set_cons_zero] at e3
  rw [ends_bind, hv]
  refine reallocPtrs_null_ends (fun h4 hg4 e4 t4 => ?_) (fun v h4 hg4 hv0 e4 t4 => ?_)
  · rw [if_pos rfl, if_pos rfl, ends_bind]
    refine Ends.free (p := k) (b := ptrs [some 0]) (F := cell m (map { d with keys := k }) + F)
      (by rw [e4, e3]) fun h5 e5 t5 => ?_
    rw [ends_bind]
    refine modifyMap_ends (d := { d with keys := k }) (F := F) (by rw [e5]) fun h6 e6 t6 => ?_
    rw [ends_pure]
    refine .inl ⟨by decide, fun hc => ?_, ?_, by omega⟩
    · rw [show h.time + 1 = h3.time by omega, hg4] at hc
      exact absurd hc.2 (by decide)
    · rw [e6, ← hk]
  · rw [if_neg hv0, ends_bind]
    refine modifyMap_ends (d := { d with keys := k })
      (F := cell k (ptrs [some 0]) + cell v (ptrs (List.replicate (0 + 1) none)) + F)
      (by rw [e4, e3]; ac_rfl) fun h5 e5 t5 => ?_
    rw [ends_bind]
    refine storeSlot_ends (v := [none])
      (F := cell k (ptrs [some 0]) + cell m (map { d with keys := k, values := v }) + F)
      (by rw [e5]; simp only [List.replicate]; ac_rfl) (by simp) fun h6 e6 t6 => ?_
    simp only [List.set_cons_zero] at e6
    rw [ends_bind]
    refine modifyMap_ends (d := { d with keys := k, values := v })
      (F := cell k (ptrs [some 0]) + cell v (ptrs [some 0]) + F)
      (by rw [e6]; ac_rfl) fun h7 e7 t7 => ?_
    rw [ends_pure]
    refine .inr ⟨rfl, ⟨hg, ?_⟩, by omega, k, v, ?_⟩
    · rw [show h.time + 1 = h3.time by omega, hg4]
    · rw [e7]
      simp only [hc, Nat.zero_add]
      ac_rfl

/-- A later pair: both arrays grow by a NULL cell, or keep their first cells. -/
theorem mapIncreaseStorage_cons {kp vp : List (Option Addr)}
    (he : h.entries = cell m (map d) + cell d.keys (ptrs ks) + cell d.values (ptrs vs) + F)
    (hkp : kp <+: ks) (hvp : vp <+: vs) (hk : kp.length = d.count) (hv : vp.length = d.count)
    (hc : d.count ≠ 0) :
    Ends (mapIncreaseStorageKeysValues A m) h fun r h' =>
      (r ≠ 0 ∧ ¬ (A.grants h.time ∧ A.grants (h.time + 1)) ∧ h.time ≤ h'.time ∧
        ∃ k ks', kp <+: ks' ∧ h'.entries = cell m (map { d with keys := k }) +
          cell k (ptrs ks') + cell d.values (ptrs vs) + F) ∨
      (r = 0 ∧ (A.grants h.time ∧ A.grants (h.time + 1)) ∧ h'.time = h.time + 2 ∧
        ∃ k v, h'.entries =
          cell m (map { d with keys := k, values := v, count := d.count + 1 }) +
          cell k (ptrs (kp ++ [some 0])) + cell v (ptrs (vp ++ [some 0])) + F) := by
  unfold mapIncreaseStorageKeysValues
  rw [ends_bind]
  refine loadMap_ends (Heap.get?_of_entries (F := cell d.keys (ptrs ks) +
    cell d.values (ptrs vs) + F) (by rw [he]; ac_rfl)) ?_
  rw [ends_bind]
  refine reallocPtrs_ends (p := d.keys) (v := ks)
    (F := cell m (map d) + cell d.values (ptrs vs) + F) (by rw [he]; ac_rfl)
    (fun h1 hg e1 t1 => ?_) (fun k h1 hg hk0 e1 t1 => ?_)
  · rw [if_pos rfl, ends_pure]
    exact .inl ⟨by decide, by simp [hg], by omega, d.keys, ks, hkp, by rw [e1]; ac_rfl⟩
  rw [if_neg hk0, ends_bind]
  refine modifyMap_ends (d := d)
    (F := cell k (ptrs (resize (d.count + 1) ks)) + cell d.values (ptrs vs) + F)
    (by rw [e1]; ac_rfl) fun h2 e2 t2 => ?_
  rw [ends_bind]
  refine storeSlot_ends (v := resize (d.count + 1) ks)
    (F := cell m (map { d with keys := k }) + cell d.values (ptrs vs) + F)
    (by rw [e2]; ac_rfl) (by rw [length_resize]; omega) fun h3 e3 t3 => ?_
  rw [resize_set hkp hk] at e3
  rw [ends_bind]
  refine reallocPtrs_ends (p := d.values) (v := vs)
    (F := cell m (map { d with keys := k }) + cell k (ptrs (kp ++ [some 0])) + F)
    (by rw [e3]; ac_rfl) (fun h4 hg4 e4 t4 => ?_) (fun v h4 hg4 hv0 e4 t4 => ?_)
  · have hn : ¬ (A.grants h.time ∧ A.grants (h.time + 1)) := fun hcn => by
      rw [show h.time + 1 = h3.time by omega, hg4] at hcn
      exact absurd hcn.2 (by decide)
    rw [if_pos rfl, if_neg hc, ends_bind]
    refine reallocPtrs_ends (p := k) (v := kp ++ [some 0])
      (F := cell m (map { d with keys := k }) + cell d.values (ptrs vs) + F)
      (by rw [e4]; ac_rfl) (fun h5 hg5 e5 t5 => ?_) (fun q h5 hg5 hq0 e5 t5 => ?_)
    · -- the shrinking `realloc` fails too: the extra cell stays as slack
      rw [if_pos rfl, ends_pure]
      exact .inl ⟨by decide, hn, by omega, k, kp ++ [some 0], List.prefix_append _ _,
        by rw [e5]; ac_rfl⟩
    · rw [if_neg hq0, ends_bind]
      refine modifyMap_ends (d := { d with keys := k })
        (F := cell q (ptrs (resize d.count (kp ++ [some 0]))) + cell d.values (ptrs vs) + F)
        (by rw [e5]; ac_rfl) fun h6 e6 t6 => ?_
      rw [ends_pure]
      exact .inl ⟨by decide, hn, by omega, q, _,
        prefix_resize (v := kp ++ [some 0]) (List.prefix_append _ _) hk, by rw [e6]; ac_rfl⟩
  · rw [if_neg hv0, ends_bind]
    refine modifyMap_ends (d := { d with keys := k })
      (F := cell k (ptrs (kp ++ [some 0])) + cell v (ptrs (resize (d.count + 1) vs)) + F)
      (by rw [e4]; ac_rfl) fun h5 e5 t5 => ?_
    rw [ends_bind]
    refine storeSlot_ends (v := resize (d.count + 1) vs)
      (F := cell m (map { d with keys := k, values := v }) + cell k (ptrs (kp ++ [some 0])) + F)
      (by rw [e5]; ac_rfl) (by rw [length_resize]; omega) fun h6 e6 t6 => ?_
    rw [resize_set hvp hv] at e6
    rw [ends_bind]
    refine modifyMap_ends (d := { d with keys := k, values := v })
      (F := cell k (ptrs (kp ++ [some 0])) + cell v (ptrs (vp ++ [some 0])) + F)
      (by rw [e6]; ac_rfl) fun h7 e7 t7 => ?_
    rw [ends_pure]
    refine .inr ⟨rfl, ⟨hg, ?_⟩, by omega, k, v, by rw [e7]; ac_rfl⟩
    rw [show h.time + 1 = h3.time by omega, hg4]

/-! ## `Map_DecreaseStorageKeysValues` -/

/-- The last pair: both arrays are freed, and the filter is forgotten. -/
theorem mapDecreaseStorage_one
    (he : h.entries = cell m (map d) + cell d.keys (ptrs ks) + cell d.values (ptrs vs) + F)
    (hc : d.count = 1) :
    Ends (mapDecreaseStorageKeysValues A m) h fun _ h' => h.time ≤ h'.time ∧
      h'.entries = cell m (map ⟨0, 0, 0, none⟩) + F := by
  unfold mapDecreaseStorageKeysValues
  rw [ends_bind]
  refine loadMap_ends (Heap.get?_of_entries (F := cell d.keys (ptrs ks) +
    cell d.values (ptrs vs) + F) (by rw [he]; ac_rfl)) ?_
  rw [if_pos hc, ends_bind]
  refine Ends.free (p := d.keys) (b := ptrs ks) (F := cell m (map d) + cell d.values (ptrs vs) + F)
    (by rw [he]; ac_rfl) fun h1 e1 t1 => ?_
  rw [ends_bind]
  refine modifyMap_ends (d := d) (F := cell d.values (ptrs vs) + F) (by rw [e1]; ac_rfl)
    fun h2 e2 t2 => ?_
  rw [ends_bind]
  refine Ends.free (p := d.values) (b := ptrs vs) (F := cell m (map { d with keys := 0 }) + F)
    (by rw [e2]; ac_rfl) fun h3 e3 t3 => ?_
  refine modifyMap_ends (d := { d with keys := 0 }) (F := F) (by rw [e3]) fun h4 e4 t4 => ?_
  exact ⟨by omega, e4⟩

/-- The second half of the shrinking branch: `values` and the count. -/
theorem mapDecreaseStorage_values {kp vp : List (Option Addr)} {n t : Nat} {p : Addr}
    (he : h.entries = cell m (map d) + cell d.keys (ptrs ks) + cell d.values (ptrs vs) + F)
    (hkp : kp <+: ks) (hvp : vp <+: vs) (hv : vp.length = n) (hp : p = d.values)
    (ht : t ≤ h.time) :
    Ends (do
        let undoneValues ← reallocPtrs A p n
        (if undoneValues = 0 then pure ()
          else modifyMap m fun d => { d with values := undoneValues } : MapM Unit)
        modifyMap m fun d => { d with count := d.count - 1 }) h fun _ h' => t ≤ h'.time ∧
      ∃ k v ks' vs', kp <+: ks' ∧ vp <+: vs' ∧
        h'.entries = cell m (map { d with keys := k, values := v, count := d.count - 1 }) +
          cell k (ptrs ks') + cell v (ptrs vs') + F := by
  subst hp
  rw [ends_bind]
  refine reallocPtrs_ends (p := d.values) (v := vs)
    (F := cell m (map d) + cell d.keys (ptrs ks) + F) (by rw [he]; ac_rfl)
    (fun h1 _ e1 t1 => ?_) (fun v h1 _ hv0 e1 t1 => ?_)
  · rw [ends_bind, if_pos rfl, ends_pure]
    refine modifyMap_ends (d := d) (F := cell d.keys (ptrs ks) + cell d.values (ptrs vs) + F)
      (by rw [e1]; ac_rfl) fun h2 e2 t2 => ?_
    exact ⟨by omega, d.keys, d.values, ks, vs, hkp, hvp, by rw [e2]; ac_rfl⟩
  · rw [ends_bind, if_neg hv0]
    refine modifyMap_ends (d := d)
      (F := cell d.keys (ptrs ks) + cell v (ptrs (resize n vs)) + F)
      (by rw [e1]; ac_rfl) fun h2 e2 t2 => ?_
    refine modifyMap_ends (d := { d with values := v })
      (F := cell d.keys (ptrs ks) + cell v (ptrs (resize n vs)) + F) e2 fun h3 e3 t3 => ?_
    exact ⟨by omega, d.keys, v, ks, _, hkp, prefix_resize hvp hv, by rw [e3]; ac_rfl⟩

/-- An earlier pair: the first cells stay; a refused `realloc` leaves its array at its size. -/
theorem mapDecreaseStorage_succ {kp vp : List (Option Addr)}
    (he : h.entries = cell m (map d) + cell d.keys (ptrs ks) + cell d.values (ptrs vs) + F)
    (hkp : kp <+: ks) (hvp : vp <+: vs) (hk : kp.length = d.count - 1)
    (hv : vp.length = d.count - 1) (hc : d.count ≠ 1) :
    Ends (mapDecreaseStorageKeysValues A m) h fun _ h' => h.time ≤ h'.time ∧
      ∃ k v ks' vs', kp <+: ks' ∧ vp <+: vs' ∧
        h'.entries = cell m (map { d with keys := k, values := v, count := d.count - 1 }) +
          cell k (ptrs ks') + cell v (ptrs vs') + F := by
  unfold mapDecreaseStorageKeysValues
  rw [ends_bind]
  refine loadMap_ends (Heap.get?_of_entries (F := cell d.keys (ptrs ks) +
    cell d.values (ptrs vs) + F) (by rw [he]; ac_rfl)) ?_
  rw [if_neg hc, ends_bind]
  -- `keys`, shrunk or not
  refine reallocPtrs_ends (p := d.keys) (v := ks)
    (F := cell m (map d) + cell d.values (ptrs vs) + F) (by rw [he]; ac_rfl)
    (fun h1 _ e1 t1 => ?_) (fun k h1 _ hk0 e1 t1 => ?_)
  · rw [ends_bind, if_pos rfl, ends_pure]
    exact mapDecreaseStorage_values (d := d) (by rw [e1]; ac_rfl) hkp hvp hv rfl (by omega)
  · rw [ends_bind, if_neg hk0]
    refine modifyMap_ends (d := d)
      (F := cell k (ptrs (resize (d.count - 1) ks)) + cell d.values (ptrs vs) + F)
      (by rw [e1]; ac_rfl) fun h2 e2 t2 => ?_
    exact mapDecreaseStorage_values (d := { d with keys := k }) (by rw [e2]; ac_rfl)
      (prefix_resize hkp hk) hvp hv rfl (by omega)

/-! ## On a map -/

variable {rows : List Row} {key value : CStr}

/-- A grown map: `keys` and `values` have one NULL cell after those of `rows`. -/
def Grown (h : Heap Block) (F : Ledger Block) (m : Addr) (d : SkyHandleMap) (rows : List Row) :
    Prop :=
  d.count = rows.length + 1 ∧
    h.entries = cell m (map d) + cell d.keys (ptrs (kslots rows ++ [some 0])) +
      cell d.values (ptrs (vslots rows ++ [some 0])) + strings rows + F

theorem mapIncreaseStorage_ends (H : Holds h F m d rows) :
    Ends (mapIncreaseStorageKeysValues A m) h fun r h' =>
      (r ≠ 0 ∧ ¬ (A.grants h.time ∧ A.grants (h.time + 1)) ∧ h.time ≤ h'.time ∧
        ∃ d', d'.mapFilterCallback = d.mapFilterCallback ∧ Holds h' F m d' rows) ∨
      (r = 0 ∧ (A.grants h.time ∧ A.grants (h.time + 1)) ∧ h'.time = h.time + 2 ∧
        ∃ d', d'.mapFilterCallback = d.mapFilterCallback ∧ Grown h' F m d' rows) := by
  have hc := H.count
  rcases H.ledger with ⟨rfl, hk, hv, he⟩ | ⟨ks, vs, hne, hkp, hvp, he⟩
  · refine (mapIncreaseStorage_nil he hk hv hc).mono fun r h' hp => ?_
    rcases hp with ⟨hr, hg, e, t⟩ | ⟨hr, hg, t, k, v, e⟩
    · exact .inl ⟨hr, hg, t, d, rfl, hc, .inl ⟨rfl, hk, hv, e⟩⟩
    · refine .inr ⟨hr, hg, t, { d with keys := k, values := v, count := 1 }, rfl, rfl, ?_⟩
      simpa [kslots, vslots] using e
  · have hn : d.count ≠ 0 := by
      rw [hc]
      exact fun h0 => hne (List.length_eq_zero_iff.1 h0)
    refine (mapIncreaseStorage_cons (F := strings rows + F) (by rw [he]; ac_rfl) hkp hvp
      (by simp [hc]) (by simp [hc]) hn).mono fun r h' hp => ?_
    rcases hp with ⟨hr, hg, t, k, ks', hkp', e⟩ | ⟨hr, hg, t, k, v, e⟩
    · refine .inl ⟨hr, hg, t, { d with keys := k }, rfl, hc, .inr ⟨ks', vs, hne, hkp', hvp, ?_⟩⟩
      rw [e]
      ac_rfl
    · refine .inr ⟨hr, hg, t, { d with keys := k, values := v, count := d.count + 1 }, rfl,
        by simp [hc], ?_⟩
      rw [e]
      ac_rfl

/-- Shrinking drops the cells after those of `rows`; without rows it forgets the filter. -/
theorem mapDecreaseStorage_ends (hc : d.count = rows.length + 1)
    (he : h.entries = cell m (map d) + cell d.keys (ptrs ks) + cell d.values (ptrs vs) +
      strings rows + F)
    (hkp : kslots rows <+: ks) (hvp : vslots rows <+: vs) :
    Ends (mapDecreaseStorageKeysValues A m) h fun _ h' => h.time ≤ h'.time ∧
      ∃ d', d'.mapFilterCallback = (if rows = [] then none else d.mapFilterCallback) ∧
        Holds h' F m d' rows := by
  by_cases hr : rows = []
  · subst hr
    refine (mapDecreaseStorage_one (F := F) (by rw [he, strings_nil, add_zero]) hc).mono
      fun _ h' hp => ?_
    exact ⟨hp.1, ⟨0, 0, 0, none⟩, rfl, rfl, .inl ⟨rfl, rfl, rfl, hp.2⟩⟩
  · have hlen : rows.length ≠ 0 := fun h0 => hr (List.length_eq_zero_iff.1 h0)
    refine (mapDecreaseStorage_succ (F := strings rows + F) (by rw [he]; ac_rfl) hkp hvp
      (by simp [hc]) (by simp [hc]) (by omega)).mono fun _ h' hp => ?_
    obtain ⟨t, k, v, ks', vs', hkp', hvp', e⟩ := hp
    refine ⟨t, { d with keys := k, values := v, count := d.count - 1 }, by rw [if_neg hr],
      by simp [hc], .inr ⟨ks', vs', hr, hkp', hvp', ?_⟩⟩
    rw [e]
    ac_rfl

/-- What an insertion numbered `t` leaves: the pair at the end, or the pairs as they were. A
rolled back insertion of the first pair forgets the filter. -/
def Inserted (A : Allocator) (t : Nat) (d : SkyHandleMap) (rows : List Row) (key value : CStr)
    (r : Int) (d' : SkyHandleMap) (rows' : List Row) : Prop :=
  (r = 0 ∧ insertGranted A t = true ∧ d'.mapFilterCallback = d.mapFilterCallback ∧
    ∃ ka va, rows' = rows ++ [⟨ka, va, key, value⟩]) ∨
  (r ≠ 0 ∧ insertGranted A t = false ∧ rows' = rows ∧
    d'.mapFilterCallback =
      if rows = [] ∧ insertRollsBack A t = true then none else d.mapFilterCallback)

theorem insertNewKeyValue_ends (H : Holds h F m d rows) :
    Ends (insertNewKeyValue A m key value) h fun r h' => h.time ≤ h'.time ∧
      ∃ d' rows', Holds h' F m d' rows' ∧ Inserted A h.time d rows key value r d' rows' := by
  unfold insertNewKeyValue
  rw [ends_bind]
  refine (mapIncreaseStorage_ends H).mono fun r h1 hp => ?_
  rcases hp with ⟨hr, hg, t1, d1, hf1, H1⟩ | ⟨rfl, ⟨hg0, hg1⟩, t1, d1, hf1, hc1, e1⟩
  · rw [if_pos hr, ends_pure]
    have hg' : ∀ b : Bool, (A.grants h.time && A.grants (h.time + 1) && b) = false := by
      intro b
      rw [← Bool.and_eq_true, Bool.not_eq_true] at hg
      simp [hg]
    refine ⟨t1, d1, rows, H1, .inr ⟨by decide, ?_, rfl, ?_⟩⟩
    · unfold insertGranted
      rw [Bool.and_assoc, hg']
    · rw [if_neg (fun hc => by simp [insertRollsBack, hg'] at hc), hf1]
  rw [if_neg (by decide), ends_bind]
  refine loadMap_ends (d := d1) (Heap.mem_entries.1 (by rw [e1]; simp [cell])) ?_
  rw [ends_bind, hc1, Nat.add_sub_cancel]
  refine mallocandstrcpyS_ends (v := kslots rows ++ [some 0])
    (F := cell m (map d1) + cell d1.values (ptrs (vslots rows ++ [some 0])) + strings rows + F)
    (by rw [e1]; ac_rfl) (by simp) (fun h2 hg2 e2 t2 => ?_) (fun ka h2 hg2 e2 t2 => ?_)
  · -- no memory for the key: roll back
    rw [if_pos (by decide), ends_bind]
    refine (mapDecreaseStorage_ends (F := F) hc1 (by rw [e2]; ac_rfl)
      (List.prefix_append (kslots rows) [some 0])
      (List.prefix_append (vslots rows) [some 0])).mono fun _ h3 hp => ?_
    obtain ⟨t3, d3, hf3, H3⟩ := hp
    rw [ends_pure]
    have hg2' : A.grants (h.time + 2) = false := by rw [← t1]; exact hg2
    refine ⟨by omega, d3, rows, H3, .inr ⟨by decide, by simp [insertGranted, hg2'], rfl, ?_⟩⟩
    rw [hf3, hf1]
    simp [insertRollsBack, hg0, hg1, hg2']
  simp only [ne_eq, not_true_eq_false, if_false]
  rw [set_last (length_kslots rows)] at e2
  rw [ends_bind]
  refine loadMap_ends (d := d1) (Heap.mem_entries.1 (by rw [e2]; simp [cell])) ?_
  rw [ends_bind, hc1, Nat.add_sub_cancel]
  have hg2' : A.grants (h.time + 2) = true := by rw [← t1]; exact hg2
  refine mallocandstrcpyS_ends (v := vslots rows ++ [some 0])
    (F := cell m (map d1) + cell d1.keys (ptrs (kslots rows ++ [some ka])) +
      cell ka (chars key.cells) + strings rows + F)
    (by rw [e2]; ac_rfl) (by simp) (fun h3 hg3 e3 t3 => ?_) (fun va h3 hg3 e3 t3 => ?_)
  · -- no memory for the value: free the key and roll back
    rw [if_pos (by decide), ends_bind]
    refine loadSlot_ends (v := kslots rows ++ [some ka]) (a := ka)
      (Heap.mem_entries.1 (by rw [e3]; simp [cell])) (by simp) ?_
    rw [ends_bind]
    refine Ends.free (p := ka) (b := chars key.cells)
      (F := cell m (map d1) + cell d1.keys (ptrs (kslots rows ++ [some ka])) +
        cell d1.values (ptrs (vslots rows ++ [some 0])) + strings rows + F)
      (by rw [e3]; ac_rfl) fun h4 e4 t4 => ?_
    rw [ends_bind]
    refine (mapDecreaseStorage_ends (F := F) hc1 e4
      (List.prefix_append _ _) (List.prefix_append _ _)).mono fun _ h5 hp => ?_
    obtain ⟨t5, d5, hf5, H5⟩ := hp
    rw [ends_pure]
    have hg3' : A.grants (h.time + 3) = false := by
      rw [show h.time + 3 = h2.time by omega]; exact hg3
    refine ⟨by omega, d5, rows, H5, .inr ⟨by decide, by simp [insertGranted, hg3'], rfl, ?_⟩⟩
    rw [hf5, hf1]
    simp [insertRollsBack, hg0, hg1, hg2', hg3']
  simp only [not_true_eq_false, if_false, ends_pure]
  rw [set_last (length_vslots rows)] at e3
  have hg3' : A.grants (h.time + 3) = true := by
    rw [show h.time + 3 = h2.time by omega]; exact hg3
  refine ⟨by omega, d1, rows ++ [⟨ka, va, key, value⟩], ⟨by simp [hc1], .inr ⟨_, _, by simp,
    List.prefix_rfl, List.prefix_rfl, ?_⟩⟩,
    .inl ⟨rfl, by simp [insertGranted, hg0, hg1, hg2', hg3'], hf1, ka, va, rfl⟩⟩
  rw [e3, kslots_append, vslots_append, strings_append, strings_cons, strings_nil, add_zero]
  simp only [kslots, vslots, List.map_cons, List.map_nil]
  ac_rfl

end Sky.Map
