import SkySdk.Map.Proof.Ops

/-!
# Creation, destruction and cloning

Creation adds one map to the ledger, destruction takes exactly that map's blocks out of it, and a
clone is either a second map with the same pairs or nothing: whichever allocation fails, the copies
made so far are freed again. The clone of an empty map has no filter, whatever the original's.
-/

set_option autoImplicit false

namespace Sky.Map

open Base
open Block (map ptrs chars)

variable {A : Allocator} {h : Heap Block} {F : Ledger Block} {m arr source result : Addr}
  {d : SkyHandleMap} {v src ks vs : List (Option Addr)} {rows : List Row}

/-! ## Create and destroy -/

theorem skyMapCreate_ends (A : Allocator) (f : Option MapFilterCallback) (h : Heap Block) :
    Ends (skyMapCreate A f) h fun m h' =>
      (m = 0 ∧ A.grants h.time = false ∧ h'.entries = h.entries) ∨
        Holds h' h.entries m ⟨0, 0, 0, f⟩ [] := by
  unfold skyMapCreate
  rw [ends_bind]
  refine Ends.malloc (fun h1 hg e1 _ => ?_) (fun a h1 _ ha e1 _ => ?_)
  · rw [if_neg (not_not.2 rfl), ends_pure]
    exact .inl ⟨rfl, hg, e1⟩
  · rw [if_pos ha, ends_bind]
    refine Ends.store e1 fun h2 e2 _ => ?_
    rw [ends_pure]
    exact .inr ⟨rfl, .inl ⟨rfl, rfl, rfl, e2⟩⟩

/-- The loop of `sky_map_destroy` frees the strings of the pairs at the indices from `i` on. -/
theorem freePairs_ends : ∀ (rows : List Row) (i : Nat) (h : Heap Block),
    (∀ j r, rows[j]? = some r →
      ks[i + j]? = some (some r.kaddr) ∧ vs[i + j]? = some (some r.vaddr)) →
    h.entries = cell d.keys (ptrs ks) + cell d.values (ptrs vs) + strings rows + F →
    Ends (freePairs d i rows.length) h fun _ h' =>
      h'.entries = cell d.keys (ptrs ks) + cell d.values (ptrs vs) + F
  | [], i, h, _, he => by
    simp only [List.length_nil, freePairs, ends_pure]
    rw [he, strings_nil, add_zero]
  | r :: rows, i, h, hs, he => by
    simp only [List.length_cons, freePairs]
    have h0 := hs 0 r rfl
    rw [ends_bind]
    refine loadSlot_ends (v := ks) (a := r.kaddr) (Heap.mem_entries.1 (by rw [he]; simp [cell]))
      h0.1 ?_
    rw [ends_bind]
    refine Ends.free (p := r.kaddr) (b := chars r.key.cells)
      (F := cell d.keys (ptrs ks) + cell d.values (ptrs vs) +
        cell r.vaddr (chars r.value.cells) + strings rows + F)
      (by rw [he, strings_cons]; ac_rfl) fun h1 e1 _ => ?_
    rw [ends_bind]
    refine loadSlot_ends (v := vs) (a := r.vaddr) (Heap.mem_entries.1 (by rw [e1]; simp [cell]))
      h0.2 ?_
    rw [ends_bind]
    refine Ends.free (p := r.vaddr) (b := chars r.value.cells)
      (F := cell d.keys (ptrs ks) + cell d.values (ptrs vs) + strings rows + F)
      (by rw [e1]; ac_rfl) fun h2 e2 _ => ?_
    refine freePairs_ends rows (i + 1) h2 (fun j x hj => ?_) e2
    have hj := hs (j + 1) x hj
    rwa [show i + (j + 1) = i + 1 + j by omega] at hj

theorem skyMapDestroy_ends (H : Holds h F m d rows) :
    Ends (skyMapDestroy m) h fun _ h' => h'.entries = F := by
  unfold skyMapDestroy
  rw [if_pos H.ne_zero, ends_bind]
  refine loadMap_ends H.get ?_
  rw [ends_bind, H.count]
  rcases H.ledger with ⟨rfl, hk, hv, he⟩ | ⟨ks, vs, -, hkp, hvp, he⟩
  · rw [List.length_nil, freePairs, ends_pure, hk, hv, ends_bind]
    refine Ends.free_null ?_
    rw [ends_bind]
    refine Ends.free_null ?_
    exact Ends.free he fun h1 e1 _ => e1
  · refine (freePairs_ends (F := cell m (map d) + F) rows 0 h (fun j r hj => ?_)
      (by rw [he]; ac_rfl)).mono fun _ h1 e1 => ?_
    · rw [Nat.zero_add]
      exact ⟨prefix_getElem? hkp (by simp [kslots, hj]), prefix_getElem? hvp (by simp [vslots, hj])⟩
    rw [ends_bind]
    refine Ends.free (p := d.keys) (b := ptrs ks)
      (F := cell d.values (ptrs vs) + cell m (map d) + F) (by rw [e1]; ac_rfl) fun h2 e2 _ => ?_
    rw [ends_bind]
    refine Ends.free (p := d.values) (b := ptrs vs) (F := cell m (map d) + F)
      (by rw [e2]; ac_rfl) fun h3 e3 _ => ?_
    exact Ends.free e3 fun h4 e4 _ => e4

/-! ## One string array -/

/-- Strings at their addresses. -/
def texts (l : List (Addr × CStr)) : Ledger Block :=
  (l.map fun x => cell x.1 (chars x.2.cells)).sum

@[simp] theorem texts_nil : texts [] = 0 := rfl

@[simp] theorem texts_cons (x : Addr × CStr) (l : List (Addr × CStr)) :
    texts (x :: l) = cell x.1 (chars x.2.cells) + texts l := by
  simp [texts]

@[simp] theorem texts_append (l l' : List (Addr × CStr)) :
    texts (l ++ l') = texts l + texts l' := by
  simp [texts]

def Row.keyText (r : Row) : Addr × CStr := (r.kaddr, r.key)

def Row.valueText (r : Row) : Addr × CStr := (r.vaddr, r.value)

theorem strings_eq_texts (rows : List Row) :
    strings rows = texts (rows.map Row.keyText) + texts (rows.map Row.valueText) := by
  induction rows with
  | nil => rfl
  | cons r rows ih =>
    simp only [strings_cons, List.map_cons, texts_cons, ih, Row.keyText, Row.valueText]
    ac_rfl

theorem map_pair_eq_zip (rows : List Row) : rows.map Row.pair =
    ((rows.map Row.keyText).map Prod.snd).zip ((rows.map Row.valueText).map Prod.snd) := by
  induction rows with
  | nil => rfl
  | cons r rows ih =>
    rw [List.map_cons, ih]
    rfl

/-- Key strings and value strings, as many of the one as of the other, are pairs. -/
theorem exists_rows : ∀ {mk mv : List (Addr × CStr)}, mk.length = mv.length →
    ∃ rows : List Row, rows.map Row.keyText = mk ∧ rows.map Row.valueText = mv
  | [], [], _ => ⟨[], rfl, rfl⟩
  | x :: mk, y :: mv, hl => by
    obtain ⟨rows, rfl, rfl⟩ := exists_rows (Nat.succ.inj hl)
    exact ⟨⟨x.1, y.1, x.2, y.2⟩ :: rows, rfl, rfl⟩

/-- The slots of strings in an array. -/
def slots (l : List (Addr × CStr)) : List (Option Addr) := l.map fun x => some x.1

@[simp] theorem length_slots (l : List (Addr × CStr)) : (slots l).length = l.length := by
  simp [slots]

theorem kslots_eq_slots (rows : List Row) : kslots rows = slots (rows.map Row.keyText) := by
  simp [kslots, slots, Row.keyText]

theorem vslots_eq_slots (rows : List Row) : vslots rows = slots (rows.map Row.valueText) := by
  simp [vslots, slots, Row.valueText]

theorem freeStrings_ends : ∀ (l : List (Addr × CStr)) (j : Nat) (h : Heap Block),
    (∀ k x, l[k]? = some x → v[j + k]? = some (some x.1)) →
    h.entries = cell arr (ptrs v) + texts l + F →
    Ends (freeStrings arr j l.length) h fun _ h' =>
      h.time ≤ h'.time ∧ h'.entries = cell arr (ptrs v) + F
  | [], j, h, _, he => by
    simp only [List.length_nil, freeStrings, ends_pure]
    exact ⟨le_rfl, by rw [he, texts_nil, add_zero]⟩
  | x :: l, j, h, hs, he => by
    simp only [List.length_cons, freeStrings]
    rw [ends_bind]
    refine loadSlot_ends (v := v) (a := x.1) (Heap.mem_entries.1 (by rw [he]; simp [cell]))
      (hs 0 x rfl) ?_
    rw [ends_bind]
    refine Ends.free (p := x.1) (b := chars x.2.cells) (F := cell arr (ptrs v) + texts l + F)
      (by rw [he, texts_cons]; ac_rfl) fun h1 e1 t1 => ?_
    refine (freeStrings_ends l (j + 1) h1 (fun k y hk => ?_) e1).mono fun _ h2 ⟨t2, e2⟩ =>
      ⟨by omega, e2⟩
    have hk := hs (k + 1) y hk
    rwa [show j + (k + 1) = j + 1 + k by omega] at hk

/-- Some allocator call from number `t` on is refused. -/
def Refused (A : Allocator) (t : Nat) : Prop := ∃ t', t ≤ t' ∧ A.grants t' = false

theorem Refused.mono {t t' : Nat} (hr : Refused A t') (ht : t ≤ t') : Refused A t := by
  obtain ⟨u, hu, hg⟩ := hr
  exact ⟨u, ht.trans hu, hg⟩

/-- The copying loop with the strings `l` of `source` left and `done` copied: it copies a first
part `made` of `l`, all of it unless an allocation fails. -/
theorem cloneStrings_ends (hsrc : (⟨source, .ptrs src⟩ : Σ _ : Addr, Block) ∈ F) :
    ∀ (l done : List (Addr × CStr)) (h : Heap Block),
      (∀ j x, l[j]? = some x → src[done.length + j]? = some (some x.1)) →
      (∀ x ∈ l, (⟨x.1, .chars x.2.cells⟩ : Σ _ : Addr, Block) ∈ F) →
      h.entries = cell result (ptrs (slots done ++ List.replicate l.length none)) + texts done + F →
      Ends (cloneStrings A source result done.length l.length) h fun i h' => h.time ≤ h'.time ∧
        ∃ made : List (Addr × CStr), i = made.length ∧ made.length ≤ done.length + l.length ∧
          (made.length = done.length + l.length → made.map Prod.snd = (done ++ l).map Prod.snd) ∧
          (made.length ≠ done.length + l.length → Refused A h.time) ∧
          ∃ rest, h'.entries = cell result (ptrs (slots made ++ rest)) + texts made + F
  | [], done, h, _, _, he => by
    simp only [List.length_nil, cloneStrings, ends_pure]
    refine ⟨le_rfl, done, rfl, by omega, fun _ => by simp, fun hn => absurd rfl hn, [], ?_⟩
    rw [he]
    simp
  | x :: l, done, h, hs, hx, he => by
    simp only [List.length_cons, cloneStrings]
    rw [ends_bind]
    refine loadSlot_ends (v := src) (a := x.1) (Heap.mem_entries.1 (by rw [he]; simp [hsrc]))
      (by simpa using hs 0 x rfl) ?_
    rw [ends_bind]
    refine loadArg_ends (s := x.2) (Heap.mem_entries.1 (by rw [he]; simp [hx x])) ?_
    rw [ends_bind]
    refine mallocandstrcpyS_ends (v := slots done ++ List.replicate (l.length + 1) none)
      (F := texts done + F) (by rw [he, List.length_cons]; ac_rfl) (by simp)
      (fun h1 hg e1 t1 => ?_) (fun a h1 _ e1 t1 => ?_)
    · rw [if_pos (by decide), ends_pure]
      refine ⟨by omega, done, rfl, by omega, fun hn => by omega, fun _ => ⟨h.time, le_rfl, hg⟩,
        List.replicate (l.length + 1) none, ?_⟩
      rw [e1]
      ac_rfl
    · simp only [ne_eq, not_true_eq_false, if_false]
      have e1' : h1.entries = cell result (ptrs (slots (done ++ [(a, x.2)]) ++
          List.replicate l.length none)) + texts (done ++ [(a, x.2)]) + F := by
        rw [e1, texts_append, texts_cons, texts_nil, add_zero, List.replicate_succ,
          List.set_append_right _ _ (by simp), length_slots, Nat.sub_self, List.set_cons_zero]
        simp only [slots, List.map_append, List.map_cons, List.map_nil, List.append_assoc,
          List.singleton_append]
        ac_rfl
      have ih := cloneStrings_ends hsrc l (done ++ [(a, x.2)]) h1
        (fun j y hj => by
          have hj := hs (j + 1) y hj
          rwa [List.length_append, List.length_singleton, Nat.add_assoc, Nat.add_comm 1 j])
        (fun y hy => hx y (List.mem_cons_of_mem _ hy)) e1'
      rw [List.length_append, List.length_singleton] at ih
      refine ih.mono fun i h2 hp => ?_
      obtain ⟨t2, made, hi, hle, hall, href, rest, e2⟩ := hp
      refine ⟨by omega, made, hi, by omega, fun hn => ?_,
        fun hn => (href (by omega)).mono (by omega), rest, e2⟩
      rw [hall (by omega)]
      simp

theorem mapClonevector_ends {l : List (Addr × CStr)} {n : Nat} (hn : n = l.length)
    (hl : slots l <+: src)
    (hsrc : (⟨source, .ptrs src⟩ : Σ _ : Addr, Block) ∈ h.entries)
    (hx : ∀ x ∈ l, (⟨x.1, .chars x.2.cells⟩ : Σ _ : Addr, Block) ∈ h.entries) :
    Ends (mapClonevector A source n) h fun r h' => h.time ≤ h'.time ∧
      ((r = 0 ∧ Refused A h.time ∧ h'.entries = h.entries) ∨
        (r ≠ 0 ∧ ∃ made rest, made.map Prod.snd = l.map Prod.snd ∧
          h'.entries = cell r (ptrs (slots made ++ rest)) + texts made + h.entries)) := by
  subst hn
  unfold mapClonevector mallocPtrs
  rw [ends_bind]
  refine Ends.malloc (fun h1 hg e1 t1 => ?_) (fun r h1 _ hr e1 t1 => ?_)
  · rw [if_pos rfl, ends_pure]
    exact ⟨by omega, .inl ⟨rfl, ⟨h.time, le_rfl, hg⟩, e1⟩⟩
  rw [if_neg hr, ends_bind]
  refine (cloneStrings_ends hsrc l [] h1 (fun j x hj => ?_) hx
    (by rw [e1]; simp [slots])).mono fun i h2 ⟨t2, made, hi, hle, hall, href, rest, e2⟩ => ?_
  · exact prefix_getElem? hl (by simp [slots, hj])
  subst hi
  rw [List.length_nil, Nat.zero_add] at hle hall href
  by_cases hn : made.length = l.length
  · rw [if_pos hn, ends_pure]
    exact ⟨by omega, .inr ⟨hr, made, rest, hall hn, e2⟩⟩
  · -- the copies made before the refused one are freed
    rw [if_neg hn, ends_bind]
    refine (freeStrings_ends made 0 h2 (fun k x hk => ?_) e2).mono fun _ h3 ⟨t3, e3⟩ => ?_
    · rw [Nat.zero_add]
      exact prefix_getElem? (List.prefix_append _ _) (by simp [slots, hk])
    rw [ends_bind]
    refine Ends.free e3 fun h4 e4 t4 => ?_
    rw [ends_pure]
    exact ⟨by omega, .inl ⟨rfl, (href hn).mono (by omega), e4⟩⟩

/-! ## The clone -/

/-- The way out of `sky_map_clone` with the keys copied frees them and the struct. -/
theorem releaseKeys_ends {mk : List (Addr × CStr)} {r : Addr} (hn : d.count = mk.length)
    (hp : slots mk <+: v)
    (he : h.entries = cell r (map d) + (cell d.keys (ptrs v) + texts mk + F)) :
    Ends (do
        let d ← loadMap r
        freeStrings d.keys 0 d.count
        free d.keys
        free r
        pure 0 : MapM Addr) h fun a h' => a = 0 ∧ h.time ≤ h'.time ∧ h'.entries = F := by
  rw [ends_bind]
  refine loadMap_ends (Heap.get?_of_entries he) ?_
  have hslots : ∀ k x, mk[k]? = some x → v[0 + k]? = some (some x.1) := by
    intro k x hk
    rw [Nat.zero_add]
    exact prefix_getElem? hp (by simp [slots, hk])
  rw [ends_bind, hn]
  refine (freeStrings_ends (F := cell r (map d) + F) mk 0 h hslots (by rw [he]; ac_rfl)).mono ?_
  intro _ h1 hfreed
  obtain ⟨t1, e1⟩ := hfreed
  rw [ends_bind]
  refine Ends.free e1 fun h2 e2 t2 => ?_
  rw [ends_bind]
  refine Ends.free e2 fun h3 e3 t3 => ?_
  rw [ends_pure]
  exact ⟨rfl, by omega, e3⟩

/-- A map is held when its struct, its arrays and the texts of its pairs are. -/
theorem holds_of_texts {r keys values : Addr} {f : Option MapFilterCallback}
    {rk rv : List (Option Addr)} (hne : rows ≠ [])
    (he : h.entries = cell r (map ⟨keys, values, rows.length, f⟩) +
      (cell keys (ptrs (slots (rows.map Row.keyText) ++ rk)) + texts (rows.map Row.keyText) +
        cell values (ptrs (slots (rows.map Row.valueText) ++ rv)) +
          texts (rows.map Row.valueText) + F)) :
    Holds h F r ⟨keys, values, rows.length, f⟩ rows := by
  refine ⟨rfl, .inr ⟨slots (rows.map Row.keyText) ++ rk, slots (rows.map Row.valueText) ++ rv,
    hne, ?_, ?_, ?_⟩⟩
  · rw [kslots_eq_slots]
    exact List.prefix_append _ _
  · rw [vslots_eq_slots]
    exact List.prefix_append _ _
  · rw [he, strings_eq_texts]
    dsimp only
    ac_rfl

theorem skyMapClone_ends (H : Holds h F m d rows) :
    Ends (skyMapClone A m) h fun r h' => h.time ≤ h'.time ∧
      ((r = 0 ∧ Refused A h.time ∧ h'.entries = h.entries) ∨
        ∃ d' rows', Holds h' h.entries r d' rows' ∧
          view d' rows' =
            ⟨if rows = [] then none else d.mapFilterCallback, rows.map Row.pair⟩) := by
  unfold skyMapClone
  rw [if_neg H.ne_zero, ends_bind]
  refine loadMap_ends H.get ?_
  rw [ends_bind]
  refine Ends.malloc (fun h1 hg e1 t1 => ?_) (fun r h1 _ hr e1 t1 => ?_)
  · rw [if_pos rfl, ends_pure]
    exact ⟨by omega, .inl ⟨rfl, ⟨h.time, le_rfl, hg⟩, e1⟩⟩
  rw [if_neg hr]
  by_cases hrows : rows = []
  · have hc : d.count = 0 := by rw [H.count, hrows]; rfl
    rw [if_pos hc, ends_bind]
    refine Ends.store e1 fun h2 e2 t2 => ?_
    rw [ends_pure]
    refine ⟨by omega, .inr ⟨⟨0, 0, 0, none⟩, [], ⟨rfl, .inl ⟨rfl, rfl, rfl, e2⟩⟩, ?_⟩⟩
    rw [if_pos hrows, hrows]
    rfl
  have hc : d.count ≠ 0 := by
    rw [H.count]
    exact fun h0 => hrows (List.length_eq_zero_iff.1 h0)
  obtain ⟨ks, vs, hkp, hvp, hgk, hgv⟩ := H.arrays hrows
  rw [kslots_eq_slots] at hkp
  rw [vslots_eq_slots] at hvp
  rw [if_neg hc, ends_bind]
  refine Ends.store e1 fun h2 e2 t2 => ?_
  have hin : ∀ b ∈ h.entries, b ∈ h2.entries := fun b hb => by
    rw [e2]
    exact Multiset.mem_add.2 (.inr hb)
  have hck : d.count = (rows.map Row.keyText).length := by rw [H.count, List.length_map]
  have hcv : d.count = (rows.map Row.valueText).length := by rw [H.count, List.length_map]
  rw [ends_bind]
  refine (mapClonevector_ends hck hkp (hin _ (Heap.mem_entries.2 hgk)) (fun x hx => ?_)).mono
    fun keys h3 ⟨t3, hp⟩ => ?_
  · obtain ⟨y, hy, rfl⟩ := List.mem_map.1 hx
    exact hin _ (Heap.mem_entries.2 (H.get_key hy))
  rw [ends_bind]
  rcases hp with ⟨rfl, href, e3⟩ | ⟨hk0, mk, rk, hmk, e3⟩
  · -- no `keys`: the struct alone is freed
    refine modifyMap_ends (e3.trans e2) fun h4 e4 t4 => ?_
    rw [if_pos rfl, ends_bind]
    refine Ends.free e4 fun h5 e5 t5 => ?_
    rw [ends_pure]
    exact ⟨by omega, .inl ⟨rfl, href.mono (by omega), e5⟩⟩
  refine modifyMap_ends (p := r)
    (d := { keys := 0, values := 0, count := d.count,
            mapFilterCallback := d.mapFilterCallback })
    (F := cell keys (ptrs (slots mk ++ rk)) + texts mk + h.entries)
    (by rw [e3, e2]; ac_rfl) fun h4 e4 t4 => ?_
  rw [if_neg hk0, ends_bind]
  have hin4 : ∀ b ∈ h.entries, b ∈ h4.entries := fun b hb => by
    rw [e4]
    simp [hb]
  refine (mapClonevector_ends hcv hvp (hin4 _ (Heap.mem_entries.2 hgv)) (fun x hx => ?_)).mono
    fun values h5 ⟨t5, hp⟩ => ?_
  · obtain ⟨y, hy, rfl⟩ := List.mem_map.1 hx
    exact hin4 _ (Heap.mem_entries.2 (H.get_value hy))
  have hlk : mk.length = rows.length := by
    simpa using congrArg List.length hmk
  rw [ends_bind]
  rcases hp with ⟨rfl, href, e5⟩ | ⟨hv0, mv, rv, hmv, e5⟩
  · -- no `values`: the copied keys go too
    refine modifyMap_ends (e5.trans e4) fun h6 e6 t6 => ?_
    rw [if_pos rfl]
    refine (releaseKeys_ends
      (d := { keys := keys, values := 0, count := d.count,
              mapFilterCallback := d.mapFilterCallback })
      (H.count.trans hlk.symm) (List.prefix_append _ _) e6).mono ?_
    intro a h7 hr
    obtain ⟨rfl, t7, e7⟩ := hr
    exact ⟨by omega, .inl ⟨rfl, href.mono (by omega), e7⟩⟩
  · refine modifyMap_ends (p := r)
      (d := { keys := keys, values := 0, count := d.count,
              mapFilterCallback := d.mapFilterCallback })
      (F := cell keys (ptrs (slots mk ++ rk)) + texts mk + cell values (ptrs (slots mv ++ rv)) +
        texts mv + h.entries)
      (by rw [e5, e4]; ac_rfl) fun h6 e6 t6 => ?_
    rw [if_neg hv0, ends_pure]
    have hlv : mv.length = rows.length := by
      simpa using congrArg List.length hmv
    obtain ⟨rows', rfl, rfl⟩ := exists_rows (hlk.trans hlv.symm)
    rw [List.length_map] at hlk
    have hpairs : rows'.map Row.pair = rows.map Row.pair := by
      rw [map_pair_eq_zip, map_pair_eq_zip, hmk, hmv]
    have hne : rows' ≠ [] := by
      intro hn
      rw [hn] at hlk
      exact hrows (List.length_eq_zero_iff.1 hlk.symm)
    rw [H.count, ← hlk] at e6
    refine ⟨by omega, .inr ⟨_, rows', holds_of_texts hne e6, ?_⟩⟩
    rw [if_neg hrows, view, hpairs]

end Sky.Map
