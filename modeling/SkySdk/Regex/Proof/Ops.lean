import SkySdk.Regex.Proof.Own

/-!
# The functions of `sky_regex.c` on a handle

What each function does to the ledger, whatever `regexec` answers and whichever allocations are
refused. A slot is linked, or ends the loop over the slots because one of its two allocations is
refused; when it is the second one, the node is in no list and goes to the frame (`Recorded`).
-/

set_option autoImplicit false

namespace Sky.Regex

open Base Base.Dll
open Block (regex substr chars)

variable {A : Allocator} {h : Heap Block} {F G : Ledger Block} {p a : Addr} {rows : List Row}
  {y : Row} {str : CStr} {base : Nat} {x : Regmatch}

/-! ## The list -/

/-- The walk to the last node of a list that is not empty. -/
theorem appendTo_ends : ∀ (n : Nat) (y : Row) (rows : List Row) (h : Heap Block)
    (G : Ledger Block), rows.length < n → h.entries = nodes (y :: rows) 0 + G →
    Ends (appendTo a n y.node) h fun _ h' =>
      h'.entries = nodes (y :: rows) a + G ∧ h'.log = h.log
  | 0, _, _, _, _, hn, _ => absurd hn (Nat.not_lt_zero _)
  | n + 1, y, [], h, G, _, he => by
    have hy : h.entries = cell y.node (nodeBlock y.str 0) + G := by
      rw [he, nodes_cons, nodes_nil, add_zero]
      rfl
    rw [appendTo, if_pos (Heap.ne_zero_of_mem (Heap.mem_of_entries hy)), ends_bind]
    apply loadSubstr_ends hy
    rw [if_pos rfl]
    apply modifySubstr_ends hy
    intro h1 e1 hl1
    refine ⟨?_, hl1⟩
    rw [e1, nodes_cons, nodes_nil, add_zero]
    rfl
  | n + 1, y, z :: rows, h, G, hn, he => by
    have hy : h.entries = cell y.node (nodeBlock y.str z.node) + (nodes (z :: rows) 0 + G) := by
      rw [he, nodes_cons, add_assoc]
      rfl
    have hz : h.entries = nodes (z :: rows) 0 + (cell y.node (nodeBlock y.str z.node) + G) := by
      rw [hy]
      ac_rfl
    have hz0 : z.node ≠ 0 := node_ne_zero hz
    rw [appendTo, if_pos (Heap.ne_zero_of_mem (Heap.mem_of_entries hy)), ends_bind]
    apply loadSubstr_ends hy
    dsimp only
    rw [if_neg hz0]
    apply (appendTo_ends n z rows h _ (Nat.lt_of_succ_lt_succ hn) hz).mono
    intro _ h1 h
    obtain ⟨e1, hl1⟩ := h
    refine ⟨?_, hl1⟩
    rw [e1, nodes_cons y]
    simp only [List.map_cons, first_cons, id, Row.link]
    ac_rfl

theorem linkSubstr_ends {s : Addr} {text : List UInt8} (he : h.entries =
      cell a (substr ⟨s, 0⟩) + (cell s (chars (text ++ [0])) + (owned p rows + F))) :
    Ends (linkSubstr p a) h fun _ h' => Owns h' p (rows ++ [⟨a, s, text⟩]) F ∧ h'.log = h.log := by
  have hp : h.entries = cell p (regex (struct (head rows))) + (nodes rows 0 + (strings rows +
      (cell a (substr ⟨s, 0⟩) + (cell s (chars (text ++ [0])) + F)))) := by
    rw [he, owned]
    ac_rfl
  have hnew : owned p (rows ++ [⟨a, s, text⟩]) + F =
      cell p (regex (struct (head (rows ++ [⟨a, s, text⟩])))) + (nodes rows a + (strings rows +
        (cell a (substr ⟨s, 0⟩) + (cell s (chars (text ++ [0])) + F)))) := by
    rw [owned, nodes_append, strings_append, nodes_cons, strings_cons, nodes_nil, strings_nil,
      add_zero, add_zero]
    simp only [List.map_cons, List.map_nil, first_cons, first_nil, id, Row.link, nodeBlock]
    ac_rfl
  unfold linkSubstr
  rw [ends_bind]
  apply loadRegex_ends hp
  cases rows with
  | nil =>
    have hnull : (struct (head [])).subStr = 0 := rfl
    rw [if_pos hnull]
    apply modifyRegex_ends hp
    intro h1 e1 hl1
    refine ⟨?_, hl1⟩
    rw [Owns, hnew, e1]
    rfl
  | cons y rows =>
    have hy : h.entries = nodes (y :: rows) 0 +
        (cell p (regex (struct (head (y :: rows)))) + (strings (y :: rows) +
          (cell a (substr ⟨s, 0⟩) + (cell s (chars (text ++ [0])) + F)))) := by
      rw [hp]
      ac_rfl
    have hrounds := length_lt_rounds hy
    have hy0 : (struct (head (y :: rows))).subStr ≠ 0 := node_ne_zero hy
    rw [if_neg hy0, ends_bind, ends_of_eq (rfl : walkRounds h = .ok (h.size + 1, h))]
    rw [List.length_cons] at hrounds
    apply (appendTo_ends (h.size + 1) y rows h _ (by omega) hy).mono
    intro _ h1 h
    obtain ⟨e1, hl1⟩ := h
    refine ⟨?_, hl1⟩
    rw [Owns, hnew, e1]
    have hhead : head (y :: rows ++ [⟨a, s, text⟩]) = head (y :: rows) := rfl
    rw [hhead]
    ac_rfl

/-! ## A slot -/

/-- A span of the text from `base` on. -/
def InText (str : CStr) (base : Nat) (x : Regmatch) : Prop :=
  base ≤ str.length ∧ x.Inside (str.bytes.drop base).length

/-- With fewer characters than an `int` counts, so that the NUL can be counted too. -/
def Short (x : Regmatch) : Prop := x.rmEo.toInt - x.rmSo.toInt < 2147483647

/-- How a round of the loop over the slots ends: whether the loop goes on, and the heap. -/
inductive SlotEnd (A : Allocator) (h : Heap Block) (p : Addr) (rows : List Row) (F : Ledger Block)
    (str : CStr) (base : Nat) (x : Regmatch) : Bool → Heap Block → Prop
  | refused {h' : Heap Block} (hg : A.grants h.time = false) (hs : Owns h' p rows F)
      (hl : h'.log = .malloc 0 :: h.log) : SlotEnd A h p rows F str base x false h'
  | orphaned {h' : Heap Block} (a : Addr) (hg : A.grants h.time = true)
      (hg' : A.grants (h.time + 1) = false) (hs : Owns h' p rows (cell a (substr ⟨0, 0⟩) + F))
      (hl : h'.log = .malloc 0 :: .malloc a :: h.log) : SlotEnd A h p rows F str base x false h'
  | linked {h' : Heap Block} (y : Row) (hg : A.grants h.time = true)
      (hg' : A.grants (h.time + 1) = true) (hs : Owns h' p (rows ++ [y]) F)
      (hl : h'.log = .malloc y.str :: .malloc y.node :: h.log) (hx : Short x)
      (ht : InText str base x → y.text = slice str base x) :
      SlotEnd A h p rows F str base x true h'

/-- What may go wrong with a slot; where it is a span of the text, only that it is too long. -/
def SlotFault (str : CStr) (base : Nat) (x : Regmatch) (e : Fault) : Prop :=
  e ≠ .endless ∧ (InText str base x → e = .overflow ∧ ¬ Short x)

theorem castU32_of_nonneg {i : Int} (h0 : 0 ≤ i) (hi : i ≤ 2147483647) : castU32 i = i.toNat := by
  unfold castU32
  rw [Int.emod_eq_of_lt h0 (by omega)]

/-- The bytes of a span of the text. -/
theorem bytesAt_inText (hx : InText str base x) :
    bytesAt str base x.rmSo (x.rmEo.toInt - x.rmSo.toInt).toNat = .ok (slice str base x) := by
  obtain ⟨hbase, h0, h1, h2⟩ := hx
  rw [List.length_drop] at h2
  have hlen : str.bytes.length = str.length := rfl
  have hq : 0 ≤ (base : Int) + x.rmSo.toInt ∧ (base : Int) + x.rmSo.toInt +
      ((x.rmEo.toInt - x.rmSo.toInt).toNat : Int) ≤ str.length + 1 := by omega
  have hnat : ((base : Int) + x.rmSo.toInt).toNat = base + x.rmSo.toInt.toNat := by omega
  unfold bytesAt slice
  dsimp only
  rw [if_pos hq, hnat, List.drop_append_of_le_length (by omega), List.take_append_of_le_length]
  rw [List.length_drop]
  omega

theorem bytesAt_length {off : Int32} {n : Nat} {src : List UInt8}
    (h : bytesAt str base off n = .ok src) : src.length = n := by
  unfold bytesAt at h
  dsimp only at h
  split at h
  · cases h
    have hlen : str.bytes.length = str.length := rfl
    rw [List.length_take, List.length_drop, List.length_append, List.length_singleton]
    omega
  · cases h

theorem bytesAt_error {off : Int32} {n : Nat} {e : Fault} (h : bytesAt str base off n = .error e) :
    e = .outOfBounds := by
  unfold bytesAt at h
  dsimp only at h
  split at h
  · cases h
  · cases h
    rfl

theorem int_ok {i j : Int} (h : int i = .ok j) : j = i ∧ i ≤ 2147483647 := by
  unfold int at h
  split at h
  · cases h
    exact ⟨rfl, (by omega)⟩
  · cases h

theorem int_error {i : Int} {e : Fault} (h : int i = .error e) :
    e = .overflow ∧ ¬ (-2147483648 ≤ i ∧ i ≤ 2147483647) := by
  unfold int at h
  split at h
  · cases h
  · cases h
    exact ⟨rfl, ‹_›⟩

/-- A span of the text that is not too long has no negative length. -/
theorem InText.length (hx : InText str base x) : 0 ≤ x.rmEo.toInt - x.rmSo.toInt := by
  have horder := hx.2.order
  omega

/-- The string of a slot, copied into the block made for it. -/
theorem copySlot_outcome {s : Addr} {len : Int} (hlen : len = x.rmEo.toInt - x.rmSo.toInt)
    (hmax : len < 2147483647) (he : h.entries =
      cell s (chars (List.replicate (castU32 (len + 1)) 0)) +
        (cell a (substr ⟨s, 0⟩) + (owned p rows + F))) :
    Outcome (do
      skyMemCopy s (← ofResult (bytesAt str base x.rmSo (castU32 len)))
      setNul s len
      linkSubstr p a
      pure true : RegexM Bool) h
      (fun go h' => go = true ∧ h'.log = h.log ∧ ∃ text, Owns h' p (rows ++ [⟨a, s, text⟩]) F ∧
        (InText str base x → text = slice str base x))
      (SlotFault str base x) := by
  refine Outcome.bind (Q := fun src h' => h' = h ∧ src.length = castU32 len ∧
    (InText str base x → src = slice str base x)) (Outcome.ofResult ?_ ?_) ?_
  · intro src hsrc
    refine ⟨rfl, bytesAt_length hsrc, fun hx => ?_⟩
    have h0 := hx.length
    rw [castU32_of_nonneg (hlen ▸ h0) (by omega), hlen, bytesAt_inText hx] at hsrc
    exact (Except.ok.inj hsrc).symm
  · intro e hx
    refine ⟨by rw [bytesAt_error hx]; nofun, fun ht => ?_⟩
    have h0 := ht.length
    rw [castU32_of_nonneg (hlen ▸ h0) (by omega), hlen, bytesAt_inText ht] at hx
    cases hx
  intro src h1 hsrc
  obtain ⟨rfl, hn, htext⟩ := hsrc
  by_cases h0 : 0 ≤ len
  · -- the block has room for the characters and the NUL
    have hsize : castU32 (len + 1) = len.toNat + 1 := by
      rw [castU32_of_nonneg (by omega) (by omega)]
      omega
    rw [castU32_of_nonneg h0 (by omega)] at hn
    rw [hsize] at he
    have hroom : src.length ≤ (List.replicate (len.toNat + 1) (0 : UInt8)).length := by
      rw [List.length_replicate]
      omega
    refine Outcome.bind ((skyMemCopy_outcome he).mono (fun _ _ hq => hq) ?_) ?_
    · intro e hx
      exact absurd hroom hx.2
    intro _ h2 hcopy
    obtain ⟨_, hl2, e2⟩ := hcopy
    rw [List.drop_replicate, hn, Nat.add_sub_cancel_left] at e2
    refine Outcome.bind ((setNul_outcome e2).mono (fun _ _ hq => hq) ?_) ?_
    · intro e hx
      refine absurd ⟨h0, ?_⟩ hx.2
      rw [List.length_append, List.length_replicate]
      omega
    intro _ h3 hnul
    obtain ⟨_, hl3, e3⟩ := hnul
    rw [← hn, List.set_append_right _ _ (Nat.le_refl _), Nat.sub_self] at e3
    apply Outcome.after
    apply (linkSubstr_ends (e3.trans (add_left_comm _ _ _))).mono
    intro _ h4 hlink
    obtain ⟨S4, hl4⟩ := hlink
    exact Outcome.pure ⟨rfl, by rw [hl4, hl3, hl2], src, S4, htext⟩
  · -- a negative length: the write of the NUL is before the block
    have hfault : ∀ e, e = .outOfBounds → SlotFault str base x e := by
      intro e hx
      refine ⟨by rw [hx]; nofun, fun ht => absurd ?_ h0⟩
      rw [hlen]
      exact ht.length
    refine Outcome.bind ((skyMemCopy_outcome he).mono (fun _ _ hq => hq) ?_) ?_
    · intro e hx
      exact hfault e hx.1
    intro _ h2 hcopy
    refine Outcome.bind ((setNul_outcome hcopy.2.2).mono (fun _ _ hq => hq) ?_) ?_
    · intro e hx
      exact hfault e hx.1
    intro _ h3 hnul
    exact absurd hnul.1 h0

theorem parseSlot_outcome (S : Owns h p rows F) :
    Outcome (parseSlot A p str base x) h (SlotEnd A h p rows F str base x)
      (SlotFault str base x) := by
  unfold parseSlot
  apply Outcome.after
  apply Ends.malloc_log
  · intro h1 hg e1 hl1
    rw [if_pos rfl]
    exact Outcome.pure (.refused hg (e1.trans S) hl1)
  intro a h1 hg ha e1 hl1
  have ht1 : h1.time = h.time + 1 := congrArg List.length hl1
  rw [if_neg ha]
  refine Outcome.bind (Q := fun len h' => h' = h1 ∧ len = x.rmEo.toInt - x.rmSo.toInt)
    (Outcome.ofResult ?_ ?_) ?_
  · intro len hlen
    exact ⟨rfl, (int_ok hlen).1⟩
  · intro e he
    obtain ⟨rfl, hrange⟩ := int_error he
    refine ⟨nofun, fun ht => absurd ?_ hrange⟩
    have h0 := ht.length
    have hstart := ht.2.start
    have hmax := x.rmEo.toInt_lt
    omega
  intro len h2 hlen
  obtain ⟨rfl, hlen⟩ := hlen
  refine Outcome.bind (Q := fun size h' => h' = h2 ∧ size = len + 1 ∧ len < 2147483647)
    (Outcome.ofResult ?_ ?_) ?_
  · intro size hsize
    obtain ⟨hsize, hmax⟩ := int_ok hsize
    exact ⟨rfl, hsize, by omega⟩
  · intro e he
    obtain ⟨rfl, hrange⟩ := int_error he
    refine ⟨nofun, fun ht => ⟨rfl, fun hs => hrange ?_⟩⟩
    have h0 := ht.length
    unfold Short at hs
    omega
  intro size h3 hsize
  obtain ⟨rfl, rfl, hmax⟩ := hsize
  apply Outcome.after
  apply Ends.malloc_log
  · -- the string is refused
    intro h4 hg4 e4 hl4
    apply Outcome.after
    apply modifySubstr_ends (e4.trans e1)
    intro h5 e5 hl5
    rw [if_pos rfl]
    refine Outcome.pure (.orphaned a hg (ht1 ▸ hg4) ?_ ?_)
    · rw [Owns, e5, S]
      ac_rfl
    · rw [hl5, hl4, hl1]
  · intro s h4 hg4 hs e4 hl4
    rw [e1, S] at e4
    apply Outcome.after
    apply modifySubstr_ends (e4.trans (add_left_comm _ _ _))
    intro h5 e5 hl5
    rw [if_neg hs]
    apply Outcome.after
    apply modifySubstr_ends e5
    intro h6 e6 hl6
    refine (copySlot_outcome hlen hmax (e6.trans (add_left_comm _ _ _))).mono ?_ fun e he => he
    intro go h7 hend
    obtain ⟨rfl, hl7, text, S7, htext⟩ := hend
    exact .linked ⟨a, s, text⟩ hg (ht1 ▸ hg4) S7 (by rw [hl7, hl6, hl5, hl4, hl1])
      (by unfold Short; omega) htext

/-! ## The slots of a match -/

/-- Nothing but allocations, granted or not, between two heaps. -/
def Mallocs (h h' : Heap Block) : Prop := ∃ as : List Addr, h'.log = as.map Event.malloc ++ h.log

theorem Mallocs.refl (h : Heap Block) : Mallocs h h := ⟨[], rfl⟩

theorem Mallocs.trans {h1 h2 h3 : Heap Block} (h12 : Mallocs h1 h2) (h23 : Mallocs h2 h3) :
    Mallocs h1 h3 := by
  obtain ⟨as, h2⟩ := h12
  obtain ⟨bs, h3⟩ := h23
  exact ⟨bs ++ as, by rw [h3, h2, List.map_append, List.append_assoc]⟩

/-- The loop over the slots of a match looked for at `base`, from the time `t` to the time `t'`:
the nodes that it links and the node that it loses. -/
inductive Recorded (grants : Nat → Bool) (str : CStr) (base : Nat) :
    Nat → List Regmatch → List Row → Ledger Block → Nat → Prop
  | nil (t : Nat) : Recorded grants str base t [] [] 0 t
  | unset {x : Regmatch} (t : Nat) (m : List Regmatch) (hx : x.rmSo = -1) :
      Recorded grants str base t (x :: m) [] 0 t
  | refused {x : Regmatch} {t : Nat} (m : List Regmatch) (hx : x.rmSo ≠ -1)
      (hg : grants t = false) : Recorded grants str base t (x :: m) [] 0 (t + 1)
  | orphaned {x : Regmatch} {t : Nat} (m : List Regmatch) (a : Addr) (hx : x.rmSo ≠ -1)
      (hg : grants t = true) (hg' : grants (t + 1) = false) :
      Recorded grants str base t (x :: m) [] (cell a (substr ⟨0, 0⟩)) (t + 2)
  | linked {x : Regmatch} {t t' : Nat} {m : List Regmatch} {y : Row} {ys : List Row}
      {G : Ledger Block} (hx : x.rmSo ≠ -1) (hg : grants t = true) (hg' : grants (t + 1) = true)
      (hs : Short x) (ht : InText str base x → y.text = slice str base x)
      (hm : Recorded grants str base (t + 2) m ys G t') :
      Recorded grants str base t (x :: m) (y :: ys) G t'

/-- What may go wrong with slots; where they are spans of the text, only that one is too long. -/
def SlotsFault (str : CStr) (base : Nat) (xs : List Regmatch) (e : Fault) : Prop :=
  e ≠ .endless ∧ ((∀ x ∈ xs, InText str base x) → e = .overflow ∧ ∃ x ∈ xs, ¬ Short x)

theorem SlotFault.slots {xs : List Regmatch} {e : Fault} (he : SlotFault str base x e)
    (hx : x ∈ xs) : SlotsFault str base xs e := by
  refine ⟨he.1, fun ht => ?_⟩
  obtain ⟨h1, h2⟩ := he.2 (ht x hx)
  exact ⟨h1, x, hx, h2⟩

theorem SlotsFault.mono {xs ys : List Regmatch} {e : Fault} (he : SlotsFault str base xs e)
    (hxs : ∀ x ∈ xs, x ∈ ys) : SlotsFault str base ys e := by
  refine ⟨he.1, fun ht => ?_⟩
  obtain ⟨h1, x, hx, h2⟩ := he.2 fun x hx => ht x (hxs x hx)
  exact ⟨h1, x, hxs x hx, h2⟩

theorem parseSlots_outcome : ∀ (m : List Regmatch) (rows : List Row) (F : Ledger Block)
    (h : Heap Block), Owns h p rows F →
    Outcome (parseSlots A p str base m) h (fun _ h' => ∃ ys G,
      Recorded A.grants str base h.time m ys G h'.time ∧ Owns h' p (rows ++ ys) (G + F) ∧
        Mallocs h h')
      (SlotsFault str base (leading m))
  | [], rows, F, h, S => by
    refine Outcome.pure ⟨[], 0, .nil _, ?_, .refl h⟩
    rwa [List.append_nil, zero_add]
  | x :: m, rows, F, h, S => by
    unfold parseSlots
    by_cases hx : x.rmSo = -1
    · rw [if_pos hx]
      refine Outcome.pure ⟨[], 0, .unset _ m hx, ?_, .refl h⟩
      rwa [List.append_nil, zero_add]
    rw [if_neg hx]
    have hlead := leading_cons_set m hx
    refine Outcome.bind ((parseSlot_outcome S).mono (fun _ _ hq => hq) ?_) ?_
    · intro e he
      exact he.slots (hlead ▸ List.mem_cons_self)
    intro go h1 hend
    cases hend with
    | refused hg S1 hl =>
      have ht : h1.time = h.time + 1 := congrArg List.length hl
      refine Outcome.pure ⟨[], 0, ?_, ?_, [0], hl⟩
      · rw [ht]
        exact .refused m hx hg
      · rwa [List.append_nil, zero_add]
    | orphaned a hg hg' S1 hl =>
      have ht : h1.time = h.time + 2 := congrArg List.length hl
      refine Outcome.pure ⟨[], cell a (substr ⟨0, 0⟩), ?_, ?_, [0, a], hl⟩
      · rw [ht]
        exact .orphaned m a hx hg hg'
      · rwa [List.append_nil]
    | linked y hg hg' S1 hl hs htext =>
      have ht : h1.time = h.time + 2 := congrArg List.length hl
      refine (parseSlots_outcome m (rows ++ [y]) F h1 S1).mono ?_ ?_
      · intro _ h2 hrest
        obtain ⟨ys, G, hm, S2, hl2⟩ := hrest
        rw [ht] at hm
        refine ⟨y :: ys, G, .linked hx hg hg' hs htext hm, ?_,
          Mallocs.trans ⟨[y.str, y.node], hl⟩ hl2⟩
        rwa [List.append_assoc] at S2
      · intro e he
        refine he.mono fun z hz => ?_
        rw [hlead]
        exact List.mem_cons_of_mem _ hz

/-! ## The matches of a scan -/

/-- The loop over these matches, from the time `t` to the time `t'`. -/
inductive Parsed (grants : Nat → Bool) (str : CStr) :
    Nat → List (Nat × Slots) → List Row → Ledger Block → Nat → Prop
  | nil (t : Nat) : Parsed grants str t [] [] 0 t
  | cons {t t' t'' base : Nat} {m : Slots} {ms : List (Nat × Slots)} {ys zs : List Row}
      {G G' : Ledger Block} (hm : Recorded grants str base t m.toList ys G t')
      (hms : Parsed grants str t' ms zs G' t'') :
      Parsed grants str t ((base, m) :: ms) (ys ++ zs) (G' + G) t''

/-- What may go wrong with matches; where the leading slots are spans of the text, only that one is
too long. -/
def ScanFault (str : CStr) (ms : List (Nat × Slots)) (e : Fault) : Prop :=
  e ≠ .endless ∧ ((∀ v ∈ ms, ∀ x ∈ leading v.2.toList, InText str v.1 x) →
    e = .overflow ∧ ∃ v ∈ ms, ∃ x ∈ leading v.2.toList, ¬ Short x)

theorem parseLoop_outcome (regexec : Matcher) : ∀ (n k base : Nat) (rows : List Row)
    (F : Ledger Block) (h : Heap Block), Owns h p rows F →
    Outcome (parseLoop A regexec p str n k base) h (fun _ h' => ∃ ms ys G,
      scanLoop regexec str n k base = .ok ms ∧ Parsed A.grants str h.time ms ys G h'.time ∧
        Owns h' p (rows ++ ys) (G + F) ∧ Mallocs h h')
      (fun e => ∀ ms, scanLoop regexec str n k base = .ok ms → ScanFault str ms e)
  | 0, _, _, _, _, _, _ => Outcome.fault fun _ hms => by cases hms
  | n + 1, k, base, rows, F, h, S => by
    unfold parseLoop
    cases hfound : regexec k (str.bytes.drop base) with
    | none =>
      refine Outcome.pure ⟨[], [], 0, scanLoop_none hfound, .nil _, ?_, .refl h⟩
      rwa [List.append_nil, zero_add]
    | some m =>
      dsimp only
      refine Outcome.bind ((parseSlots_outcome m.toList rows F h S).mono (fun _ _ hq => hq) ?_) ?_
      · intro e he ms hms
        obtain ⟨q, ms', _, _, rfl⟩ := (scanLoop_some hfound).1 hms
        refine ⟨he.1, fun hin => ?_⟩
        obtain ⟨h1, h2⟩ := he.2 (hin _ List.mem_cons_self)
        exact ⟨h1, _, List.mem_cons_self, h2⟩
      intro _ h1 hslots
      obtain ⟨ys, G, hm, S1, hl1⟩ := hslots
      refine Outcome.bind (Q := fun q h' => h' = h1 ∧ advance str base m.whole.rmEo = .ok q)
        (Outcome.ofResult ?_ ?_) ?_
      · intro q hq
        exact ⟨rfl, hq⟩
      · intro e he ms hms
        obtain ⟨q, ms', hq, _⟩ := (scanLoop_some hfound).1 hms
        rw [hq] at he
        cases he
      intro q h2 hq
      obtain ⟨rfl, hq⟩ := hq
      refine (parseLoop_outcome regexec n (k + 1) q (rows ++ ys) (G + F) h2 S1).mono ?_ ?_
      · intro _ h3 hrest
        obtain ⟨ms, zs, G', hscan, hms, S3, hl3⟩ := hrest
        refine ⟨(base, m) :: ms, ys ++ zs, G' + G, (scanLoop_some hfound).2 ⟨q, ms, hq, hscan, rfl⟩,
          .cons hm hms, ?_, hl1.trans hl3⟩
        rwa [List.append_assoc, ← add_assoc] at S3
      · intro e he ms hms
        obtain ⟨q', ms', hq', hrest, rfl⟩ := (scanLoop_some hfound).1 hms
        rw [hq] at hq'
        cases hq'
        obtain ⟨h3, h4⟩ := he ms' hrest
        refine ⟨h3, fun hin => ?_⟩
        obtain ⟨h5, v, hv, h6⟩ := h4 fun v hv => hin v (List.mem_cons_of_mem _ hv)
        exact ⟨h5, v, List.mem_cons_of_mem _ hv, h6⟩

end Sky.Regex
