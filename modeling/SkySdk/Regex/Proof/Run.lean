import SkySdk.Regex.Proof.Ops

/-!
# Calls on one handle

`skyRegexDestroy` and the next `skyRegexParse` free the list of the handle, each node and each
string once (`freed`), and `skyRegexParse` makes a new one: the rows of `Parsed`. The nodes that it
loses stay in the ledger as part of the frame.
-/

set_option autoImplicit false

namespace Sky.Regex

open Base Base.Dll
open Block (regex substr chars)

variable {A : Allocator} {b : Build} {h h0 : Heap Block} {F G : Ledger Block} {p : Addr}
  {rows : List Row} {str : CStr} {regexec : Matcher} {rounds : Nat}

/-! ## Create -/

theorem skyRegexCreate_ends (A : Allocator) (regcomp : Bool) (h : Heap Block) :
    Ends (skyRegexCreate A regcomp) h fun p h' =>
      (p = 0 ∧ h'.entries = h.entries) ∨ p ≠ 0 ∧ Owns h' p [] h.entries := by
  unfold skyRegexCreate
  rw [ends_bind]
  apply Ends.malloc
  · intro h1 _ e1 _
    rw [if_pos rfl]
    exact (ends_pure _).2 (.inl ⟨rfl, e1⟩)
  · intro p h1 _ hp e1 _
    rw [if_neg hp, ends_bind]
    apply modifyRegex_ends e1
    intro h2 e2 _
    cases regcomp with
    | false =>
      rw [if_neg Bool.false_ne_true, ends_bind]
      apply Ends.free e2
      intro h3 e3 _
      exact (ends_pure _).2 (.inl ⟨rfl, e3⟩)
    | true =>
      rw [if_pos rfl]
      refine (ends_pure _).2 (.inr ⟨hp, ?_⟩)
      rw [Owns, owned, nodes_nil, strings_nil, add_zero, add_zero]
      exact e2

theorem exists_create (hg : A.grants h.time = true) :
    ∃ p h', skyRegexCreate A true h = .ok (p, h') ∧ p ≠ 0 ∧ h'.time = h.time + 1 := by
  have hends : Ends (skyRegexCreate A true) h fun p h' => p ≠ 0 ∧ h'.time = h.time + 1 := by
    unfold skyRegexCreate
    rw [ends_bind]
    apply Ends.malloc_log
    · intro h1 hf _ _
      rw [hg] at hf
      cases hf
    · intro p h1 _ hp e1 hl1
      rw [if_neg hp, ends_bind]
      apply modifyRegex_ends e1
      intro h2 _ hl2
      rw [if_pos rfl]
      exact (ends_pure _).2 ⟨hp, congrArg List.length (hl2.trans hl1)⟩
  exact hends

/-! ## Free -/

/-- The frees of one node, in order. -/
def freed (y : Row) : List Addr := [y.str, y.node]

/-- The calls of `free` for a list, newest first. -/
def freeLog (rows : List Row) : List Event := ((rows.flatMap freed).map Event.free).reverse

theorem length_freeLog (rows : List Row) : (freeLog rows).length = 2 * rows.length := by
  unfold freeLog
  rw [List.length_reverse, List.length_map, List.length_flatMap]
  induction rows with
  | nil => rfl
  | cons y rows ih =>
    rw [List.map_cons, List.sum_cons, ih, List.length_cons, freed]
    simp only [List.length_cons, List.length_nil]
    omega

theorem freed_perm (rows : List Row) :
    (rows.flatMap freed).Perm (rows.map Row.node ++ rows.map Row.str) := by
  have hperm := List.map_append_flatMap_perm rows Row.str fun y => [y.node]
  rw [← List.map_eq_flatMap] at hperm
  exact hperm.symm.trans List.perm_append_comm

theorem safeFreeStr_ends {y : Row} {next : Addr} {Q : Unit → Heap Block → Prop}
    (he : h.entries = cell y.node (nodeBlock y.str next) +
      (cell y.str (chars (y.text ++ [0])) + G))
    (hq : ∀ h' : Heap Block, h'.entries = cell y.node (nodeBlock 0 next) + G →
      h'.log = .free y.str :: h.log → Q () h') :
    Ends (safeFreeStr y.node) h Q := by
  have hstr := he.trans (add_left_comm _ _ _)
  have hne := Heap.ne_zero_of_mem (Heap.mem_of_entries hstr)
  unfold safeFreeStr
  rw [ends_bind]
  apply loadSubstr_ends he
  rw [if_pos hne, ends_bind]
  apply Ends.free_log hstr
  intro h1 e1 hl1
  apply modifySubstr_ends e1
  intro h2 e2 hl2
  exact hq h2 e2 (hl2.trans hl1)

theorem skyRegexSubstrFree_ends : ∀ (n : Nat) (rows : List Row) (h : Heap Block),
    rows.length < n → h.entries = nodes rows 0 + strings rows + G →
    Ends (skyRegexSubstrFree n (head rows)) h fun _ h' =>
      h'.entries = G ∧ h'.log = freeLog rows ++ h.log
  | 0, _, _, hn, _ => absurd hn (Nat.not_lt_zero _)
  | n + 1, [], h, _, he => by
    have hnull : head [] = 0 := rfl
    rw [hnull, skyRegexSubstrFree, if_neg (not_not.2 rfl)]
    refine (ends_pure _).2 ⟨?_, rfl⟩
    rw [he, nodes_nil, strings_nil, zero_add, zero_add]
  | n + 1, y :: rows, h, hn, he => by
    have hnode : h.entries = cell y.node (nodeBlock y.str (head rows)) +
        (cell y.str (chars (y.text ++ [0])) + (nodes rows 0 + strings rows + G)) := by
      rw [he, nodes_cons, strings_cons, head]
      ac_rfl
    have hhead : head (y :: rows) = y.node := rfl
    rw [hhead, skyRegexSubstrFree, if_pos (Heap.ne_zero_of_mem (Heap.mem_of_entries hnode)),
      ends_bind]
    apply loadSubstr_ends hnode
    rw [ends_bind]
    apply safeFreeStr_ends hnode
    intro h1 e1 hl1
    rw [ends_bind]
    apply Ends.free_log e1
    intro h2 e2 hl2
    apply (skyRegexSubstrFree_ends n rows h2 (Nat.lt_of_succ_lt_succ hn) e2).mono
    intro _ h3 hrest
    obtain ⟨e3, hl3⟩ := hrest
    refine ⟨e3, ?_⟩
    rw [hl3, hl2, hl1]
    simp [freeLog, freed]

namespace Owns

theorem length_lt_rounds (S : Owns h p rows F) : rows.length < h.size + 1 := by
  have hlist : h.entries = nodes rows 0 +
      (cell p (regex (struct (head rows))) + (strings rows + F)) := by
    rw [S.struct_eq]
    ac_rfl
  exact Regex.length_lt_rounds hlist

theorem list_eq (S : Owns h p rows F) : h.entries = nodes rows 0 + strings rows +
    (cell p (regex (struct (head rows))) + F) := by
  rw [S.struct_eq]
  ac_rfl

theorem head_eq_zero (S : Owns h p rows F) (h0 : head rows = 0) : rows = [] := by
  cases rows with
  | nil => rfl
  | cons y rows =>
    have hlist := S.list_eq
    rw [add_assoc] at hlist
    exact absurd h0 (node_ne_zero hlist)

theorem drop (S : Owns h p rows F) : Ends (dropSubstrs p) h fun _ h' =>
    Owns h' p [] F ∧ h'.log = freeLog rows ++ h.log := by
  unfold dropSubstrs
  rw [ends_bind]
  apply loadRegex_ends S.struct_eq
  by_cases h0 : (struct (head rows)).subStr = 0
  · obtain rfl := S.head_eq_zero h0
    rw [if_neg (not_not.2 h0)]
    exact (ends_pure _).2 ⟨S, rfl⟩
  · rw [if_pos h0, ends_bind, ends_of_eq (rfl : walkRounds h = .ok (h.size + 1, h)), ends_bind]
    apply (skyRegexSubstrFree_ends (h.size + 1) rows h S.length_lt_rounds S.list_eq).mono
    intro _ h1 hfree
    obtain ⟨e1, hl1⟩ := hfree
    apply modifyRegex_ends e1
    intro h2 e2 hl2
    refine ⟨?_, hl2.trans hl1⟩
    rw [Owns, owned, nodes_nil, strings_nil, add_zero, add_zero]
    exact e2

end Owns

theorem skyRegexDestroy_ends (S : Owns h p rows F) : Ends (skyRegexDestroy b p) h fun _ h' =>
    h'.entries = F ∧ h'.log = .free p :: freeLog rows ++ h.log := by
  have hp := Heap.ne_zero_of_mem (Heap.mem_of_entries S.struct_eq)
  have hfree : Ends (freeSubstrs (struct (head rows)).subStr) h fun _ h' =>
      h'.entries = cell p (regex (struct (head rows))) + F ∧
        h'.log = freeLog rows ++ h.log := by
    unfold freeSubstrs
    by_cases h0 : (struct (head rows)).subStr = 0
    · obtain rfl := S.head_eq_zero h0
      rw [if_neg (not_not.2 h0)]
      refine (ends_pure _).2 ⟨?_, rfl⟩
      rw [S.list_eq, nodes_nil, strings_nil, zero_add, zero_add]
    · rw [if_pos h0, ends_bind, ends_of_eq (rfl : walkRounds h = .ok (h.size + 1, h))]
      exact skyRegexSubstrFree_ends (h.size + 1) rows h S.length_lt_rounds S.list_eq
  unfold skyRegexDestroy
  rw [ends_bind]
  apply S.validate
  rw [if_pos hp, ends_bind]
  apply loadRegex_ends S.struct_eq
  rw [ends_bind]
  apply hfree.mono
  intro _ h1 hlist
  obtain ⟨e1, hl1⟩ := hlist
  apply Ends.free_log e1
  intro h2 e2 hl2
  refine ⟨e2, ?_⟩
  rw [hl2, hl1]
  rfl

/-! ## Match -/

theorem skyRegexMatch_eq (S : Owns h p rows F) :
    skyRegexMatch b regexec rounds p str h = ofResult (matchLoop regexec str rounds 0 0 0) h := by
  have hv : skyValidateHandle b p h = .ok ((), h) :=
    (S.validate rfl : Ends (skyValidateHandle b p) h fun _ h' => h' = h).mono
      (fun _ _ hq => ⟨rfl, hq⟩) |>.apply
  have hl : loadRegex p h = .ok (struct (head rows), h) :=
    (loadRegex_ends S.struct_eq ⟨rfl, rfl⟩ :
      Ends (loadRegex p) h fun r h' => r = struct (head rows) ∧ h' = h).apply
  unfold skyRegexMatch
  rw [bind_apply, hv]
  dsimp only
  rw [bind_apply, hl]

/-! ## Parse -/

theorem skyRegexParse_outcome (S : Owns h p rows F) (regexec : Matcher) (rounds : Nat)
    (str : CStr) :
    Outcome (skyRegexParse A regexec rounds p str) h (fun q h' => ∃ ms ys G,
      scanLoop regexec str rounds 0 0 = .ok ms ∧
        Parsed A.grants str (h.time + 2 * rows.length) ms ys G h'.time ∧
        q = head ys ∧ Owns h' p ys (G + F) ∧
        ∃ as : List Addr, h'.log = as.map Event.malloc ++ freeLog rows ++ h.log)
      (fun e => ∀ ms, scanLoop regexec str rounds 0 0 = .ok ms → ScanFault str ms e) := by
  unfold skyRegexParse
  apply Outcome.after
  apply S.drop.mono
  intro _ h1 hdrop
  obtain ⟨S1, hl1⟩ := hdrop
  have ht1 : h1.time = h.time + 2 * rows.length := by
    rw [Heap.time, hl1, List.length_append, length_freeLog]
    exact Nat.add_comm _ _
  refine Outcome.bind ((parseLoop_outcome regexec rounds 0 0 [] F h1 S1).mono (fun _ _ hq => hq)
    fun e he => he) ?_
  intro _ h2 hloop
  obtain ⟨ms, ys, G, hscan, hms, S2, as, hl2⟩ := hloop
  apply Outcome.after
  apply loadRegex_ends S2.struct_eq
  refine Outcome.pure ⟨ms, ys, G, hscan, ht1 ▸ hms, rfl, S2, as, ?_⟩
  rw [hl2, hl1, List.append_assoc]

/-- A scan of spans of the text that are not too long. -/
theorem skyRegexParse_ends (S : Owns h p rows F) {ms : List (Nat × Slots)}
    (hscan : scanLoop regexec str rounds 0 0 = .ok ms)
    (hin : ∀ v ∈ ms, ∀ x ∈ leading v.2.toList, InText str v.1 x)
    (hshort : ∀ v ∈ ms, ∀ x ∈ leading v.2.toList, Short x) :
    Ends (skyRegexParse A regexec rounds p str) h fun q h' => ∃ ys G,
      Parsed A.grants str (h.time + 2 * rows.length) ms ys G h'.time ∧ q = head ys ∧
        Owns h' p ys (G + F) := by
  refine ((skyRegexParse_outcome S regexec rounds str).ends ?_).mono ?_
  · intro e he
    obtain ⟨_, v, hv, x, hx, hlong⟩ := (he ms hscan).2 hin
    exact hlong (hshort v hv x hx)
  · intro q h1 hparse
    obtain ⟨ms', ys, G, hscan', hms, hq, S1, _⟩ := hparse
    rw [hscan] at hscan'
    cases hscan'
    exact ⟨ys, G, hms, hq, S1⟩

/-! ## Reading the list -/

theorem read_nul (bs : List UInt8) :
    ∃ s, CStr.read ((bs ++ [0]).map some) = .ok s ∧ (0 ∉ bs → s.bytes = bs) := by
  induction bs with
  | nil => exact ⟨_, rfl, fun _ => rfl⟩
  | cons c bs ih =>
    obtain ⟨s, hs, hbytes⟩ := ih
    rw [List.cons_append, List.map_cons, CStr.read]
    by_cases hc : c = 0
    · rw [dif_pos hc]
      exact ⟨_, rfl, fun hn => absurd (hc ▸ List.mem_cons_self) hn⟩
    · rw [dif_neg hc, hs]
      refine ⟨_, rfl, fun hn => ?_⟩
      exact congrArg (List.cons c) (hbytes fun hb => hn (List.mem_cons_of_mem _ hb))

/-- What a caller reads: a string a node, the text of the node unless that has a NUL. -/
def Reads (rows : List Row) (ss : List CStr) : Prop :=
  ss.length = rows.length ∧
    ((∀ y ∈ rows, 0 ∉ y.text) → ss.map CStr.bytes = rows.map Row.text)

theorem textsFrom_ends : ∀ (n : Nat) (rows : List Row) (G : Ledger Block),
    rows.length < n → h.entries = nodes rows 0 + strings rows + G →
    Ends (textsFrom n (head rows)) h fun ss h' => h' = h ∧ Reads rows ss
  | 0, _, _, hn, _ => absurd hn (Nat.not_lt_zero _)
  | n + 1, [], _, _, _ => by
    have hnull : head [] = 0 := rfl
    rw [hnull, textsFrom, if_pos rfl]
    exact (ends_pure _).2 ⟨rfl, rfl, fun _ => rfl⟩
  | n + 1, y :: rows, G, hn, he => by
    have hnode : h.entries = cell y.node (nodeBlock y.str (head rows)) +
        (cell y.str (chars (y.text ++ [0])) + (nodes rows 0 + strings rows + G)) := by
      rw [he, nodes_cons, strings_cons, head]
      ac_rfl
    have hrest : h.entries = nodes rows 0 + strings rows + (cell y.str (chars (y.text ++ [0])) +
        (cell y.node (nodeBlock y.str (head rows)) + G)) := by
      rw [hnode]
      ac_rfl
    have hhead : head (y :: rows) = y.node := rfl
    obtain ⟨s, hs, hbytes⟩ := read_nul y.text
    rw [hhead, textsFrom, if_neg (Heap.ne_zero_of_mem (Heap.mem_of_entries hnode)), ends_bind]
    apply loadSubstr_ends hnode
    rw [ends_bind]
    apply loadChars_ends (hnode.trans (add_left_comm _ _ _))
    rw [ends_bind, ends_ofResult]
    refine ⟨s, hs, ?_⟩
    rw [ends_bind]
    apply (textsFrom_ends n rows _ (Nat.lt_of_succ_lt_succ hn) hrest).mono
    intro ss h' htail
    obtain ⟨rfl, hlen, htexts⟩ := htail
    refine (ends_pure _).2 ⟨rfl, congrArg Nat.succ hlen, fun hnul => ?_⟩
    rw [List.map_cons, List.map_cons, hbytes (hnul y List.mem_cons_self),
      htexts fun z hz => hnul z (List.mem_cons_of_mem _ hz)]

/-- The list that a caller of `skyRegexParse` reads. -/
theorem Owns.textsOf (S : Owns h p rows F) :
    Ends (textsOf (head rows)) h fun ss h' => h' = h ∧ Reads rows ss := by
  unfold Regex.textsOf
  rw [ends_bind, ends_of_eq (rfl : walkRounds h = .ok (h.size + 1, h))]
  exact textsFrom_ends (h.size + 1) rows _ S.length_lt_rounds S.list_eq

end Sky.Regex
