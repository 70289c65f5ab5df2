import SkySdk.Regex.Proof.Run

/-!
# The ledger over the calls of a handle

A call of `skyRegexParse` loses a node when the allocation of the node's string is refused: the loop
is left with the node in no list (`Orphans`). Over a run of calls the ledger is that of the handle
and the blocks that were there before it, and the next call or `skyRegexDestroy` frees each node and
string once, as long as no call of the run does that (`keepsAll`).
-/

set_option autoImplicit false

namespace Sky.Regex

open Base Base.Dll
open Block (regex substr chars)

variable {A : Allocator} {b : Build} {h h' h0 h1 h2 : Heap Block} {F G G' : Ledger Block}
  {p : Addr} {rows ys : List Row} {str : CStr} {regexec : Matcher} {rounds : Nat}
  {grants : Nat → Bool} {t t' base : Nat} {m : List Regmatch} {ms : List (Nat × Slots)}

/-! ## What is asked of a call -/

/-- The length of the handle's list. -/
def listLength (p : Addr) : RegexM Nat := do
  pure (← textsOf (← loadRegex p).subStr).length

/-- No node whose string is refused: the call frees the nodes of the list and their strings, then
makes two allocations a slot. -/
def keepsAll (A : Allocator) (p : Addr) (h : Heap Block) : Call → Prop
  | .parse regexec rounds str => ∃ n, listLength p h = .ok (n, h) ∧
      ∀ ms, scanLoop regexec str rounds 0 0 = .ok ms → keepsScan A.grants (h.time + 2 * n) ms ≠ none
  | .matchAll _ _ _ => True

/-- The blocks beside `F` are those of the handle at `p`: its struct, the nodes reached from its
`sub_str` and their strings. Destroying the handle and parsing again each free every one of these
nodes and strings once. -/
def Reclaims (A : Allocator) (b : Build) (p : Addr) (F : Ledger Block) (h : Heap Block) : Prop :=
  ∃ rows, Owns h p rows F ∧
    (rows.flatMap freed).Perm (rows.map Row.node ++ rows.map Row.str) ∧
    (rows.flatMap freed).Nodup ∧
    Ends (skyRegexDestroy b p) h (fun _ h' =>
      h'.entries = F ∧ h'.log = .free p :: freeLog rows ++ h.log) ∧
    ∀ regexec rounds str, Returns (skyRegexParse A regexec rounds p str) h fun _ h' =>
      ∃ as : List Addr, h'.log = as.map Event.malloc ++ freeLog rows ++ h.log

/-! ## The nodes that are lost -/

def Orphans (G : Ledger Block) : Prop := ∀ z ∈ G, z.2 = substr ⟨0, 0⟩

theorem Orphans.zero : Orphans 0 := fun _ hz => absurd hz (Multiset.notMem_zero _)

theorem Orphans.add (hG : Orphans G) (hG' : Orphans G') : Orphans (G + G') := by
  intro z hz
  rcases Multiset.mem_add.1 hz with hz | hz
  · exact hG z hz
  · exact hG' z hz

theorem both_zero : G + G' = 0 ↔ G = 0 ∧ G' = 0 := by
  rw [← Multiset.card_eq_zero, Multiset.card_add, Nat.add_eq_zero_iff, Multiset.card_eq_zero,
    Multiset.card_eq_zero]

theorem Recorded.keeps (hm : Recorded grants str base t m ys G t') : Orphans G ∧
    (G = 0 → keepsSlots grants t m = some t') ∧ (G ≠ 0 → keepsSlots grants t m = none) := by
  induction hm with
  | nil t => exact ⟨.zero, fun _ => rfl, fun hG => absurd rfl hG⟩
  | unset t m hx =>
    refine ⟨.zero, fun _ => ?_, fun hG => absurd rfl hG⟩
    rw [keepsSlots, if_pos hx]
  | refused m hx hg =>
    refine ⟨.zero, fun _ => ?_, fun hG => absurd rfl hG⟩
    rw [keepsSlots, if_neg hx, if_neg (by simp [hg])]
  | orphaned m a hx hg hg' =>
    refine ⟨fun z hz => ?_, fun hG => ?_, fun _ => ?_⟩
    · rw [Multiset.mem_singleton.1 hz]
    · exact absurd hG (Multiset.singleton_ne_zero _)
    · rw [keepsSlots, if_neg hx, if_pos hg, if_neg (by simp [hg'])]
  | linked hx hg hg' _ _ _ ih =>
    rw [keepsSlots, if_neg hx, if_pos hg, if_pos hg']
    exact ih

theorem Parsed.keeps (hms : Parsed grants str t ms ys G t') : Orphans G ∧
    (G = 0 → keepsScan grants t ms = some t') ∧ (G ≠ 0 → keepsScan grants t ms = none) := by
  induction hms with
  | nil t => exact ⟨.zero, fun _ => rfl, fun hG => absurd rfl hG⟩
  | @cons t t1 t2 base m ms ys zs G G' hm _ ih =>
    obtain ⟨ho, hkeep, hlose⟩ := hm.keeps
    obtain ⟨ho', hkeep', hlose'⟩ := ih
    refine ⟨ho'.add ho, fun hG => ?_, fun hG => ?_⟩
    · obtain ⟨rfl, rfl⟩ := both_zero.1 hG
      rw [keepsScan, hkeep rfl]
      exact hkeep' rfl
    · by_cases h0 : G = 0
      · rw [keepsScan, hkeep h0]
        refine hlose' fun h0' => hG ?_
        rw [h0, h0', add_zero]
      · rw [keepsScan, hlose h0]
        rfl

theorem mem_nodes {z : Σ _ : Addr, Block} {e : Addr} (hz : z ∈ nodes rows e) :
    ∃ y ∈ rows, ∃ next, z = ⟨y.node, nodeBlock y.str next⟩ := by
  induction rows with
  | nil => exact absurd hz (Multiset.notMem_zero _)
  | cons y rows ih =>
    rw [nodes_cons] at hz
    rcases Multiset.mem_add.1 hz with hz | hz
    · exact ⟨y, List.mem_cons_self, _, Multiset.mem_singleton.1 hz⟩
    · obtain ⟨x, hx, next, rfl⟩ := ih hz
      exact ⟨x, List.mem_cons_of_mem _ hx, next, rfl⟩

theorem mem_strings {z : Σ _ : Addr, Block} :
    z ∈ strings rows ↔ ∃ y ∈ rows, z = ⟨y.str, chars (y.text ++ [0])⟩ := by
  induction rows with
  | nil => simp
  | cons y rows ih => simp [ih, cell]

theorem Owns.not_orphan (S : Owns h p rows F) (a : Addr) :
    (⟨a, substr ⟨0, 0⟩⟩ : Σ _ : Addr, Block) ∉ owned p rows := by
  intro hz
  rw [owned] at hz
  rcases Multiset.mem_add.1 hz with hz | hz
  · cases Multiset.mem_singleton.1 hz
  rcases Multiset.mem_add.1 hz with hz | hz
  · obtain ⟨y, hy, next, hz⟩ := mem_nodes hz
    have hstr : y.str = 0 := by
      injection hz with _ hblock
      unfold nodeBlock at hblock
      injection hblock with hnode
      injection hnode with hstr
      exact hstr.symm
    have hlive : (⟨y.str, chars (y.text ++ [0])⟩ : Σ _ : Addr, Block) ∈ h.entries := by
      rw [S, owned]
      refine Multiset.mem_add.2 (.inl (Multiset.mem_add.2 (.inr (Multiset.mem_add.2 (.inr ?_)))))
      exact mem_strings.2 ⟨y, hy, rfl⟩
    exact Heap.ne_zero_of_mem (Heap.mem_of_get? (Heap.mem_entries.1 hlive)) hstr
  · obtain ⟨y, _, hz⟩ := mem_strings.1 hz
    cases hz

/-! ## Calls -/

theorem Owns.listLength (S : Owns h p rows F) : Regex.listLength p h = .ok (rows.length, h) := by
  have hends : Ends (Regex.listLength p) h fun n h' => n = rows.length ∧ h' = h := by
    unfold Regex.listLength
    rw [ends_bind]
    apply loadRegex_ends S.struct_eq
    rw [ends_bind]
    apply S.textsOf.mono
    intro ss h' hread
    obtain ⟨rfl, hlen, _⟩ := hread
    exact (ends_pure _).2 ⟨hlen, rfl⟩
  exact hends.apply

/-- One call: what it loses, and when it loses nothing. -/
theorem Owns.call (S : Owns h p rows F) {c : Call} {r : Resp}
    (hs : call A b p c h = .ok (r, h')) : ∃ ys G, Owns h' p ys (G + F) ∧ Orphans G ∧
      (G = 0 ↔ keepsAll A p h c) := by
  cases c with
  | matchAll regexec rounds str =>
    refine ⟨rows, 0, ?_, .zero, iff_of_true rfl trivial⟩
    unfold Regex.call at hs
    dsimp only at hs
    rw [bind_apply, skyRegexMatch_eq S] at hs
    cases hm : matchLoop regexec str rounds 0 0 0 with
    | error e =>
      rw [hm] at hs
      cases hs
    | ok n =>
      rw [hm] at hs
      cases hs
      rwa [zero_add]
  | parse regexec rounds str =>
    have hret : Returns (Regex.call A b p (.parse regexec rounds str)) h fun _ h' =>
        ∃ ys G, Owns h' p ys (G + F) ∧ Orphans G ∧
          (G = 0 ↔ keepsAll A p h (.parse regexec rounds str)) := by
      refine (skyRegexParse_outcome S regexec rounds str).1.bind ?_
      intro q h1 hparse
      obtain ⟨ms, ys, G, hscan, hms, _, S1, _⟩ := hparse
      obtain ⟨ho, hkeep, hlose⟩ := hms.keeps
      refine ((ends_pure _).2 ⟨ys, G, S1, ho, ?_⟩).returns
      constructor
      · intro hG
        refine ⟨rows.length, S.listLength, fun ms' hms' => ?_⟩
        rw [hscan] at hms'
        cases hms'
        rw [hkeep hG]
        exact Option.some_ne_none _
      · intro hk
        obtain ⟨n, hn, hk⟩ := hk
        rw [S.listLength] at hn
        cases hn
        by_contra hG
        exact hk ms hscan (hlose hG)
    exact hret r h' hs

theorem Owns.steps (S : Owns h p rows F) {cs : List Call}
    (hrun : Steps (Regex.call A b p) (fun _ _ => True) h cs h') :
    ∃ ys G, Owns h' p ys (G + F) ∧ Orphans G ∧
      (G = 0 ↔ Steps (Regex.call A b p) (keepsAll A p) h cs h') := by
  induction hrun generalizing rows F with
  | nil h => exact ⟨rows, 0, by rwa [zero_add], .zero, iff_of_true rfl (.nil h)⟩
  | cons _ hs _ ih =>
    obtain ⟨ys, G, S1, ho, hkeep⟩ := S.call hs
    obtain ⟨zs, G', S2, ho', hkeep'⟩ := ih S1
    refine ⟨zs, G' + G, by rwa [add_assoc], ho'.add ho, ?_⟩
    rw [both_zero, steps_cons hs, hkeep, hkeep', and_comm]

/-- A handle after a run of calls. -/
theorem exists_owns {cs : List Call} (hc : skyRegexCreate A true h0 = .ok (p, h1)) (hp : p ≠ 0)
    (hrun : Steps (Regex.call A b p) (fun _ _ => True) h1 cs h) : ∃ rows F, Owns h p rows F := by
  rcases (skyRegexCreate_ends A true h0).result hc with hnull | ⟨_, S⟩
  · exact absurd hnull.1 hp
  obtain ⟨ys, G, S', _⟩ := S.steps hrun
  exact ⟨ys, _, S'⟩

theorem reach_typed {cs : List Call} {r : SkyHandleRegex}
    (hc : skyRegexCreate A true h0 = .ok (p, h1)) (hp : p ≠ 0)
    (hrun : Steps (Regex.call A b p) (fun _ _ => True) h1 cs h)
    (hr : h.get? p = some (.regex r)) : r.handleType = SkyHandleType.regex.code := by
  obtain ⟨ys, G, S⟩ := exists_owns hc hp hrun
  rw [Heap.get?_of_entries S.struct_eq] at hr
  cases hr
  rfl

/-! ## Freeing -/

theorem Owns.reclaims (S : Owns h p rows F) : Reclaims A b p F h := by
  have hperm := freed_perm rows
  have hnodup := (List.nodup_cons.1 S.addrs_nodup).2
  refine ⟨rows, S, hperm, hperm.nodup_iff.2 hnodup, skyRegexDestroy_ends S, ?_⟩
  intro regexec rounds str q h1 hq
  obtain ⟨_, _, _, _, _, _, _, hl⟩ := (skyRegexParse_outcome S regexec rounds str).1 q h1 hq
  exact hl

/-- Only without lost nodes is the ledger that of the handle. -/
theorem Owns.reclaims_iff (S : Owns h p rows (G + F)) (ho : Orphans G) :
    Reclaims A b p F h ↔ G = 0 := by
  constructor
  · intro hr
    obtain ⟨ys, S', _⟩ := hr
    have heq : owned p ys = owned p rows + G := by
      refine add_right_cancel (b := F) ?_
      rw [add_assoc, ← S, ← S']
    by_contra hG
    obtain ⟨z, hz⟩ := Multiset.exists_mem_of_ne_zero hG
    refine S'.not_orphan z.1 ?_
    rw [heq, ← ho z hz]
    exact Multiset.mem_add.2 (.inr hz)
  · intro hG
    rw [hG, zero_add] at S
    exact S.reclaims

/-- A handle and calls on it: the blocks beside the older ones are its own, each freed once, exactly
when no call of the run has the string of a node refused. -/
theorem parse_reclaims_iff {cs : List Call} (hc : skyRegexCreate A true h0 = .ok (p, h1))
    (hp : p ≠ 0) (hrun : Steps (call A b p) (fun _ _ => True) h1 cs h2) :
    Reclaims A b p h0.entries h2 ↔ Steps (call A b p) (keepsAll A p) h1 cs h2 := by
  have hcreate := (skyRegexCreate_ends A true h0).result hc
  rcases hcreate with hnull | ⟨_, S⟩
  · exact absurd hnull.1 hp
  obtain ⟨ys, G, S2, ho, hkeep⟩ := S.steps hrun
  rw [S2.reclaims_iff ho, hkeep]

/-! ### A match of one character -/

def oneSlot : Slots := slotsOf [⟨0, 1⟩]

def oneChar : CStr := ⟨[97], CStr.noNul_a⟩

theorem scan_oneChar : scanLoop (anyChar oneSlot) oneChar 2 0 0 = .ok [(0, oneSlot)] :=
  scanLoop_anyChar rfl 1 0 0 rfl

theorem leading_oneSlot : leading oneSlot.toList = [⟨0, 1⟩] := by decide

theorem slots_oneChar : ∀ v ∈ [(0, oneSlot)], ∀ x ∈ leading v.2.toList,
    InText oneChar v.1 x ∧ Short x := by
  intro v hv x hx
  rw [List.mem_singleton.1 hv, leading_oneSlot] at hx
  rw [List.mem_singleton.1 hv, List.mem_singleton.1 hx]
  exact ⟨⟨by decide, by decide, by decide, by decide⟩, by unfold Short; decide⟩

def parseOneChar : Call := .parse (anyChar oneSlot) 2 oneChar

/-- A handle on an empty heap whose struct is granted, and one call of `skyRegexParse` on it. -/
theorem exists_parseOneChar (b : Build) (grants : Nat → Bool) (hg : grants 0 = true) :
    ∃ p h1 h2, skyRegexCreate (.bump grants) true .empty = .ok (p, h1) ∧ p ≠ 0 ∧
      Steps (call (.bump grants) b p) (fun _ _ => True) h1 [parseOneChar] h2 ∧
      Owns h1 p [] 0 ∧ (keepsAll (.bump grants) p h1 parseOneChar ↔
        keepsScan grants 1 [(0, oneSlot)] ≠ none) := by
  obtain ⟨p, h1, hc, hp, ht⟩ :=
    exists_create (A := .bump grants) (h := (.empty : Heap Block)) hg
  rcases (skyRegexCreate_ends (.bump grants) true .empty).result hc with hnull | ⟨_, S⟩
  · exact absurd hnull.1 hp
  obtain ⟨q, h2, hq, _⟩ := skyRegexParse_ends (A := .bump grants) S scan_oneChar
    (fun v hv x hx => (slots_oneChar v hv x hx).1) (fun v hv x hx => (slots_oneChar v hv x hx).2)
  have hcall : call (.bump grants) b p parseOneChar h1 = .ok (.list q, h2) := by
    unfold call parseOneChar
    dsimp only
    rw [bind_apply, hq]
    rfl
  refine ⟨p, h1, h2, hc, hp, .cons trivial hcall (.nil h2), S, ?_⟩
  unfold keepsAll parseOneChar
  dsimp only
  rw [ht]
  constructor
  · intro hk
    obtain ⟨n, hn, hk⟩ := hk
    rw [S.listLength] at hn
    cases hn
    exact hk _ scan_oneChar
  · intro hk
    refine ⟨0, S.listLength, fun ms hms => ?_⟩
    rw [scan_oneChar] at hms
    cases hms
    exact hk

/-- With every allocation granted, the call loses nothing. -/
theorem parse_reclaims_iff_granted : ∃ p h1 h2,
    skyRegexCreate (.bump fun _ => true) true .empty = .ok (p, h1) ∧
      Steps (call (.bump fun _ => true) ⟨0, true⟩ p) (fun _ _ => True) h1 [parseOneChar] h2 ∧
      Reclaims (.bump fun _ => true) ⟨0, true⟩ p 0 h2 := by
  obtain ⟨p, h1, h2, hc, hp, hrun, _, hkeep⟩ :=
    exists_parseOneChar ⟨0, true⟩ (fun _ => true) rfl
  refine ⟨p, h1, h2, hc, hrun, (parse_reclaims_iff hc hp hrun).2 ?_⟩
  cases hrun with
  | cons _ hs hrest =>
    exact .cons (hkeep.2 (by decide)) hs (by cases hrest; exact .nil _)

/-- The node is granted, the string is not: the node is neither freed nor in the list. -/
theorem parse_not_reclaims : ∃ p h1 h2,
    skyRegexCreate (.bump fun t => t ≠ 2) true .empty = .ok (p, h1) ∧
      Steps (call (.bump fun t => t ≠ 2) ⟨0, true⟩ p) (fun _ _ => True) h1 [parseOneChar] h2 ∧
      ¬ Reclaims (.bump fun t => t ≠ 2) ⟨0, true⟩ p 0 h2 := by
  obtain ⟨p, h1, h2, hc, hp, hrun, S, hkeep⟩ :=
    exists_parseOneChar ⟨0, true⟩ (fun t => t ≠ 2) rfl
  refine ⟨p, h1, h2, hc, hrun, ?_⟩
  obtain ⟨ys, G, S2, ho, hG⟩ := S.steps hrun
  rw [S2.reclaims_iff ho, hG]
  intro hsteps
  cases hsteps with
  | cons hok _ _ => exact absurd (hkeep.1 hok) (by decide)

end Sky.Regex
