import SkySdk.Regex.Proof.Ledger

/-!
# What a caller reads

The list of `skyRegexParse` is the leading slots of the matches of the scan, with every allocation
granted. `regexec` marks a group that took no part, and later groups may have taken part: the list
has all of them exactly when no match has such a gap (`NoGap`).
-/

set_option autoImplicit false

namespace Sky.Regex

open Base Base.Dll

variable {A : Allocator} {b : Build} {h h0 h1 h2 : Heap Block} {F G : Ledger Block} {p : Addr}
  {rows ys : List Row} {str : CStr} {regexec : Matcher} {rounds n k base : Nat}
  {grants : Nat → Bool} {t t' : Nat} {m : List Regmatch} {ms : List (Nat × Slots)} {x : Regmatch}

/-! ## Where the matches are -/

/-- Each match is looked for where the whole match before it ends. -/
def Bases : Nat → List (Nat × Slots) → Prop
  | _, [] => True
  | base, v :: ms => v.1 = base ∧ Bases (base + v.2.whole.rmEo.toInt.toNat) ms

/-- The first and the last offset of a slot of a match looked for at `base`. -/
def spanStart (base : Nat) (x : Regmatch) : Nat := base + x.rmSo.toInt.toNat

def spanStop (base : Nat) (x : Regmatch) : Nat := base + x.rmEo.toInt.toNat

/-- What a scan with spans inside the text it is given visits. -/
structure Visits (str : CStr) (v : Nat × Slots) : Prop where
  whole : InText str v.1 v.2.whole
  groups : ∀ x ∈ v.2.toList, x.rmSo ≠ -1 → InText str v.1 x

theorem mem_leading (hx : x ∈ leading m) : x ∈ m ∧ x.rmSo ≠ -1 := by
  unfold leading at hx
  have hset := List.all_eq_true.1 List.all_takeWhile x hx
  exact ⟨(List.takeWhile_sublist _).subset hx, of_decide_eq_true hset⟩

theorem Visits.leading {v : Nat × Slots} (hv : Visits str v) :
    ∀ x ∈ leading v.2.toList, InText str v.1 x := by
  intro x hx
  obtain ⟨hmem, hset⟩ := mem_leading hx
  exact hv.groups x hmem hset

/-- One induction over the scan: the visits, their bases, and how far they are. -/
theorem scanLoop_visits (hr : SpansInside regexec) : ∀ (n k base : Nat) (ms : List (Nat × Slots)),
    base ≤ str.length → scanLoop regexec str n k base = .ok ms →
    Bases base ms ∧ ∀ v ∈ ms, Visits str v ∧ base ≤ v.1
  | 0, _, _, _, _, hms => by cases hms
  | n + 1, k, base, ms, hbase, hms => by
    cases hfound : regexec k (str.bytes.drop base) with
    | none =>
      rw [scanLoop_none hfound] at hms
      cases hms
      exact ⟨trivial, fun v hv => absurd hv List.not_mem_nil⟩
    | some m =>
      obtain ⟨q, ms', hq, hrest, rfl⟩ := (scanLoop_some hfound).1 hms
      obtain ⟨hwhole, hgroups⟩ := hr _ _ _ hfound
      obtain ⟨hadv, hle⟩ := advance_inside hwhole hbase
      rw [hadv] at hq
      cases hq
      obtain ⟨hbases, hvisits⟩ := scanLoop_visits hr n (k + 1) _ ms' hle hrest
      refine ⟨⟨rfl, hbases⟩, fun v hv => ?_⟩
      rcases List.mem_cons.1 hv with rfl | hv
      · exact ⟨⟨⟨hbase, hwhole⟩, fun x hx hset => ⟨hbase, hgroups x hx hset⟩⟩, Nat.le_refl _⟩
      · obtain ⟨hv', hle'⟩ := hvisits v hv
        exact ⟨hv', (Nat.le_add_right _ _).trans hle'⟩

/-- What the loops visit from the start of the text on. -/
theorem visits_of_scan (hr : SpansInside regexec)
    (hscan : scanLoop regexec str rounds 0 0 = .ok ms) : ∀ v ∈ ms, Visits str v :=
  fun v hm => ((scanLoop_visits hr rounds 0 0 ms (Nat.zero_le _) hscan).2 v hm).1

/-- The whole matches follow one another. -/
theorem scanLoop_pairwise (hr : SpansInside regexec) : ∀ (n k base : Nat)
    (ms : List (Nat × Slots)), base ≤ str.length → scanLoop regexec str n k base = .ok ms →
    ms.Pairwise fun v w => spanStop v.1 v.2.whole ≤ spanStart w.1 w.2.whole
  | 0, _, _, _, _, hms => by cases hms
  | n + 1, k, base, ms, hbase, hms => by
    cases hfound : regexec k (str.bytes.drop base) with
    | none =>
      rw [scanLoop_none hfound] at hms
      cases hms
      exact List.Pairwise.nil
    | some m =>
      obtain ⟨q, ms', hq, hrest, rfl⟩ := (scanLoop_some hfound).1 hms
      obtain ⟨hadv, hle⟩ := advance_inside (hr _ _ _ hfound).1 hbase
      rw [hadv] at hq
      cases hq
      refine List.Pairwise.cons ?_ (scanLoop_pairwise hr n (k + 1) _ ms' hle hrest)
      intro w hw
      have hlater := ((scanLoop_visits hr n (k + 1) _ ms' hle hrest).2 w hw).2
      exact hlater.trans (Nat.le_add_right _ _)

/-! ## With every allocation granted -/

theorem Recorded.le (hm : Recorded grants str base t m ys G t') : t ≤ t' := by
  induction hm with
  | nil t => exact Nat.le_refl t
  | unset t m hx => exact Nat.le_refl t
  | refused m hx hg => exact Nat.le_succ _
  | orphaned m a hx hg hg' => exact Nat.le_add_right _ _
  | linked _ _ _ _ _ _ ih => exact (Nat.le_add_right _ _).trans ih

theorem Recorded.granted (hm : Recorded grants str base t m ys G t')
    (hg : ∀ u, t ≤ u → grants u = true) : G = 0 ∧ (∀ x ∈ leading m, Short x) ∧
      ((∀ x ∈ leading m, InText str base x) →
        ys.map Row.text = (leading m).map (slice str base)) := by
  induction hm with
  | nil t => exact ⟨rfl, fun x hx => absurd hx List.not_mem_nil, fun _ => rfl⟩
  | @unset x t m hx =>
    rw [leading_cons_unset m hx]
    exact ⟨rfl, fun x hx => absurd hx List.not_mem_nil, fun _ => rfl⟩
  | @refused x t m hx hno =>
    rw [hg t (Nat.le_refl t)] at hno
    cases hno
  | @orphaned x t m a hx _ hno =>
    rw [hg (t + 1) (Nat.le_succ t)] at hno
    cases hno
  | @linked x t t' m y ys G hx _ _ hs ht _ ih =>
    obtain ⟨h0, hshort, htexts⟩ := ih fun u hu => hg u (Nat.le_of_add_right_le hu)
    rw [leading_cons_set m hx]
    refine ⟨h0, fun z hz => ?_, fun hin => ?_⟩
    · rcases List.mem_cons.1 hz with rfl | hz
      · exact hs
      · exact hshort z hz
    · rw [List.map_cons, List.map_cons, ht (hin x List.mem_cons_self),
        htexts fun z hz => hin z (List.mem_cons_of_mem _ hz)]

theorem Parsed.granted (hms : Parsed grants str t ms ys G t')
    (hg : ∀ u, t ≤ u → grants u = true) :
    G = 0 ∧ (∀ v ∈ ms, ∀ x ∈ leading v.2.toList, Short x) ∧
      ((∀ v ∈ ms, ∀ x ∈ leading v.2.toList, InText str v.1 x) →
        ys.map Row.text = texts leading str ms) := by
  induction hms with
  | nil t => exact ⟨rfl, fun v hv => absurd hv List.not_mem_nil, fun _ => rfl⟩
  | @cons t t1 t2 base m ms ys zs G G' hm _ ih =>
    obtain ⟨h0, hshort, htexts⟩ := hm.granted hg
    obtain ⟨h0', hshort', htexts'⟩ := ih fun u hu => hg u (hm.le.trans hu)
    refine ⟨by rw [h0, h0', add_zero], fun v hv => ?_, fun hin => ?_⟩
    · rcases List.mem_cons.1 hv with rfl | hv
      · exact hshort
      · exact hshort' v hv
    · rw [List.map_append, htexts (hin _ List.mem_cons_self),
        htexts' fun v hv => hin v (List.mem_cons_of_mem _ hv)]
      rfl

theorem slice_noNul (str : CStr) (base : Nat) (x : Regmatch) : 0 ∉ slice str base x :=
  fun hn => str.noNul (List.mem_of_mem_drop (List.mem_of_mem_take hn))

theorem texts_noNul {of : List Regmatch → List Regmatch} {bs : List UInt8}
    (hbs : bs ∈ texts of str ms) : 0 ∉ bs := by
  obtain ⟨v, _, hbs⟩ := List.mem_flatMap.1 hbs
  obtain ⟨x, _, rfl⟩ := List.mem_map.1 hbs
  exact slice_noNul str v.1 x

/-- The list that a call of `skyRegexParse` makes, as its caller reads it. -/
def parseTexts (A : Allocator) (regexec : Matcher) (rounds : Nat) (regex : Addr) (str : CStr) :
    RegexM (List CStr) := do
  textsOf (← skyRegexParse A regexec rounds regex str)

/-- What the caller reads when the call returns. -/
theorem parseTexts_returns (S : Owns h p rows F) (hscan : scanLoop regexec str rounds 0 0 = .ok ms)
    (hv : ∀ v ∈ ms, Visits str v) (hg : ∀ u, h.time ≤ u → A.grants u = true) :
    Returns (parseTexts A regexec rounds p str) h fun ss _ =>
      ss.map CStr.bytes = texts leading str ms ∧
        ∀ v ∈ ms, ∀ x ∈ leading v.2.toList, Short x := by
  refine (skyRegexParse_outcome S regexec rounds str).1.bind ?_
  intro q h1 hparse
  obtain ⟨ms', ys, G, hscan', hms, rfl, S1, _⟩ := hparse
  rw [hscan] at hscan'
  cases hscan'
  obtain ⟨_, hshort, htexts⟩ := hms.granted fun u hu => hg u (Nat.le_of_add_right_le hu)
  have htexts := htexts fun v hm => (hv v hm).leading
  apply Ends.returns
  apply S1.textsOf.mono
  intro ss h2 hread
  obtain ⟨_, _, hbytes⟩ := hread
  refine ⟨(hbytes fun y hy => ?_).trans htexts, hshort⟩
  exact texts_noNul (htexts ▸ List.mem_map_of_mem hy)

theorem parseTexts_ends (S : Owns h p rows F) (hscan : scanLoop regexec str rounds 0 0 = .ok ms)
    (hv : ∀ v ∈ ms, Visits str v) (hg : ∀ u, h.time ≤ u → A.grants u = true)
    (hs : ∀ v ∈ ms, ∀ x ∈ leading v.2.toList, Short x) :
    Ends (parseTexts A regexec rounds p str) h fun ss _ =>
      ss.map CStr.bytes = texts leading str ms := by
  have hends : Ends (parseTexts A regexec rounds p str) h fun _ _ => True := by
    unfold parseTexts
    rw [ends_bind]
    apply (skyRegexParse_ends S hscan (fun v hm => (hv v hm).leading) hs).mono
    intro q h1 hparse
    obtain ⟨ys, G, _, rfl, S1⟩ := hparse
    exact S1.textsOf.mono fun _ _ _ => trivial
  obtain ⟨ss, h', hx, _⟩ := hends
  exact ⟨ss, h', hx, (parseTexts_returns S hscan hv hg ss h' hx).1⟩

/-! ## Groups that took no part -/

/-- No set slot after one that is not. -/
def NoGap (m : List Regmatch) : Prop := m.Pairwise fun x y => x.rmSo = -1 → y.rmSo = -1

theorem leading_eq_taking_iff (m : List Regmatch) : leading m = taking m ↔ NoGap m := by
  induction m with
  | nil => exact iff_of_true rfl List.Pairwise.nil
  | cons x m ih =>
    unfold NoGap
    rw [List.pairwise_cons]
    by_cases hx : x.rmSo = -1
    · rw [leading_cons_unset m hx, taking_cons_unset m hx]
      constructor
      · intro h
        have hunset : ∀ y ∈ m, y.rmSo = -1 := by
          intro y hy
          by_contra hset
          have hmem : y ∈ taking m := List.mem_filter.2 ⟨hy, by simpa using hset⟩
          rw [← h] at hmem
          cases hmem
        exact ⟨fun y hy _ => hunset y hy,
          List.pairwise_of_forall_mem_list fun _ _ z hz _ => hunset z hz⟩
      · intro h
        refine (List.filter_eq_nil_iff.2 fun y hy => ?_).symm
        simp [h.1 y hy hx]
    · rw [leading_cons_set m hx, taking_cons_set m hx, List.cons.injEq, ih]
      exact ⟨fun h => ⟨fun y _ hx' => absurd hx' hx, h.2⟩, fun h => ⟨rfl, h.2⟩⟩

/-- The leading slots come first among those that are set. -/
theorem leading_prefix_taking (m : List Regmatch) : leading m <+: taking m := by
  induction m with
  | nil => exact ⟨[], rfl⟩
  | cons x m ih =>
    by_cases hx : x.rmSo = -1
    · rw [leading_cons_unset m hx]
      exact ⟨_, rfl⟩
    · rw [leading_cons_set m hx, taking_cons_set m hx]
      exact (List.prefix_cons_inj x).2 ih

theorem length_texts (of : List Regmatch → List Regmatch) (str : CStr) (v : Nat × Slots)
    (ms : List (Nat × Slots)) :
    (texts of str (v :: ms)).length = (of v.2.toList).length + (texts of str ms).length := by
  simp [texts]

theorem length_leading_le (str : CStr) (ms : List (Nat × Slots)) :
    (texts leading str ms).length ≤ (texts taking str ms).length := by
  induction ms with
  | nil => exact Nat.le_refl _
  | cons v ms ih =>
    rw [length_texts, length_texts]
    exact Nat.add_le_add (leading_prefix_taking _).length_le ih

theorem texts_eq_iff (str : CStr) (ms : List (Nat × Slots)) :
    texts leading str ms = texts taking str ms ↔ ∀ v ∈ ms, NoGap v.2.toList := by
  constructor
  · intro h
    have hlen := congrArg List.length h
    clear h
    induction ms with
    | nil => exact fun v hv => absurd hv List.not_mem_nil
    | cons v ms ih =>
      rw [length_texts, length_texts] at hlen
      have hhead := (leading_prefix_taking v.2.toList).length_le
      have htail := length_leading_le str ms
      intro w hw
      rcases List.mem_cons.1 hw with rfl | hw
      · refine (leading_eq_taking_iff _).1 ((leading_prefix_taking _).eq_of_length ?_)
        omega
      · exact ih (by omega) w hw
  · intro h
    unfold texts
    refine List.flatMap_congr fun v hv => ?_
    rw [(leading_eq_taking_iff _).2 (h v hv)]

/-! ## After a run -/

/-- After any calls, with every later allocation granted: the list has all the groups that took part
exactly when no match has a gap, and no span is too long. -/
theorem parse_taking_iff {cs : List Call} (hc : skyRegexCreate A true h0 = .ok (p, h1))
    (hp : p ≠ 0) (hrun : Steps (call A b p) (fun _ _ => True) h1 cs h)
    (hg : ∀ u, h.time ≤ u → A.grants u = true) (hr : SpansInside regexec)
    (hscan : scanLoop regexec str rounds 0 0 = .ok ms) :
    Ends (parseTexts A regexec rounds p str) h
        (fun ss _ => ss.map CStr.bytes = texts taking str ms) ↔
      ∀ v ∈ ms, NoGap v.2.toList ∧ ∀ x ∈ leading v.2.toList, Short x := by
  obtain ⟨rows, F, S⟩ := exists_owns hc hp hrun
  have hv := visits_of_scan hr hscan
  constructor
  · intro hends
    obtain ⟨ss, h', hx, htake⟩ := hends
    obtain ⟨hlead, hshort⟩ := parseTexts_returns S hscan hv hg ss h' hx
    have hgap := (texts_eq_iff str ms).1 (hlead.symm.trans htake)
    exact fun v hm => ⟨hgap v hm, hshort v hm⟩
  · intro hall
    have htexts := (texts_eq_iff str ms).2 fun v hm => (hall v hm).1
    rw [← htexts]
    exact parseTexts_ends S hscan hv hg fun v hm => (hall v hm).2

theorem inside_one : (⟨0, 1⟩ : Regmatch).Inside 1 := ⟨by decide, by decide, by decide⟩

theorem spansInside_oneSlot : SpansInside (anyChar oneSlot) := by
  refine spansInside_anyChar inside_one fun x hx hset => ?_
  rcases mem_slotsOf hx with rfl | hx
  · exact absurd rfl hset
  · rw [List.mem_singleton.1 hx]
    exact inside_one

theorem parse_taking_iff_oneChar : ∃ p h1 h2,
    skyRegexCreate (.bump fun _ => true) true .empty = .ok (p, h1) ∧
      Steps (call (.bump fun _ => true) ⟨0, true⟩ p) (fun _ _ => True) h1 [parseOneChar] h2 ∧
      Ends (parseTexts (.bump fun _ => true) (anyChar oneSlot) 2 p oneChar) h2
        fun ss _ => ss.map CStr.bytes = texts taking oneChar [(0, oneSlot)] := by
  obtain ⟨p, h1, h2, hc, hp, hrun, _⟩ := exists_parseOneChar ⟨0, true⟩ (fun _ => true) rfl
  refine ⟨p, h1, h2, hc, hrun, (parse_taking_iff hc hp hrun (fun _ _ => rfl) spansInside_oneSlot
    scan_oneChar).2 fun v hv => ⟨?_, fun x hx => (slots_oneChar v hv x hx).2⟩⟩
  rw [List.mem_singleton.1 hv]
  exact (leading_eq_taking_iff _).1 (by decide +kernel)

/-- The slots of `(b)|(a)` at the letter a. -/
def gapSlots : Slots := slotsOf [⟨0, 1⟩, unset, ⟨0, 1⟩]

/-- The group that took part is missing. -/
theorem parse_not_taking : ∃ p h1, SpansInside (anyChar gapSlots) ∧
    skyRegexCreate (.bump fun _ => true) true .empty = .ok (p, h1) ∧
      scanLoop (anyChar gapSlots) oneChar 2 0 0 = .ok [(0, gapSlots)] ∧
      texts taking oneChar [(0, gapSlots)] = [[97], [97]] ∧
      Ends (parseTexts (.bump fun _ => true) (anyChar gapSlots) 2 p oneChar) h1
        fun ss _ => ss.map CStr.bytes = [[97]] := by
  have hspans : SpansInside (anyChar gapSlots) := by
    refine spansInside_anyChar inside_one fun x hx hset => ?_
    rcases mem_slotsOf hx with rfl | hx
    · exact absurd rfl hset
    simp only [List.mem_cons, List.not_mem_nil, or_false] at hx
    rcases hx with rfl | rfl | rfl
    · exact inside_one
    · exact absurd rfl hset
    · exact inside_one
  have hscan : scanLoop (anyChar gapSlots) oneChar 2 0 0 = .ok [(0, gapSlots)] :=
    scanLoop_anyChar rfl 1 0 0 rfl
  have hlead : leading gapSlots.toList = [⟨0, 1⟩] := by decide +kernel
  obtain ⟨p, h1, h2, hc, _, _, S, _⟩ := exists_parseOneChar ⟨0, true⟩ (fun _ => true) rfl
  have hends := parseTexts_ends (A := .bump fun _ => true) S hscan (visits_of_scan hspans hscan)
    (fun _ _ => rfl) (by
    intro v hm x hx
    rw [List.mem_singleton.1 hm, hlead] at hx
    rw [List.mem_singleton.1 hx]
    unfold Short
    decide)
  have htexts : texts leading oneChar [(0, gapSlots)] = [[97]] := by decide +kernel
  refine ⟨p, h1, hspans, hc, hscan, by decide +kernel, ?_⟩
  rwa [htexts] at hends

/-- Where the slots of a scan are, and the slices of the leading ones. -/
structure ScanSpec (str : CStr) (ms : List (Nat × Slots)) : Prop where
  bases : Bases 0 ms
  inside : ∀ v ∈ ms, ∀ x ∈ leading v.2.toList, 0 ≤ x.rmSo.toInt ∧
    spanStart v.1 x ≤ spanStop v.1 x ∧ spanStop v.1 x ≤ str.length
  ordered : ms.Pairwise fun v w => spanStop v.1 v.2.whole ≤ spanStart w.1 w.2.whole

theorem scanSpec (hr : SpansInside regexec) (hscan : scanLoop regexec str rounds 0 0 = .ok ms) :
    ScanSpec str ms := by
  obtain ⟨hbases, hvisits⟩ := scanLoop_visits hr rounds 0 0 ms (Nat.zero_le _) hscan
  refine ⟨hbases, fun v hm x hx => ?_, scanLoop_pairwise hr rounds 0 0 ms (Nat.zero_le _) hscan⟩
  obtain ⟨hbase, h0, h1, h2⟩ := (hvisits v hm).1.leading x hx
  rw [List.length_drop] at h2
  have hlen : str.bytes.length = str.length := rfl
  unfold spanStart spanStop
  omega

theorem skyRegexMatch_ends (S : Owns h p rows F)
    (hscan : scanLoop regexec str rounds 0 0 = .ok ms) :
    Ends (skyRegexMatch b regexec rounds p str) h fun n h' => h' = h ∧
      n.toNat = (texts leading str ms).length % 2 ^ 32 := by
  rw [Ends, skyRegexMatch_eq S, matchLoop_eq, hscan]
  refine ⟨_, h, rfl, rfl, ?_⟩
  rw [UInt32.zero_add]
  exact UInt32.toNat_ofNat'

/-- After any calls, with every later allocation granted: `skyRegexParse` lists the slices of the
leading slots, and `skyRegexMatch` counts them in 32 bits. -/
theorem parse_match_spec {cs : List Call} (hc : skyRegexCreate A true h0 = .ok (p, h1))
    (hp : p ≠ 0) (hrun : Steps (call A b p) (fun _ _ => True) h1 cs h)
    (hg : ∀ u, h.time ≤ u → A.grants u = true) (hr : SpansInside regexec)
    (hscan : scanLoop regexec str rounds 0 0 = .ok ms)
    (hs : ∀ v ∈ ms, ∀ x ∈ leading v.2.toList, Short x) :
    ScanSpec str ms ∧
      Ends (parseTexts A regexec rounds p str) h
        (fun ss _ => ss.map CStr.bytes = texts leading str ms) ∧
      Ends (skyRegexMatch b regexec rounds p str) h
        (fun n h' => h' = h ∧ n.toNat = (texts leading str ms).length % 2 ^ 32) := by
  obtain ⟨rows, F, S⟩ := exists_owns hc hp hrun
  have hv := visits_of_scan hr hscan
  exact ⟨scanSpec hr hscan, parseTexts_ends S hscan hv hg hs, skyRegexMatch_ends S hscan⟩

theorem parse_match_spec_oneChar : ∃ p h1 h2,
    skyRegexCreate (.bump fun _ => true) true .empty = .ok (p, h1) ∧
      Steps (call (.bump fun _ => true) ⟨0, true⟩ p) (fun _ _ => True) h1 [parseOneChar] h2 ∧
      Ends (parseTexts (.bump fun _ => true) (anyChar oneSlot) 2 p oneChar) h2
        fun ss _ => ss.map CStr.bytes = texts leading oneChar [(0, oneSlot)] := by
  obtain ⟨p, h1, h2, hc, hp, hrun, _⟩ := exists_parseOneChar ⟨0, true⟩ (fun _ => true) rfl
  exact ⟨p, h1, h2, hc, hrun, (parse_match_spec hc hp hrun (fun _ _ => rfl) spansInside_oneSlot
    scan_oneChar fun v hv x hx => (slots_oneChar v hv x hx).2).2.1⟩

/-! ### Where 32 bits are too few -/

/-- A text of `n` letters. -/
def letters (n : Nat) : CStr := ⟨List.replicate n 97, fun h => by
  cases (List.mem_replicate.1 h).2⟩

theorem length_letters (n : Nat) : (letters n).length = n := List.length_replicate

theorem length_texts_oneSlot (str : CStr) (p n : Nat) :
    (texts leading str ((List.range' p n).map fun p => (p, oneSlot))).length = n := by
  induction n generalizing p with
  | zero => rfl
  | succ n ih =>
    rw [List.range'_succ, List.map_cons, length_texts, ih, leading_oneSlot, List.length_singleton,
      Nat.add_comm]

/-- A match a letter: what is listed, and what is counted. -/
theorem parse_match_letters (S : Owns h p rows F) (hg : ∀ u, h.time ≤ u → A.grants u = true)
    (n : Nat) :
    Ends (parseTexts A (anyChar oneSlot) (n + 1) p (letters n)) h (fun ss _ => ss.length = n) ∧
      Ends (skyRegexMatch b (anyChar oneSlot) (n + 1) p (letters n)) h
        (fun c _ => c.toNat = n % 2 ^ 32) := by
  have hscan := scanLoop_anyChar (m := oneSlot) rfl n 0 0
    ((Nat.zero_add n).trans (length_letters n).symm)
  have hlen := length_texts_oneSlot (letters n) 0 n
  constructor
  · apply (parseTexts_ends S hscan (visits_of_scan spansInside_oneSlot hscan) hg ?_).mono
    · intro ss _ hss
      rw [← hlen, ← hss, List.length_map]
    · intro v hm x hx
      obtain ⟨q, _, rfl⟩ := List.mem_map.1 hm
      rw [leading_oneSlot] at hx
      rw [List.mem_singleton.1 hx]
      unfold Short
      decide
  · apply (skyRegexMatch_ends S hscan).mono
    intro c _ hcount
    rw [hcount.2, hlen]

/-- A span that is too long stops `skyRegexParse`. -/
theorem skyRegexParse_overflow (S : Owns h p rows F)
    (hscan : scanLoop regexec str rounds 0 0 = .ok ms) (hv : ∀ v ∈ ms, Visits str v)
    (hg : ∀ u, h.time ≤ u → A.grants u = true) {v : Nat × Slots} (hm : v ∈ ms)
    (hx : x ∈ leading v.2.toList) (hlong : ¬ Short x) :
    skyRegexParse A regexec rounds p str h = .error .overflow := by
  obtain ⟨hret, herr⟩ := skyRegexParse_outcome (A := A) S regexec rounds str
  cases hq : skyRegexParse A regexec rounds p str h with
  | error e => rw [((herr e hq ms hscan).2 fun v hm => (hv v hm).leading).1]
  | ok r =>
    obtain ⟨ms', ys, G, hscan', hms, _⟩ := hret r.1 r.2 hq
    rw [hscan] at hscan'
    cases hscan'
    obtain ⟨_, hshort, _⟩ := hms.granted fun u hu => hg u (Nat.le_of_add_right_le hu)
    exact absurd (hshort v hm x hx) hlong

theorem whole_mem_leading (m : Slots) (hm : m.whole.rmSo ≠ -1) : m.whole ∈ leading m.toList := by
  have hlen : m.toList.length = regexMaxMatch := Vector.length_toList
  have hpos : 0 < regexMaxMatch := by decide
  have hget : m.toList[0]? = some m.whole := by
    rw [Vector.getElem?_toList, Vector.getElem?_eq_getElem hpos]
    rfl
  cases hl : m.toList with
  | nil =>
    rw [hl] at hlen
    cases hlen
  | cons x xs =>
    rw [hl] at hget
    obtain rfl := Option.some.inj hget
    rw [leading_cons_set xs hm]
    exact List.mem_cons_self

/-- `regexec` with an expression that matches a text of as many characters as `x` has. -/
def allOf (x : Regmatch) : Matcher := fun _ text =>
  if (text.length : Int) = x.rmEo.toInt then some (slotsOf [x]) else none

theorem scanLoop_allOf (str : CStr) (h0 : x.rmSo = 0)
    (hlen : (str.length : Int) = x.rmEo.toInt) (hpos : 0 < str.length) : SpansInside (allOf x) ∧
      scanLoop (allOf x) str 2 0 0 = .ok [(0, slotsOf [x])] := by
  have hspans : SpansInside (allOf x) := by
    intro k text m hm
    unfold allOf at hm
    split at hm
    · rename_i hfull
      obtain rfl := Option.some.inj hm
      have hzero : x.rmSo.toInt = 0 := by rw [h0]; rfl
      have hx : x.Inside text.length := ⟨by omega, by omega, by omega⟩
      rw [slotsOf_whole]
      refine ⟨hx, fun y hy hset => ?_⟩
      rcases mem_slotsOf hy with rfl | hy
      · exact absurd rfl hset
      · rwa [List.mem_singleton.1 hy]
    · cases hm
  have hfound : allOf x 0 (str.bytes.drop 0) = some (slotsOf [x]) := if_pos hlen
  have hq := (advance_inside (hspans _ _ _ hfound).1 (Nat.zero_le _)).1
  refine ⟨hspans, (scanLoop_some hfound).2 ⟨_, [], hq, ?_, rfl⟩⟩
  refine scanLoop_none (if_neg ?_)
  have hbytes : str.bytes.length = str.length := rfl
  rw [slotsOf_whole, List.length_drop]
  omega

/-- With 4294967296 matches, the count is 0; with a match of 2147483647 characters, the length of
the string overflows. -/
theorem parse_match_wide : ∃ p h, skyRegexCreate (.bump fun _ => true) true .empty = .ok (p, h) ∧
    (SpansInside (anyChar oneSlot) ∧
      Ends (parseTexts (.bump fun _ => true) (anyChar oneSlot) 4294967297 p (letters 4294967296)) h
        (fun ss _ => ss.length = 4294967296) ∧
      Ends (skyRegexMatch ⟨0, true⟩ (anyChar oneSlot) 4294967297 p (letters 4294967296)) h
        (fun c _ => c = 0)) ∧
    (SpansInside (allOf ⟨0, 2147483647⟩) ∧
      scanLoop (allOf ⟨0, 2147483647⟩) (letters 2147483647) 2 0 0 =
        .ok [(0, slotsOf [⟨0, 2147483647⟩])] ∧
      skyRegexParse (.bump fun _ => true) (allOf ⟨0, 2147483647⟩) 2 p (letters 2147483647) h =
        .error .overflow) := by
  obtain ⟨p, h, _, hc, _, _, S, _⟩ := exists_parseOneChar ⟨0, true⟩ (fun _ => true) rfl
  obtain ⟨hlist, hcount⟩ := parse_match_letters (A := .bump fun _ => true) (b := ⟨0, true⟩) S
    (fun _ _ => rfl) 4294967296
  have hlen := length_letters 2147483647
  obtain ⟨hspans, hscan⟩ := scanLoop_allOf (x := ⟨0, 2147483647⟩) (letters 2147483647) rfl
    (by rw [hlen]; decide) (by omega)
  refine ⟨p, h, hc, ⟨spansInside_oneSlot, hlist, hcount.mono fun c _ hc => ?_⟩, hspans, hscan, ?_⟩
  · exact UInt32.toNat_inj.1 hc
  · refine skyRegexParse_overflow S hscan (visits_of_scan hspans hscan) (fun _ _ => rfl)
      List.mem_cons_self (whole_mem_leading _ (by decide)) ?_
    unfold Short
    decide

end Sky.Regex
