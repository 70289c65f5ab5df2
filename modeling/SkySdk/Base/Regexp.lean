import Mathlib.Data.List.Basic
import Mathlib.Data.List.Lex

/-!
# Regular expressions with groups and line anchors

`Matches nl line s e t i j`: the expression `e` matches the characters of `s` from offset `i` to
offset `j` as `t` says, where `nl` says which characters end a line and `line` at which offsets `^`
holds. In the whole text these are the line starts (`LineStart`). A search that is resumed at `o` on
the rest of the text alone takes `o` for one too (`Resumed`); behind `o` the two agree, and `^` only
ever adds matches.

A `Rule` says which of the matches at an offset is taken and what is reported of it; `posix` is one.
`First` is the match that is taken of those that start first, from an offset on. `FindAll` looks for
one after the other in the whole text, and goes on one character further after an empty match;
`SuffixScan` looks for the next one in the rest of the text alone. The two report the same exactly
when at no end of a match `^` at that end changes what would be reported of a match that starts
there (`suffixScan_findAll_iff`).
-/

set_option autoImplicit false

namespace Base

/-- Anchors, sets of characters, the operators and numbered groups. -/
inductive Regexp (α : Type)
  | empty
  | set (p : α → Bool)
  | bol
  | eol
  | seq (e f : Regexp α)
  | alt (e f : Regexp α)
  | star (e : Regexp α)
  | group (k : Nat) (e : Regexp α)

namespace Regexp

/-- How an expression matches. A `star` goes through iterations that take characters, or through a
single one that takes none. -/
inductive Tree
  | empty
  | char
  | seq (t u : Tree)
  | left (t : Tree)
  | right (t : Tree)
  | starNil
  | starOnce (t : Tree)
  | starCons (t u : Tree)
  | group (k : Nat) (t : Tree)

/-- The number of characters. -/
def Tree.width : Tree → Nat
  | .empty => 0
  | .char => 1
  | .seq t u => t.width + u.width
  | .left t => t.width
  | .right t => t.width
  | .starNil => 0
  | .starOnce t => t.width
  | .starCons t u => t.width + u.width
  | .group _ t => t.width

variable {α : Type}

/-- A tree of the expression. -/
def Fits : Regexp α → Tree → Prop
  | .empty, .empty => True
  | .set _, .char => True
  | .bol, .empty => True
  | .eol, .empty => True
  | .seq e f, .seq t u => Fits e t ∧ Fits f u
  | .alt e _, .left t => Fits e t
  | .alt _ f, .right t => Fits f t
  | .star _, .starNil => True
  | .star e, .starOnce t => Fits e t ∧ t.width = 0
  | .star e, .starCons t u => Fits e t ∧ 0 < t.width ∧ Fits (.star e) u
  | .group k e, .group k' t => k' = k ∧ Fits e t
  | _, _ => False

/-- The start of the text, or the offset after the end of a line. -/
def LineStart (nl : α → Bool) (s : List α) (i : Nat) : Prop :=
  i = 0 ∨ ∃ c, s[i - 1]? = some c ∧ nl c = true

/-- The end of the text, or of a line. -/
def LineEnd (nl : α → Bool) (s : List α) (i : Nat) : Prop :=
  i = s.length ∨ ∃ c, s[i]? = some c ∧ nl c = true

inductive Matches (nl : α → Bool) (line : Nat → Prop) (s : List α) :
    Regexp α → Tree → Nat → Nat → Prop
  | empty {i : Nat} (hi : i ≤ s.length) : Matches nl line s .empty .empty i i
  | set {p : α → Bool} {i : Nat} {c : α} (hc : s[i]? = some c) (hp : p c = true) :
      Matches nl line s (.set p) .char i (i + 1)
  | bol {i : Nat} (hi : i ≤ s.length) (hl : line i) : Matches nl line s .bol .empty i i
  | eol {i : Nat} (hi : i ≤ s.length) (hl : LineEnd nl s i) : Matches nl line s .eol .empty i i
  | seq {e f : Regexp α} {t u : Tree} {i j k : Nat} (he : Matches nl line s e t i j)
      (hf : Matches nl line s f u j k) : Matches nl line s (.seq e f) (.seq t u) i k
  | altLeft {e f : Regexp α} {t : Tree} {i j : Nat} (he : Matches nl line s e t i j) :
      Matches nl line s (.alt e f) (.left t) i j
  | altRight {e f : Regexp α} {t : Tree} {i j : Nat} (hf : Matches nl line s f t i j) :
      Matches nl line s (.alt e f) (.right t) i j
  | starNil {e : Regexp α} {i : Nat} (hi : i ≤ s.length) : Matches nl line s (.star e) .starNil i i
  | starOnce {e : Regexp α} {t : Tree} {i : Nat} (he : Matches nl line s e t i i) :
      Matches nl line s (.star e) (.starOnce t) i i
  | starCons {e : Regexp α} {t u : Tree} {i j k : Nat} (he : Matches nl line s e t i j)
      (hlt : i < j) (hs : Matches nl line s (.star e) u j k) :
      Matches nl line s (.star e) (.starCons t u) i k
  | group {k : Nat} {e : Regexp α} {t : Tree} {i j : Nat} (he : Matches nl line s e t i j) :
      Matches nl line s (.group k e) (.group k t) i j

/-- A match in the whole text. -/
abbrev MatchAt (nl : α → Bool) (s : List α) : Regexp α → Tree → Nat → Nat → Prop :=
  Matches nl (LineStart nl s) s

/-- The offsets that are line starts when the text before `o` is not seen. -/
def Resumed (nl : α → Bool) (s : List α) (o k : Nat) : Prop := k = o ∨ LineStart nl s k

variable {nl : α → Bool} {line line' : Nat → Prop} {s : List α} {e : Regexp α} {t t' : Tree}
  {i j k o : Nat}

/-! ## Matches -/

theorem Matches.bounds (h : Matches nl line s e t i j) : i ≤ j ∧ j ≤ s.length := by
  induction h with
  | empty hi => exact ⟨Nat.le_refl _, hi⟩
  | set hc _ => exact ⟨Nat.le_succ _, (List.getElem?_eq_some_iff.1 hc).1⟩
  | bol hi _ => exact ⟨Nat.le_refl _, hi⟩
  | eol hi _ => exact ⟨Nat.le_refl _, hi⟩
  | seq _ _ ihe ihf => exact ⟨Nat.le_trans ihe.1 ihf.1, ihf.2⟩
  | altLeft _ ih => exact ih
  | altRight _ ih => exact ih
  | starNil hi => exact ⟨Nat.le_refl _, hi⟩
  | starOnce _ ih => exact ih
  | starCons _ _ _ ihe ihs => exact ⟨Nat.le_trans ihe.1 ihs.1, ihs.2⟩
  | group _ ih => exact ih

theorem Matches.width_eq (h : Matches nl line s e t i j) : j = i + t.width := by
  induction h with
  | empty _ => rfl
  | set _ _ => rfl
  | bol _ _ => rfl
  | eol _ _ => rfl
  | seq _ _ ihe ihf => rw [ihf, ihe, Nat.add_assoc, Tree.width]
  | altLeft _ ih => exact ih
  | altRight _ ih => exact ih
  | starNil _ => rfl
  | starOnce _ ih => exact ih
  | starCons _ _ _ ihe ihs => rw [ihs, ihe, Nat.add_assoc, Tree.width]
  | group _ ih => exact ih

theorem Matches.fits (h : Matches nl line s e t i j) : Fits e t := by
  induction h with
  | empty _ => trivial
  | set _ _ => trivial
  | bol _ _ => trivial
  | eol _ _ => trivial
  | seq _ _ ihe ihf => exact ⟨ihe, ihf⟩
  | altLeft _ ih => exact ih
  | altRight _ ih => exact ih
  | starNil _ => trivial
  | starOnce he ih =>
    have hwidth := he.width_eq
    exact ⟨ih, by omega⟩
  | starCons he hlt _ ihe ihs =>
    have hwidth := he.width_eq
    exact ⟨ihe, by omega, ihs⟩
  | group _ ih => exact ⟨rfl, ih⟩

/-- More line starts, more matches; those before the match do not matter. -/
theorem Matches.mono (h : Matches nl line s e t i j) (hl : ∀ k, i ≤ k → line k → line' k) :
    Matches nl line' s e t i j := by
  induction h with
  | empty hi => exact .empty hi
  | set hc hp => exact .set hc hp
  | bol hi hline => exact .bol hi (hl _ (Nat.le_refl _) hline)
  | eol hi hend => exact .eol hi hend
  | seq he _ ihe ihf => exact .seq (ihe hl) (ihf fun k hk => hl k (Nat.le_trans he.bounds.1 hk))
  | altLeft _ ih => exact .altLeft (ih hl)
  | altRight _ ih => exact .altRight (ih hl)
  | starNil hi => exact .starNil hi
  | starOnce _ ih => exact .starOnce (ih hl)
  | starCons he hlt _ ihe ihs =>
    exact .starCons (ihe hl) hlt (ihs fun k hk => hl k (Nat.le_trans he.bounds.1 hk))
  | group _ ih => exact .group (ih hl)

theorem Matches.of_drop (ho : o ≤ s.length) (h : Matches nl line (s.drop o) e t i j)
    (hl : ∀ k, line k → line' (o + k)) : Matches nl line' s e t (o + i) (o + j) := by
  have hlen : (s.drop o).length = s.length - o := List.length_drop
  induction h with
  | empty hi => exact .empty (by omega)
  | set hc hp =>
    rw [List.getElem?_drop] at hc
    exact .set hc hp
  | bol hi hline => exact .bol (by omega) (hl _ hline)
  | eol hi hend =>
    refine .eol (by omega) ?_
    rcases hend with hend | ⟨c, hc, hnl⟩
    · exact .inl (by omega)
    · rw [List.getElem?_drop] at hc
      exact .inr ⟨c, hc, hnl⟩
  | seq _ _ ihe ihf => exact .seq ihe ihf
  | altLeft _ ih => exact .altLeft ih
  | altRight _ ih => exact .altRight ih
  | starNil hi => exact .starNil (by omega)
  | starOnce _ ih => exact .starOnce ih
  | starCons _ hlt _ ihe ihs => exact .starCons ihe (Nat.add_lt_add_left hlt o) ihs
  | group _ ih => exact .group ih

theorem Matches.to_drop (h : Matches nl line s e t i j) (ho : o ≤ i)
    (hl : ∀ k, line (o + k) → line' k) : Matches nl line' (s.drop o) e t (i - o) (j - o) := by
  have hlen : (s.drop o).length = s.length - o := List.length_drop
  induction h with
  | empty hi => exact .empty (by omega)
  | @set p i c hc hp =>
    have hc' : (s.drop o)[i - o]? = some c := by
      rwa [List.getElem?_drop, Nat.add_sub_cancel' ho]
    rw [Nat.succ_sub ho]
    exact .set hc' hp
  | bol hi hline =>
    refine .bol (by omega) (hl _ ?_)
    rwa [Nat.add_sub_cancel' ho]
  | eol hi hend =>
    refine .eol (by omega) ?_
    rcases hend with hend | ⟨c, hc, hnl⟩
    · exact .inl (by omega)
    · refine .inr ⟨c, ?_, hnl⟩
      rwa [List.getElem?_drop, Nat.add_sub_cancel' ho]
  | seq he _ ihe ihf => exact .seq (ihe ho) (ihf (Nat.le_trans ho he.bounds.1))
  | altLeft _ ih => exact .altLeft (ih ho)
  | altRight _ ih => exact .altRight (ih ho)
  | starNil hi => exact .starNil (by omega)
  | starOnce _ ih => exact .starOnce (ih ho)
  | starCons he hlt _ ihe ihs =>
    exact .starCons (ihe ho) (Nat.sub_lt_sub_right ho hlt) (ihs (Nat.le_trans ho he.bounds.1))
  | group _ ih => exact .group (ih ho)

theorem lineStart_drop : LineStart nl (s.drop o) k ↔ Resumed nl s o (o + k) := by
  unfold Resumed LineStart
  cases k with
  | zero => exact iff_of_true (.inl rfl) (.inl rfl)
  | succ k =>
    have hget : (s.drop o)[k]? = s[o + k]? := List.getElem?_drop
    have hne : o + k + 1 ≠ o := by omega
    simp only [← Nat.add_assoc, Nat.add_sub_cancel, hget, Nat.succ_ne_zero, false_or, hne]

theorem matchAt_drop (ho : o ≤ s.length) :
    MatchAt nl (s.drop o) e t i j ↔ Matches nl (Resumed nl s o) s e t (o + i) (o + j) := by
  constructor
  · intro h
    exact h.of_drop ho fun k hk => lineStart_drop.1 hk
  · intro h
    have h' := h.to_drop (Nat.le_add_right o i) fun k hk => (lineStart_drop (k := k)).2 hk
    rwa [Nat.add_sub_cancel_left, Nat.add_sub_cancel_left] at h'

theorem Matches.resumed (h : MatchAt nl s e t i j) : Matches nl (Resumed nl s o) s e t i j :=
  h.mono fun _ _ hk => .inr hk

/-- Behind the offset where the search is resumed, nothing changes. -/
theorem Matches.matchAt (h : Matches nl (Resumed nl s o) s e t i j) (ho : o < i) :
    MatchAt nl s e t i j := by
  refine h.mono fun k hk hline => hline.resolve_left ?_
  omega

/-- At a line start, resuming the search there changes nothing. -/
theorem Matches.of_lineStart (h : Matches nl (Resumed nl s o) s e t i j) (ho : LineStart nl s o) :
    MatchAt nl s e t i j := by
  refine h.mono fun k _ hk => ?_
  rcases hk with rfl | hk
  · exact ho
  · exact hk

/-- An expression without `^`. -/
def bolFree : Regexp α → Bool
  | .empty => true
  | .set _ => true
  | .bol => false
  | .eol => true
  | .seq e f => e.bolFree && f.bolFree
  | .alt e f => e.bolFree && f.bolFree
  | .star e => e.bolFree
  | .group _ e => e.bolFree

theorem Matches.of_bolFree (h : Matches nl line s e t i j) (he : e.bolFree = true) :
    Matches nl line' s e t i j := by
  induction h with
  | empty hi => exact .empty hi
  | set hc hp => exact .set hc hp
  | bol _ _ => cases he
  | eol hi hend => exact .eol hi hend
  | seq _ _ ihe ihf =>
    obtain ⟨he, hf⟩ := Bool.and_eq_true_iff.1 he
    exact .seq (ihe he) (ihf hf)
  | altLeft _ ih => exact .altLeft (ih (Bool.and_eq_true_iff.1 he).1)
  | altRight _ ih => exact .altRight (ih (Bool.and_eq_true_iff.1 he).2)
  | starNil hi => exact .starNil hi
  | starOnce _ ih => exact .starOnce (ih he)
  | starCons _ hlt _ ihe ihs => exact .starCons (ihe he) hlt (ihs he)
  | group _ ih => exact .group (ih he)

/-! ## Which match is taken -/

/-- Which of two matches at one offset is taken, the longer one in any case, and what is reported
of a match. Where neither comes before the other, the same is reported of both. -/
structure Rule (e : Regexp α) (β : Type) where
  better : Tree → Tree → Prop
  report : Tree → β
  longer : ∀ t t', t.width < t'.width → better t' t
  tie : ∀ t t', Fits e t → Fits e t' → ¬ better t t' → ¬ better t' t → report t = report t'

variable {β γ : Type}

/-- Less is kept of the report. -/
def Rule.map (R : Rule e β) (f : β → γ) : Rule e γ where
  better := R.better
  report t := f (R.report t)
  longer := R.longer
  tie t t' ht ht' h h' := congrArg f (R.tie t t' ht ht' h h')

variable {R : Rule e β}

structure Best (R : Rule e β) (nl : α → Bool) (line : Nat → Prop) (s : List α) (t : Tree)
    (i j : Nat) : Prop where
  isMatch : Matches nl line s e t i j
  best : ∀ t' j', Matches nl line s e t' i j' → ¬ R.better t' t

theorem Best.unique {j' : Nat} (h : Best R nl line s t i j) (h' : Best R nl line s t' i j') :
    j = j' ∧ R.report t = R.report t' := by
  have hb := h.best t' j' h'.isMatch
  have hb' := h'.best t j h.isMatch
  have hw := Nat.not_lt.1 fun hlt => hb (R.longer t t' hlt)
  have hw' := Nat.not_lt.1 fun hlt => hb' (R.longer t' t hlt)
  refine ⟨?_, R.tie t t' h.isMatch.fits h'.isMatch.fits hb' hb⟩
  rw [h.isMatch.width_eq, h'.isMatch.width_eq, Nat.le_antisymm hw' hw]

/-- With as many line starts from there on, the same matches are best. -/
theorem Best.congr (h : Best R nl line s t i j)
    (hl : ∀ t j, Matches nl line' s e t i j ↔ Matches nl line s e t i j) :
    Best R nl line' s t i j where
  isMatch := (hl t j).2 h.isMatch
  best t' j' hm := h.best t' j' ((hl t' j').1 hm)

/-- The best of the matches that start first, from `o` on. -/
structure First (R : Rule e β) (nl : α → Bool) (line : Nat → Prop) (s : List α) (o : Nat)
    (t : Tree) (i j : Nat) : Prop where
  start : o ≤ i
  isBest : Best R nl line s t i j
  leftmost : ∀ t' i' j', o ≤ i' → Matches nl line s e t' i' j' → i ≤ i'

theorem First.unique {i' j' : Nat} (h : First R nl line s o t i j)
    (h' : First R nl line s o t' i' j') : i = i' ∧ j = j' ∧ R.report t = R.report t' := by
  obtain rfl := Nat.le_antisymm (h.leftmost _ _ _ h'.start h'.isBest.isMatch)
    (h'.leftmost _ _ _ h.start h.isBest.isMatch)
  exact ⟨rfl, h.isBest.unique h'.isBest⟩

theorem First.map {f : β → γ} (h : First R nl line s o t i j) :
    First (R.map f) nl line s o t i j where
  start := h.start
  isBest := ⟨h.isBest.isMatch, h.isBest.best⟩
  leftmost := h.leftmost

theorem First.of_drop (ho : o ≤ s.length)
    (h : First R nl (LineStart nl (s.drop o)) (s.drop o) 0 t i j) :
    First R nl (Resumed nl s o) s o t (o + i) (o + j) where
  start := Nat.le_add_right o i
  isBest := by
    refine ⟨(matchAt_drop ho).1 h.isBest.isMatch, fun t' j' hm => ?_⟩
    have hle := Nat.le_trans (Nat.le_add_right o i) hm.bounds.1
    obtain ⟨j, rfl⟩ := Nat.exists_eq_add_of_le hle
    exact h.isBest.best t' j ((matchAt_drop ho).2 hm)
  leftmost t' i' j' hi hm := by
    obtain ⟨i, rfl⟩ := Nat.exists_eq_add_of_le hi
    obtain ⟨j, rfl⟩ := Nat.exists_eq_add_of_le (Nat.le_trans hi hm.bounds.1)
    exact Nat.add_le_add_left (h.leftmost t' i j (Nat.zero_le i) ((matchAt_drop ho).2 hm)) o

theorem no_resumed_of_drop (ho : o ≤ s.length) (h : ∀ t i j, ¬ MatchAt nl (s.drop o) e t i j) :
    ∀ t i j, o ≤ i → ¬ Matches nl (Resumed nl s o) s e t i j := by
  intro t i j hi hm
  obtain ⟨i, rfl⟩ := Nat.exists_eq_add_of_le hi
  obtain ⟨j, rfl⟩ := Nat.exists_eq_add_of_le (Nat.le_trans hi hm.bounds.1)
  exact h t i j ((matchAt_drop ho).2 hm)

/-- Of the best match that would start at `o` if that were the start of a line, the same is reported
as of the best one that the text has there. -/
def NoFalseStart (R : Rule e β) (nl : α → Bool) (s : List α) (o : Nat) : Prop :=
  ∀ t j, Best R nl (Resumed nl s o) s t o j →
    ∃ t', Best R nl (LineStart nl s) s t' o j ∧ R.report t' = R.report t

theorem noFalseStart_of_lineStart (ho : LineStart nl s o) : NoFalseStart R nl s o := fun t _ ht =>
  ⟨t, ht.congr fun _ _ => ⟨fun hm => hm.resumed, fun hm => hm.of_lineStart ho⟩, rfl⟩

theorem noFalseStart_of_bolFree (he : e.bolFree = true) (o : Nat) : NoFalseStart R nl s o :=
  fun t _ ht => ⟨t, ht.congr fun _ _ => ⟨fun hm => hm.of_bolFree he, fun hm => hm.of_bolFree he⟩,
    rfl⟩

/-- Then the resumed search reports the first match of the text. -/
theorem First.of_resumed (h : First R nl (Resumed nl s o) s o t i j) (hn : NoFalseStart R nl s o) :
    ∃ t', First R nl (LineStart nl s) s o t' i j ∧ R.report t' = R.report t := by
  have hleft : ∀ t' i' j', o ≤ i' → MatchAt nl s e t' i' j' → i ≤ i' :=
    fun t' i' j' hi hm => h.leftmost t' i' j' hi hm.resumed
  rcases Nat.lt_or_eq_of_le h.start with hlt | rfl
  · exact ⟨t, ⟨h.start, h.isBest.congr fun _ _ => ⟨fun hm => hm.resumed, fun hm => hm.matchAt hlt⟩,
      hleft⟩, rfl⟩
  · obtain ⟨t', ht', hreport⟩ := hn t j h.isBest
    exact ⟨t', ⟨h.start, ht', hleft⟩, hreport⟩

/-! ## All matches -/

/-- Where the search goes on after a match. -/
def resume (i j : Nat) : Nat := if i = j then j + 1 else j

/-- The matches from `o` on, one after the other: their offsets, and what is reported of them. -/
inductive FindAll (R : Rule e β) (nl : α → Bool) (s : List α) : Nat → List (Nat × Nat × β) → Prop
  | done {o : Nat} (hn : ∀ t i j, o ≤ i → ¬ MatchAt nl s e t i j) : FindAll R nl s o []
  | next {o i j : Nat} {t : Tree} {found : List (Nat × Nat × β)}
      (hm : First R nl (LineStart nl s) s o t i j) (hs : FindAll R nl s (resume i j) found) :
      FindAll R nl s o ((i, j, R.report t) :: found)

/-- The search for all matches from `o` on searches from `o'`. -/
inductive Searches (R : Rule e β) (nl : α → Bool) (s : List α) : Nat → Nat → Prop
  | here (o : Nat) : Searches R nl s o o
  | next {o i j o' : Nat} {t : Tree} (hm : First R nl (LineStart nl s) s o t i j)
      (hs : Searches R nl s (resume i j) o') : Searches R nl s o o'

/-- Each search is in the rest of the text alone, from the end of the match before. -/
inductive SuffixScan (R : Rule e β) (nl : α → Bool) (s : List α) :
    Nat → List (Nat × Nat × β) → Prop
  | done {o : Nat} (hn : ∀ t i j, o ≤ i → ¬ Matches nl (Resumed nl s o) s e t i j) :
      SuffixScan R nl s o []
  | next {o i j : Nat} {t : Tree} {found : List (Nat × Nat × β)}
      (hm : First R nl (Resumed nl s o) s o t i j) (hs : SuffixScan R nl s j found) :
      SuffixScan R nl s o ((i, j, R.report t) :: found)

variable {found : List (Nat × Nat × β)}

theorem FindAll.matchAt (h : FindAll R nl s o found) :
    ∀ v ∈ found, ∃ t, MatchAt nl s e t v.1 v.2.1 ∧ R.report t = v.2.2 := by
  induction h with
  | done _ => exact fun v hv => absurd hv List.not_mem_nil
  | @next _ _ _ t _ hm _ ih =>
    intro v hv
    rcases List.mem_cons.1 hv with rfl | hv
    · exact ⟨t, hm.isBest.isMatch, rfl⟩
    · exact ih v hv

theorem FindAll.cons_inv {v : Nat × Nat × β} (h : FindAll R nl s o (v :: found)) :
    ∃ t, First R nl (LineStart nl s) s o t v.1 v.2.1 ∧ R.report t = v.2.2 ∧
      FindAll R nl s (resume v.1 v.2.1) found := by
  cases h with
  | next hm hs => exact ⟨_, hm, rfl, hs⟩

/-- An empty match where the search is resumed would be found again and again. -/
theorem SuffixScan.not_stuck (h : SuffixScan R nl s o found) :
    ¬ First R nl (Resumed nl s o) s o t o o := by
  induction h generalizing t with
  | done hn => exact fun hm => hn _ _ _ (Nat.le_refl _) hm.isBest.isMatch
  | next hm _ ih =>
    intro hm'
    obtain ⟨rfl, rfl, _⟩ := hm.unique hm'
    exact ih hm

/-- The search in the text finds no match where the resumed one finds none. -/
theorem FindAll.nil_of_resumed (hn : ∀ t i j, o ≤ i → ¬ Matches nl (Resumed nl s o) s e t i j) :
    FindAll R nl s o [] :=
  .done fun t i j hi hm => hn t i j hi hm.resumed

/-- A match after which both searches find the same is not empty. -/
theorem SuffixScan.lt (h : SuffixScan R nl s j found) (hs : FindAll R nl s (resume i j) found)
    (hm : MatchAt nl s e t i j) : i < j := by
  rcases Nat.lt_or_eq_of_le hm.bounds.1 with hlt | rfl
  · exact hlt
  cases h with
  | done hn => exact absurd hm.resumed (hn t i i (Nat.le_refl i))
  | @next _ i' j' _ _ hm' _ =>
    have hle := hm'.leftmost t i i (Nat.le_refl i) hm.resumed
    obtain ⟨_, hm'', -⟩ := hs.cons_inv
    have hstart := hm''.start
    rw [resume, if_pos rfl] at hstart
    omega

/-- What the scan needs to find all matches: at the end of none does `^` at that end change what is
reported of a match that starts there. -/
def NoFalseStarts (R : Rule e β) (nl : α → Bool) (s : List α) (o : Nat) : Prop :=
  ∀ o' t i j, Searches R nl s o o' → First R nl (LineStart nl s) s o' t i j → NoFalseStart R nl s j

theorem SuffixScan.noFalseStart (h : SuffixScan R nl s o found) (hs : FindAll R nl s o found) :
    NoFalseStart R nl s o ∧ NoFalseStarts R nl s o := by
  induction h with
  | done hn =>
    refine ⟨fun t j ht => absurd ht.isMatch (hn t _ j (Nat.le_refl _)), ?_⟩
    intro o' t i j hsearch hm
    cases hsearch with
    | here => exact absurd hm.isBest.isMatch.resumed (hn t i j hm.start)
    | next hm' _ => exact absurd hm'.isBest.isMatch.resumed (hn _ _ _ hm'.start)
  | @next o i j t found hm hscan ih =>
    obtain ⟨t1, hm1, hreport, hs1⟩ := hs.cons_inv
    have hlt := hscan.lt hs1 hm1.isBest.isMatch
    have hresume : resume i j = j := if_neg (Nat.ne_of_lt hlt)
    rw [hresume] at hs1
    obtain ⟨hn, hns⟩ := ih hs1
    refine ⟨?_, ?_⟩
    · intro t' j' ht'
      obtain rfl := Nat.le_antisymm hm.start (hm.leftmost t' o j' (Nat.le_refl o) ht'.isMatch)
      obtain ⟨rfl, hreport'⟩ := ht'.unique hm.isBest
      exact ⟨t1, hm1.isBest, hreport.trans hreport'.symm⟩
    · intro o' t' i' j' hsearch hm'
      cases hsearch with
      | here =>
        obtain ⟨rfl, rfl, _⟩ := hm1.unique hm'
        exact hn
      | next hm2 hsearch =>
        obtain ⟨rfl, rfl, _⟩ := hm1.unique hm2
        rw [hresume] at hsearch
        exact hns o' t' i' j' hsearch hm'

theorem SuffixScan.findAll (h : SuffixScan R nl s o found) (hn : NoFalseStart R nl s o)
    (hns : NoFalseStarts R nl s o) : FindAll R nl s o found := by
  induction h with
  | done hno => exact .nil_of_resumed hno
  | @next o i j t found hm hscan ih =>
    obtain ⟨t', hfirst, hreport⟩ := hm.of_resumed hn
    have hnj := hns o t' i j (.here o) hfirst
    have hne : i ≠ j := by
      intro hij
      obtain rfl := hij
      -- the match is found again at its end, where the same is reported
      cases hscan with
      | done hno => exact hno _ _ _ (Nat.le_refl i) hfirst.isBest.isMatch.resumed
      | @next _ i' k u _ hm' hscan' =>
        obtain rfl := Nat.le_antisymm hm'.start
          (hm'.leftmost _ i i (Nat.le_refl i) hfirst.isBest.isMatch.resumed)
        obtain ⟨u', hu', _⟩ := hnj u k hm'.isBest
        obtain ⟨rfl, _⟩ := hfirst.isBest.unique hu'
        exact hscan'.not_stuck hm'
    have hresume : resume i j = j := if_neg hne
    rw [← hreport]
    refine .next hfirst ?_
    rw [hresume]
    refine ih hnj fun o' t'' i' j' hsearch hm' => hns o' t'' i' j' (.next hfirst ?_) hm'
    rwa [hresume]

/-- The scan over the rests reports all matches of the text exactly when none is followed by a false
start. -/
theorem suffixScan_findAll_iff (h : SuffixScan R nl s o found) (hn : NoFalseStart R nl s o) :
    FindAll R nl s o found ↔ NoFalseStarts R nl s o :=
  ⟨fun hs => (h.noFalseStart hs).2, h.findAll hn⟩

end Regexp

end Base
