import SkySdk.Base.Posix
import SkySdk.Regex.Proof.Termination

/-!
# Where `^` holds

The expressions are compiled with `REG_NEWLINE`, and `regexec` is called without `REG_NOTBOL`: it
takes every offset at which the loops resume the scan for the start of a line. What is recorded is
what a search of the whole text records, as `re.findall` does, exactly when at the end of none of
its matches such a `^` changes what would be recorded of a match that starts there
(`NoFalseStarts`).
-/

set_option autoImplicit false

namespace Sky.Regex

open Base Base.Regexp

variable {A : Allocator} {b : Build} {h h0 h1 : Heap Block} {p : Addr} {str : CStr}
  {f : List UInt8 → Option Slots} {e : Regexp UInt8} {n k t t' base i j : Nat} {m : List Regmatch}
  {ms : List (Nat × Slots)} {ys : List Row} {G : Ledger Block} {grants : Nat → Bool}

/-! ## The contract of `regexec` -/

def newline (c : UInt8) : Bool := c = 10

/-- The groups of a match, from its start on. -/
abbrev Groups := List (Option (Nat × Nat))

def slot (x : Regmatch) : Option (Nat × Nat) :=
  if x.rmSo = -1 then none else some (x.rmSo.toInt.toNat, x.rmEo.toInt.toNat)

def shift (i : Nat) (g : Nat × Nat) : Nat × Nat := (i + g.1, i + g.2)

/-- `regexec` with the expression `e` finds the first match in the text, if there is one, and puts
its offsets and those of its groups into the slots. -/
def Conforms (R : Rule e Groups) (f : List UInt8 → Option Slots) (text : List UInt8) : Prop :=
  match f text with
  | some m => ∃ t i j, First R newline (LineStart newline text) text 0 t i j ∧
      m.toList.map slot = some (i, j) :: (R.report t).map (Option.map (shift i))
  | none => ∀ t i j, ¬ MatchAt newline text e t i j

/-! ## What is recorded -/

/-- The groups up to the first one that is unset. -/
def upToUnset : Groups → List (Nat × Nat)
  | some g :: gs => g :: upToUnset gs
  | _ => []

/-- What the loops record of a match: where it is, and groups of it from its start on. -/
abbrev Found := Nat × Nat × List (Nat × Nat)

def visit (v : Nat × Slots) : Found :=
  (spanStart v.1 v.2.whole, spanStop v.1 v.2.whole, (upToUnset (v.2.toList.map slot)).tail.map
    fun g => (g.1 - v.2.whole.rmSo.toInt.toNat, g.2 - v.2.whole.rmSo.toInt.toNat))

def between (str : CStr) (i j : Nat) : List UInt8 := (str.bytes.drop i).take (j - i)

/-- The strings of a match. -/
def listed (str : CStr) (v : Found) : List (List UInt8) :=
  between str v.1 v.2.1 :: v.2.2.map fun g => between str (v.1 + g.1) (v.1 + g.2)

/-- Everything recorded is a match of the whole text, and together it is all of its matches. -/
def FindsAll (R : Rule e Groups) (str : CStr) (found : List Found) : Prop :=
  (∀ v ∈ found, ∃ t, MatchAt newline str.bytes e t v.1 v.2.1 ∧ upToUnset (R.report t) = v.2.2) ∧
    FindAll (R.map upToUnset) newline str.bytes 0 found

theorem slice_eq {x : Regmatch} (hx : InText str base x) :
    slice str base x = between str (spanStart base x) (spanStop base x) := by
  obtain ⟨_, hstart, horder, _⟩ := hx
  unfold slice between spanStart spanStop
  congr 1
  omega

theorem slices_eq (hin : ∀ x ∈ leading m, InText str base x) : (leading m).map (slice str base) =
    (upToUnset (m.map slot)).map fun g => between str (base + g.1) (base + g.2) := by
  induction m with
  | nil => rfl
  | cons x m ih =>
    by_cases hx : x.rmSo = -1
    · rw [leading_cons_unset m hx, List.map_cons, slot, if_pos hx]
      rfl
    · rw [leading_cons_set m hx] at hin ⊢
      rw [List.map_cons, List.map_cons, slot, if_neg hx, upToUnset, List.map_cons,
        slice_eq (hin x List.mem_cons_self), ih fun y hy => hin y (List.mem_cons_of_mem x hy)]
      rfl

theorem upToUnset_shift (i : Nat) (gs : Groups) :
    upToUnset (gs.map (Option.map (shift i))) = (upToUnset gs).map (shift i) := by
  induction gs with
  | nil => rfl
  | cons g gs ih =>
    cases g with
    | none => rfl
    | some g => exact congrArg (shift i g :: ·) ih

/-- What is recorded of a match that `regexec` finds in the rest of the text. -/
theorem visit_eq {m : Slots} {gs : Groups} (hin : ∀ x ∈ leading m.toList, InText str base x)
    (hm : m.toList.map slot = some (i, j) :: gs.map (Option.map (shift i))) :
    m.whole.rmSo.toInt.toNat = i ∧ m.whole.rmEo.toInt.toNat = j ∧
      visit (base, m) = (base + i, base + j, upToUnset gs) ∧
      (leading m.toList).map (slice str base) = listed str (visit (base, m)) := by
  obtain ⟨hso, heo⟩ : m.whole.rmSo.toInt.toNat = i ∧ m.whole.rmEo.toInt.toNat = j := by
    have hhead := congrArg (·.head?) hm
    have hwhole : (m.toList.map slot).head? = some (slot m.whole) := by
      rw [List.head?_map, List.head?_eq_getElem?, Vector.getElem?_toList]
      rfl
    rw [hwhole, List.head?_cons] at hhead
    have hslot := Option.some.inj hhead
    unfold slot at hslot
    split at hslot
    · cases hslot
    · cases hslot
      exact ⟨rfl, rfl⟩
  have hup : upToUnset (m.toList.map slot) = (i, j) :: (upToUnset gs).map (shift i) := by
    rw [hm, upToUnset, upToUnset_shift]
  have hvisit : visit (base, m) = (base + i, base + j, upToUnset gs) := by
    unfold visit spanStart spanStop
    dsimp only
    rw [hso, heo, hup, List.tail_cons, List.map_map]
    refine congrArg (base + i, base + j, ·) (List.map_id'' (fun g => ?_) _)
    exact Prod.ext (Nat.add_sub_cancel_left ..) (Nat.add_sub_cancel_left ..)
  refine ⟨hso, heo, hvisit, ?_⟩
  rw [slices_eq hin, hup, hvisit, listed, List.map_cons, List.map_map]
  refine congrArg (between str (base + i) (base + j) :: ·) (List.map_congr_left fun g _ => ?_)
  simp only [Function.comp, shift, Nat.add_assoc]

/-! ## The scan -/

theorem scanLoop_suffixScan {R : Rule e Groups} (hr : SpansInside fun _ => f)
    (hf : ∀ p ≤ str.length, Conforms R f (str.bytes.drop p)) :
    ∀ (n k base : Nat) (ms : List (Nat × Slots)), base ≤ str.length →
      scanLoop (fun _ => f) str n k base = .ok ms →
      SuffixScan (R.map upToUnset) newline str.bytes base (ms.map visit) ∧
        texts leading str ms = (ms.map visit).flatMap (listed str)
  | 0, _, _, _, _, hms => by cases hms
  | n + 1, k, base, ms, hbase, hms => by
    have hconf := hf base hbase
    unfold Conforms at hconf
    cases hfound : f (str.bytes.drop base) with
    | none =>
      rw [scanLoop_none hfound] at hms
      cases hms
      rw [hfound] at hconf
      exact ⟨.done (no_resumed_of_drop hbase hconf), rfl⟩
    | some m =>
      obtain ⟨q, ms', hq, hrest, rfl⟩ := (scanLoop_some hfound).1 hms
      rw [hfound] at hconf
      obtain ⟨t, i, j, hfirst, hslots⟩ := hconf
      obtain ⟨hwhole, hgroups⟩ := hr k _ _ hfound
      have hin : ∀ x ∈ leading m.toList, InText str base x := by
        intro x hx
        obtain ⟨hmem, hset⟩ := mem_leading hx
        exact ⟨hbase, hgroups x hmem hset⟩
      obtain ⟨-, hj, hvisit, htexts⟩ := visit_eq hin hslots
      obtain ⟨hadv, hle⟩ := advance_inside hwhole hbase
      rw [hadv] at hq
      cases hq
      obtain ⟨hscan, hlisted⟩ := scanLoop_suffixScan hr hf n (k + 1) _ ms' hle hrest
      rw [hj] at hscan
      constructor
      · rw [List.map_cons, hvisit]
        exact .next (R := R.map upToUnset) (hfirst.map.of_drop hbase) hscan
      · rw [List.map_cons, List.flatMap_cons, ← htexts, ← hlisted]
        rfl

theorem findsAll_iff {R : Rule e Groups} (hr : SpansInside fun _ => f)
    (hf : ∀ p ≤ str.length, Conforms R f (str.bytes.drop p))
    (hscan : scanLoop (fun _ => f) str n 0 0 = .ok ms) :
    FindsAll R str (ms.map visit) ↔ NoFalseStarts (R.map upToUnset) newline str.bytes 0 := by
  obtain ⟨hsuffix, -⟩ := scanLoop_suffixScan hr hf n 0 0 ms (Nat.zero_le _) hscan
  have hall := suffixScan_findAll_iff hsuffix (noFalseStart_of_lineStart (.inl rfl))
  constructor
  · exact fun h => hall.1 h.2
  · intro hn
    have hfind := hall.2 hn
    exact ⟨hfind.matchAt, hfind⟩

/-! ## The list, whatever is refused -/

theorem Recorded.sublist (hm : Recorded grants str base t m ys G t')
    (hin : ∀ x ∈ leading m, InText str base x) :
    (ys.map Row.text).Sublist ((leading m).map (slice str base)) := by
  induction hm with
  | nil t => exact List.nil_sublist _
  | unset t m hx => exact List.nil_sublist _
  | refused m hx hg => exact List.nil_sublist _
  | orphaned m a hx hg hg' => exact List.nil_sublist _
  | @linked x t t' m y ys G hx _ _ _ ht _ ih =>
    rw [leading_cons_set m hx] at hin ⊢
    rw [List.map_cons, List.map_cons, ht (hin x List.mem_cons_self)]
    exact (ih fun z hz => hin z (List.mem_cons_of_mem _ hz)).cons_cons _

theorem Recorded.texts_eq (hm : Recorded grants str base t m ys G t')
    (hin : ∀ x ∈ leading m, InText str base x) (hall : ∀ i, grants i = true) :
    ys.map Row.text = (leading m).map (slice str base) := by
  induction hm with
  | nil t => rfl
  | unset t m hx => rw [leading_cons_unset m hx, List.map_nil, List.map_nil]
  | refused m _ hg => rw [hall] at hg; cases hg
  | orphaned m a _ _ hg' => rw [hall] at hg'; cases hg'
  | @linked x t t' m y ys G hx _ _ _ ht _ ih =>
    rw [leading_cons_set m hx] at hin ⊢
    rw [List.map_cons, List.map_cons, ht (hin x List.mem_cons_self),
      ih fun z hz => hin z (List.mem_cons_of_mem _ hz)]

theorem Parsed.sublist (hms : Parsed grants str t ms ys G t')
    (hin : ∀ v ∈ ms, ∀ x ∈ leading v.2.toList, InText str v.1 x) :
    (ys.map Row.text).Sublist (texts leading str ms) := by
  induction hms with
  | nil t => exact List.nil_sublist _
  | @cons t t1 t2 base m ms ys zs G G' hm _ ih =>
    rw [List.map_append, texts, List.flatMap_cons]
    exact (hm.sublist (hin _ List.mem_cons_self)).append
      (ih fun v hv => hin v (List.mem_cons_of_mem _ hv))

theorem Parsed.texts_eq (hms : Parsed grants str t ms ys G t')
    (hin : ∀ v ∈ ms, ∀ x ∈ leading v.2.toList, InText str v.1 x) (hall : ∀ i, grants i = true) :
    ys.map Row.text = texts leading str ms := by
  induction hms with
  | nil t => rfl
  | @cons t t1 t2 base m ms ys zs G G' hm _ ih =>
    rw [List.map_append, texts, List.flatMap_cons, hm.texts_eq (hin _ List.mem_cons_self) hall,
      ih fun v hv => hin v (List.mem_cons_of_mem _ hv)]
    rfl

/-- The rule of POSIX, with as many groups as there are slots. -/
def posixRule (e : Regexp UInt8) : Rule e Groups := posix e (groupSpans (regexMaxMatch - 1) e)

/-- `a` -/
def letterA : Regexp UInt8 := .set (· = 97)

theorem get?_letters {n i : Nat} {c : UInt8} (hc : (letters n).bytes[i]? = some c) : c = 97 :=
  (List.mem_replicate.1 (List.mem_of_getElem? hc)).2

theorem get?_letters_zero (n : Nat) : (letters (n + 1)).bytes[0]? = some 97 := rfl

theorem drop_letters (n p : Nat) : (letters n).bytes.drop p = (letters (n - p)).bytes :=
  List.drop_replicate

/-- On letters, an expression whose only match at the start of a line is the letter there is one
that matches any character. -/
theorem conforms_anyChar {u : Tree} (hm : ∀ n, MatchAt newline (letters (n + 1)).bytes e u 0 1)
    (hone : ∀ n t i j, MatchAt newline (letters n).bytes e t i j → t = u ∧ j = i + 1)
    (hu : oneSlot.toList.map slot =
      some (0, 1) :: ((posixRule e).report u).map (Option.map (shift 0))) (n p : Nat) :
    Conforms (posixRule e) (anyChar oneSlot 0) ((letters n).bytes.drop p) := by
  rw [drop_letters]
  unfold Conforms
  cases n - p with
  | zero =>
    have hnone : anyChar oneSlot 0 (letters 0).bytes = none := rfl
    rw [hnone]
    intro t i j hij
    have hlen := hij.bounds.2
    rw [(hone 0 t i j hij).2] at hlen
    exact Nat.not_succ_le_zero i hlen
  | succ n =>
    have hsome : anyChar oneSlot 0 (letters (n + 1)).bytes = some oneSlot :=
      if_neg (List.cons_ne_nil _ _)
    rw [hsome]
    refine ⟨u, 0, 1, ⟨Nat.le_refl 0, ⟨hm n, ?_⟩, fun _ i _ _ _ => Nat.zero_le i⟩, hu⟩
    intro t j ht
    rw [(hone (n + 1) t 0 j ht).1]
    exact lt_irrefl u.norms

theorem conforms_letterA (n p : Nat) :
    Conforms (posixRule letterA) (anyChar oneSlot 0) ((letters n).bytes.drop p) := by
  refine conforms_anyChar (u := .char) (fun n => .set (get?_letters_zero n) rfl)
    (fun n t i j hij => ?_) (by decide +kernel) n p
  cases hij with
  | set _ _ => exact ⟨rfl, rfl⟩

/-- `^a` -/
def lineA : Regexp UInt8 := .seq .bol letterA

theorem conforms_lineA (n p : Nat) :
    Conforms (posixRule lineA) (anyChar oneSlot 0) ((letters n).bytes.drop p) := by
  refine conforms_anyChar (u := .seq .empty .char) (fun n => .seq (.bol (Nat.zero_le _) (.inl rfl))
    (.set (get?_letters_zero n) rfl)) (fun n t i j hij => ?_) (by decide +kernel) n p
  cases hij with
  | seq hbol hset =>
    cases hbol
    cases hset
    exact ⟨rfl, rfl⟩

end Sky.Regex
