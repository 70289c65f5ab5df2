import SkySdk.Regex.Defs

/-!
# The scan of a text

`sky_regex_match` and `sky_regex_parse` each have their own loop over the matches, but the two
visit the same ones: `scanLoop` is either loop with nothing done at a match but to put it on record,
with the offset at which `regexec` was called. The contract of `regexec` is `SpansInside`.
-/

set_option autoImplicit false

namespace Sky.Regex

open Base

/-- The loop over the matches, after `k` calls of `regexec`: where each match was looked for, and
what was found. -/
def scanLoop (regexec : Matcher) (str : CStr) : Nat → Nat → Nat → Except Fault (List (Nat × Slots))
  | 0, _, _ => .error .endless
  | n + 1, k, p =>
    match regexec k (str.bytes.drop p) with
    | none => .ok []
    | some m => do
      let q ← advance str p m.whole.rmEo
      let ms ← scanLoop regexec str n (k + 1) q
      pure ((p, m) :: ms)

/-- The set slots up to the first one that is not. -/
def leading (m : List Regmatch) : List Regmatch := m.takeWhile (·.rmSo ≠ -1)

/-- All the set slots. -/
def taking (m : List Regmatch) : List Regmatch := m.filter (·.rmSo ≠ -1)

/-- The characters of a slot of a match looked for at `p`. -/
def slice (str : CStr) (p : Nat) (x : Regmatch) : List UInt8 :=
  (str.bytes.drop (p + x.rmSo.toInt.toNat)).take (x.rmEo.toInt - x.rmSo.toInt).toNat

/-- What of each match `of` picks, in order. -/
def texts (of : List Regmatch → List Regmatch) (str : CStr) (ms : List (Nat × Slots)) :
    List (List UInt8) :=
  ms.flatMap fun v => (of v.2.toList).map (slice str v.1)

section
variable {x : Regmatch} (m : List Regmatch)

theorem leading_cons_set (hx : x.rmSo ≠ -1) : leading (x :: m) = x :: leading m :=
  List.takeWhile_cons_of_pos (decide_eq_true hx)

theorem leading_cons_unset (hx : x.rmSo = -1) : leading (x :: m) = [] :=
  List.takeWhile_cons_of_neg (by simpa using hx)

theorem taking_cons_set (hx : x.rmSo ≠ -1) : taking (x :: m) = x :: taking m :=
  List.filter_cons_of_pos (decide_eq_true hx)

theorem taking_cons_unset (hx : x.rmSo = -1) : taking (x :: m) = taking m :=
  List.filter_cons_of_neg (by simpa using hx)

end

/-! ## The allocations of `sky_regex_parse` -/

/-- The number of allocator calls made when the loop over the slots is left, unless the string of a
node is refused. -/
def keepsSlots (grants : Nat → Bool) : Nat → List Regmatch → Option Nat
  | t, [] => some t
  | t, x :: m =>
    if x.rmSo = -1 then some t
    else if grants t then if grants (t + 1) then keepsSlots grants (t + 2) m else none
    else some (t + 1)

/-- The number of allocator calls made after these matches, unless the string of a node is
refused. -/
def keepsScan (grants : Nat → Bool) : Nat → List (Nat × Slots) → Option Nat
  | t, [] => some t
  | t, v :: ms => (keepsSlots grants t v.2.toList).bind fun t => keepsScan grants t ms

/-! ## The contract of `regexec` -/

/-- A span of a text of `n` characters. -/
structure Regmatch.Inside (x : Regmatch) (n : Nat) : Prop where
  start : 0 ≤ x.rmSo.toInt
  order : x.rmSo.toInt ≤ x.rmEo.toInt
  stop : x.rmEo.toInt ≤ n

/-- The whole match and the groups that took part lie in the text that `regexec` is given. -/
def SpansInside (regexec : Matcher) : Prop :=
  ∀ k text m, regexec k text = some m →
    m.whole.Inside text.length ∧ ∀ x ∈ m.toList, x.rmSo ≠ -1 → x.Inside text.length

variable {regexec : Matcher} {str : CStr} {n k p q : Nat} {m : Slots} {x : Regmatch}
  {ms : List (Nat × Slots)}

theorem advance_eq {off : Int32} (hoff : off.toInt = n) (hp : p + n ≤ str.length) :
    advance str p off = .ok (p + n) := by
  have hq : 0 ≤ (p : Int) + n ∧ (p : Int) + n ≤ str.length := by omega
  unfold advance
  dsimp only
  rw [hoff, if_pos hq]
  rfl

theorem advance_inside (hx : x.Inside (str.bytes.drop p).length) (hp : p ≤ str.length) :
    advance str p x.rmEo = .ok (p + x.rmEo.toInt.toNat) ∧
      p + x.rmEo.toInt.toNat ≤ str.length := by
  obtain ⟨h0, h1, h2⟩ := hx
  rw [List.length_drop] at h2
  have hlen : str.bytes.length = str.length := rfl
  have hle : p + x.rmEo.toInt.toNat ≤ str.length := by omega
  exact ⟨advance_eq (by omega) hle, hle⟩

theorem scanLoop_none (hm : regexec k (str.bytes.drop p) = none) :
    scanLoop regexec str (n + 1) k p = .ok [] := by
  rw [scanLoop, hm]

theorem scanLoop_some (hm : regexec k (str.bytes.drop p) = some m) :
    scanLoop regexec str (n + 1) k p = .ok ms ↔ ∃ q ms', advance str p m.whole.rmEo = .ok q ∧
      scanLoop regexec str n (k + 1) q = .ok ms' ∧ ms = (p, m) :: ms' := by
  rw [scanLoop, hm]
  dsimp only
  constructor
  · intro hms
    cases hq : advance str p m.whole.rmEo with
    | error e =>
      rw [hq] at hms
      cases hms
    | ok q =>
      rw [hq, ok_bind] at hms
      cases hrest : scanLoop regexec str n (k + 1) q with
      | error e =>
        rw [hrest] at hms
        cases hms
      | ok ms' =>
        rw [hrest] at hms
        cases hms
        exact ⟨q, ms', rfl, hrest, rfl⟩
  · intro h
    obtain ⟨q, ms', hq, hrest, rfl⟩ := h
    rw [hq, ok_bind, hrest]
    rfl

/-! ## Counting -/

theorem countSlots_eq (m : List Regmatch) (c : UInt32) :
    countSlots m c = c + .ofNat (leading m).length := by
  induction m generalizing c with
  | nil => simp [countSlots, leading]
  | cons x m ih =>
    rw [countSlots]
    by_cases hx : x.rmSo = -1
    · rw [if_pos hx, leading_cons_unset m hx]
      simp
    · rw [if_neg hx, leading_cons_set m hx, ih, List.length_cons, Nat.add_comm, UInt32.ofNat_add,
        UInt32.add_assoc]
      rfl

/-- The loop of `sky_regex_match` visits the matches of the scan and counts their leading slots. -/
theorem matchLoop_eq : ∀ (n k p : Nat) (c : UInt32), matchLoop regexec str n k p c = (do
    let ms ← scanLoop regexec str n k p
    pure (c + .ofNat (texts leading str ms).length))
  | 0, _, _, _ => rfl
  | n + 1, k, p, c => by
    rw [matchLoop, scanLoop]
    cases regexec k (str.bytes.drop p) with
    | none =>
      change _ = Except.ok _
      simp [texts]
    | some m =>
      dsimp only
      cases advance str p m.whole.rmEo with
      | error e => rfl
      | ok q =>
        rw [ok_bind, ok_bind, matchLoop_eq n (k + 1) q]
        cases scanLoop regexec str n (k + 1) q with
        | error e => rfl
        | ok ms =>
          simp [countSlots_eq, texts, UInt32.ofNat_add, UInt32.add_assoc, pure, Except.pure]

/-! ## A match a character -/

/-- A group that did not take part. -/
def unset : Regmatch := ⟨-1, -1⟩

/-- The slots of a match that has these groups. -/
def slotsOf (xs : List Regmatch) : Slots := Vector.ofFn fun i => xs.getD i unset

@[simp] theorem slotsOf_whole (x : Regmatch) (xs : List Regmatch) :
    (slotsOf (x :: xs)).whole = x := by
  simp [Slots.whole, slotsOf]

theorem mem_slotsOf {xs : List Regmatch} (hx : x ∈ (slotsOf xs).toList) : x = unset ∨ x ∈ xs := by
  rw [slotsOf, Vector.toList_ofFn] at hx
  obtain ⟨i, rfl⟩ := List.mem_ofFn.1 hx
  rw [List.getD_eq_getElem?_getD]
  cases hi : xs[i.val]? with
  | none => exact .inl rfl
  | some y => exact .inr (List.mem_of_getElem? hi)

/-- `regexec` with an expression that matches any character, with the slots `m`. -/
def anyChar (m : Slots) : Matcher := fun _ text => if text = [] then none else some m

theorem spansInside_anyChar (h0 : m.whole.Inside 1)
    (hm : ∀ x ∈ m.toList, x.rmSo ≠ -1 → x.Inside 1) : SpansInside (anyChar m) := by
  intro k text m' hm'
  unfold anyChar at hm'
  split at hm'
  · cases hm'
  · cases hm'
    have hlen : 0 < text.length := List.length_pos_of_ne_nil ‹_›
    have hwide : ∀ x : Regmatch, x.Inside 1 → x.Inside text.length := by
      intro x hx
      obtain ⟨hs, ho, he⟩ := hx
      exact ⟨hs, ho, by omega⟩
    exact ⟨hwide _ h0, fun x hx hset => hwide x (hm x hx hset)⟩

/-- It takes one character after the other. -/
theorem scanLoop_anyChar (h1 : m.whole.rmEo = 1) : ∀ (n k p : Nat), p + n = str.length →
    scanLoop (anyChar m) str (n + 1) k p = .ok ((List.range' p n).map fun p => (p, m))
  | 0, k, p, hp => by
    have hnil : str.bytes.drop p = [] := List.drop_eq_nil_of_le (Nat.le_of_eq hp.symm)
    exact scanLoop_none (if_pos hnil)
  | n + 1, k, p, hp => by
    have hlen : str.bytes.length = str.length := rfl
    have hne : str.bytes.drop p ≠ [] := by
      rw [Ne, List.drop_eq_nil_iff]
      omega
    have hone : m.whole.rmEo.toInt = (1 : Nat) := by
      rw [h1]
      rfl
    have hq : advance str p m.whole.rmEo = .ok (p + 1) := advance_eq hone (by omega)
    exact (scanLoop_some (if_neg hne)).2
      ⟨p + 1, _, hq, scanLoop_anyChar h1 n (k + 1) (p + 1) (by omega), rfl⟩

end Sky.Regex
