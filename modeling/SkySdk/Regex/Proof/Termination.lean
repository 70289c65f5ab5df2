import SkySdk.Regex.Proof.Texts

/-!
# Whether the loops end

`p += m[ 0 ].rm_eo` is the only progress of both loops, and `regexec` answers the same text the same
way: they end exactly when no match they reach ends where it was looked for. An empty match there is
found again and again.
-/

set_option autoImplicit false

namespace Sky.Regex

open Base

variable {A : Allocator} {b : Build} {h h0 h1 : Heap Block} {F : Ledger Block} {p : Addr}
  {rows : List Row} {str : CStr} {f : List UInt8 → Option Slots} {n base : Nat} {m : Slots}
  {ms : List (Nat × Slots)}

/-- The offsets at which a loop calls `regexec`. -/
inductive Reached (f : List UInt8 → Option Slots) (str : CStr) : Nat → Prop
  | start : Reached f str 0
  | next {p : Nat} {m : Slots} (hp : Reached f str p) (hm : f (str.bytes.drop p) = some m) :
      Reached f str (p + m.whole.rmEo.toInt.toNat)

/-- At no offset that is reached does a match end where it was looked for. -/
def Advances (f : List UInt8 → Option Slots) (str : CStr) : Prop :=
  ∀ p m, Reached f str p → f (str.bytes.drop p) = some m → m.whole.rmEo ≠ 0

theorem Reached.le (hr : SpansInside fun _ => f) (hp : Reached f str base) : base ≤ str.length := by
  induction hp with
  | start => exact Nat.zero_le _
  | next _ hm ih => exact (advance_inside (hr 0 _ _ hm).1 ih).2

/-- Every round takes at least one character of what is left. -/
theorem Advances.scan (hr : SpansInside fun _ => f) (ha : Advances f str) :
    ∀ (n k p : Nat), Reached f str p → str.length - p < n →
      ∃ ms, scanLoop (fun _ => f) str n k p = .ok ms
  | 0, _, _, _, hn => absurd hn (Nat.not_lt_zero _)
  | n + 1, k, p, hp, hn => by
    cases hm : f (str.bytes.drop p) with
    | none => exact ⟨[], scanLoop_none hm⟩
    | some m =>
      have hle := hp.le hr
      obtain ⟨hspan, _⟩ := hr k _ _ hm
      obtain ⟨hq, hq'⟩ := advance_inside hspan hle
      have hpos : 0 < m.whole.rmEo.toInt.toNat := by
        have h0 : m.whole.rmEo.toInt ≠ 0 := fun h0 => ha p m hp hm (Int32.toInt_inj.1 h0)
        have hstart := hspan.start
        have horder := hspan.order
        omega
      obtain ⟨ms, hms⟩ := Advances.scan hr ha n (k + 1) _ (hp.next hm) (by omega)
      exact ⟨_, (scanLoop_some hm).2 ⟨_, ms, hq, hms, rfl⟩⟩

/-- A match that ends where it was looked for is found again. -/
theorem scanLoop_stuck (hm : f (str.bytes.drop base) = some m) (h0 : m.whole.rmEo = 0)
    (hp : base ≤ str.length) : ∀ n k, scanLoop (fun _ => f) str n k base = .error .endless
  | 0, _ => rfl
  | n + 1, k => by
    have hzero : m.whole.rmEo.toInt = (0 : Nat) := by
      rw [h0]
      rfl
    have hq : advance str base m.whole.rmEo = .ok base := advance_eq hzero hp
    rw [scanLoop, hm]
    dsimp only
    rw [hq, ok_bind, scanLoop_stuck hm h0 hp n (k + 1)]
    rfl

/-- A scan that ends goes on from every offset that is reached. -/
theorem Reached.scan (hr : SpansInside fun _ => f) (hp : Reached f str base)
    (hscan : scanLoop (fun _ => f) str n 0 0 = .ok ms) :
    ∃ n k ms, scanLoop (fun _ => f) str n k base = .ok ms := by
  induction hp with
  | start => exact ⟨n, 0, ms, hscan⟩
  | @next p m hp hm ih =>
    obtain ⟨n, k, ms, hms⟩ := ih
    cases n with
    | zero => cases hms
    | succ n =>
      obtain ⟨q, ms', hq, hrest, _⟩ := (scanLoop_some hm).1 hms
      rw [(advance_inside (hr 0 _ _ hm).1 (hp.le hr)).1] at hq
      cases hq
      exact ⟨n, k + 1, ms', hrest⟩

/-- The scan ends exactly when every match advances. -/
theorem exists_scan_iff (hr : SpansInside fun _ => f) :
    (∃ n ms, scanLoop (fun _ => f) str n 0 0 = .ok ms) ↔ Advances f str := by
  constructor
  · intro hscan p m hp hm h0
    obtain ⟨n, ms, hscan⟩ := hscan
    obtain ⟨n, k, ms, hms⟩ := hp.scan hr hscan
    rw [scanLoop_stuck hm h0 (hp.le hr)] at hms
    cases hms
  · intro ha
    exact ⟨_, ha.scan hr (str.length + 1) 0 0 .start (Nat.lt_succ_self _)⟩

/-! ## The two functions -/

theorem skyRegexMatch_ends_iff (S : Owns h p rows F) (regexec : Matcher) (n : Nat) (str : CStr) :
    Ends (skyRegexMatch b regexec n p str) h (fun _ _ => True) ↔
      ∃ ms, scanLoop regexec str n 0 0 = .ok ms := by
  unfold Ends
  rw [skyRegexMatch_eq S, matchLoop_eq]
  cases scanLoop regexec str n 0 0 with
  | error e =>
    constructor
    · intro hends
      obtain ⟨_, _, hx, _⟩ := hends
      cases hx
    · intro hms
      obtain ⟨_, hms⟩ := hms
      cases hms
  | ok ms => exact iff_of_true ⟨_, _, rfl, trivial⟩ ⟨ms, rfl⟩

/-- A scan that ends ends `skyRegexParse`, whatever the allocator does; on a span of as many
characters as an `int` counts its behaviour is not defined. -/
theorem skyRegexParse_stops (S : Owns h p rows F) {regexec : Matcher} (hr : SpansInside regexec)
    (hscan : scanLoop regexec str n 0 0 = .ok ms) :
    Ends (skyRegexParse A regexec n p str) h (fun _ _ => True) ∨
      skyRegexParse A regexec n p str h = .error .overflow ∧ 2147483647 ≤ str.length := by
  have hv := visits_of_scan hr hscan
  cases hq : skyRegexParse A regexec n p str h with
  | ok r => exact .inl ⟨r.1, r.2, hq, trivial⟩
  | error e =>
    have herr := ((skyRegexParse_outcome (A := A) S regexec n str).2 e hq ms hscan).2
    obtain ⟨rfl, v, hm, x, hx, hlong⟩ := herr fun v hm => (hv v hm).leading
    refine .inr ⟨rfl, ?_⟩
    obtain ⟨hbase, hstart, _, hstop⟩ := (hv v hm).leading x hx
    rw [List.length_drop] at hstop
    have hlen : str.bytes.length = str.length := rfl
    unfold Short at hlong
    omega

/-- After any calls: both loops end exactly when every match that they reach advances. -/
theorem loops_end_iff {cs : List Call} (hc : skyRegexCreate A true h0 = .ok (p, h1)) (hp : p ≠ 0)
    (hrun : Steps (call A b p) (fun _ _ => True) h1 cs h) (hr : SpansInside fun _ => f) :
    ((∃ n, Ends (skyRegexMatch b (fun _ => f) n p str) h fun _ _ => True) ∧
      ∃ n, Ends (skyRegexParse A (fun _ => f) n p str) h (fun _ _ => True) ∨
        skyRegexParse A (fun _ => f) n p str h = .error .overflow ∧ 2147483647 ≤ str.length) ↔
      Advances f str := by
  obtain ⟨rows, F, S⟩ := exists_owns hc hp hrun
  rw [← exists_scan_iff hr]
  constructor
  · intro hends
    obtain ⟨⟨n, hmatch⟩, _⟩ := hends
    exact ⟨n, (skyRegexMatch_ends_iff S _ n str).1 hmatch⟩
  · intro hscan
    obtain ⟨n, ms, hscan⟩ := hscan
    exact ⟨⟨n, (skyRegexMatch_ends_iff S _ n str).2 ⟨ms, hscan⟩⟩, n, skyRegexParse_stops S hr hscan⟩

theorem advances_anyChar : Advances (anyChar oneSlot 0) str := by
  intro p m _ hm
  unfold anyChar at hm
  split at hm
  · cases hm
  · obtain rfl := Option.some.inj hm
    decide

theorem loops_end_iff_oneChar : ∃ p h1 h2,
    skyRegexCreate (.bump fun _ => true) true .empty = .ok (p, h1) ∧
      Steps (call (.bump fun _ => true) ⟨0, true⟩ p) (fun _ _ => True) h1 [parseOneChar] h2 ∧
      ∃ n, Ends (skyRegexMatch ⟨0, true⟩ (anyChar oneSlot) n p oneChar) h2 fun _ _ => True := by
  obtain ⟨p, h1, h2, hc, hp, hrun, _⟩ := exists_parseOneChar ⟨0, true⟩ (fun _ => true) rfl
  exact ⟨p, h1, h2, hc, hrun,
    ((loops_end_iff (f := anyChar oneSlot 0) hc hp hrun spansInside_oneSlot).2 advances_anyChar).1⟩

/-- `regexec` with `x*` on a text without that letter: the empty match at its start. -/
def emptyMatch : List UInt8 → Option Slots := fun _ => some (slotsOf [⟨0, 0⟩])

theorem spansInside_emptyMatch : SpansInside fun _ => emptyMatch := by
  intro k text m hm
  have hinside : (⟨0, 0⟩ : Regmatch).Inside text.length :=
    ⟨by decide, by decide, Int.natCast_nonneg _⟩
  obtain rfl := Option.some.inj hm
  refine ⟨hinside, fun x hx hset => ?_⟩
  rcases mem_slotsOf hx with rfl | hx
  · exact absurd rfl hset
  · rwa [List.mem_singleton.1 hx]

/-- The empty match is found again in every round. -/
theorem loops_never_end : ∃ p h, skyRegexCreate (.bump fun _ => true) true .empty = .ok (p, h) ∧
    SpansInside (fun _ => emptyMatch) ∧ ∀ n,
      skyRegexMatch ⟨0, true⟩ (fun _ => emptyMatch) n p oneChar h = .error .endless ∧
      ¬ Ends (skyRegexParse (.bump fun _ => true) (fun _ => emptyMatch) n p oneChar) h
        fun _ _ => True := by
  obtain ⟨p, h, _, hc, _, _, S, _⟩ := exists_parseOneChar ⟨0, true⟩ (fun _ => true) rfl
  have hstuck : ∀ n, scanLoop (fun _ => emptyMatch) oneChar n 0 0 = .error .endless := fun n =>
    scanLoop_stuck (m := slotsOf [⟨0, 0⟩]) rfl rfl (Nat.zero_le _) n 0
  refine ⟨p, h, hc, spansInside_emptyMatch, fun n => ⟨?_, fun hends => ?_⟩⟩
  · rw [skyRegexMatch_eq S, matchLoop_eq, hstuck]
    rfl
  · obtain ⟨q, h', hq, _⟩ := hends
    obtain ⟨ms, _, _, hscan, _⟩ := (skyRegexParse_outcome S _ n oneChar).1 q h' hq
    rw [hstuck] at hscan
    cases hscan

end Sky.Regex
