import Mathlib.Logic.Basic

/-!
# Programs over a state that may stop with a fault

`Prog σ α` is a C function seen as a state transformer: it returns a value and the state after
it, or stops with a `Fault` (undefined behaviour, a failed assertion, a loop without end, a wait
without end).
`Ends x s Q`: `x` run from `s` returns, and the value and the final state are in `Q` (total
correctness: no fault); `Returns x s Q`: if it returns, they are; `Outcome x s Q E`: if it returns,
they are, and if it stops with a fault, that is in `E`. The `ends_*` lemmas compute `Ends` of a
program from `Ends` of its parts, so that a proof about a function unfolds it and rewrites with
them.

`Steps step ok s cs s'`: the calls `cs`, each satisfying `ok` in the state before it, lead from
`s` to `s'` without a fault. `Steps.inv` packages the induction over a run.
-/

set_option autoImplicit false

namespace Base

/-- Why a program stops before it returns. -/
inductive Fault
  | badAccess
  | badFree
  | outOfBounds
  | indeterminate
  | overflow
  | aborted
  | endless
  | waiting
deriving DecidableEq, Repr

/-- A function on the state `σ` with result `α`. -/
abbrev Prog (σ α : Type) := StateT σ (Except Fault) α

/-- Stop with the fault `e`. -/
def fault {σ α : Type} (e : Fault) : Prog σ α := fun _ => .error e

/-- A computation that does not touch the state. -/
def ofResult {σ α : Type} (x : Except Fault α) : Prog σ α := fun s =>
  match x with
  | .ok a => .ok (a, s)
  | .error e => .error e

/-- `x` returns from `s`, with a value and a state in `Q`. -/
def Ends {σ α : Type} (x : Prog σ α) (s : σ) (Q : α → σ → Prop) : Prop :=
  ∃ a s', x s = .ok (a, s') ∧ Q a s'

section
variable {σ α β : Type} {s : σ} {Q : α → σ → Prop} {R : β → σ → Prop}

@[simp] theorem bind_apply (x : Prog σ α) (f : α → Prog σ β) (s : σ) :
    (x >>= f) s = match x s with
      | .ok (a, s') => f a s'
      | .error e => .error e := by
  change (Except.bind (x s) _) = _
  cases x s <;> rfl

@[simp] theorem pure_apply (a : α) (s : σ) : (pure a : Prog σ α) s = .ok (a, s) := rfl

@[simp] theorem fault_apply (e : Fault) (s : σ) : (fault e : Prog σ α) s = .error e := rfl

theorem ends_of_eq {x : Prog σ α} {a : α} {s' : σ} (h : x s = .ok (a, s')) :
    Ends x s Q ↔ Q a s' := by
  constructor
  · rintro ⟨b, t, hx, hq⟩
    rw [h] at hx
    cases hx
    exact hq
  · exact fun hq => ⟨a, s', h, hq⟩

theorem ends_of_error {x : Prog σ α} {e : Fault} (h : x s = .error e) : Ends x s Q ↔ False := by
  simp [Ends, h]

@[simp] theorem ends_pure (a : α) : Ends (pure a) s Q ↔ Q a s := ends_of_eq rfl

@[simp] theorem ends_fault (e : Fault) : Ends (fault e) s Q ↔ False := ends_of_error rfl

@[simp] theorem ends_bind (x : Prog σ α) (f : α → Prog σ β) :
    Ends (x >>= f) s R ↔ Ends x s fun a s' => Ends (f a) s' R := by
  cases hx : x s with
  | error e => simp [Ends, hx]
  | ok r =>
    rw [ends_of_eq hx]
    simp only [Ends, bind_apply, hx]

@[simp] theorem ends_ite {c : Prop} [Decidable c] (x y : Prog σ α) :
    Ends (if c then x else y) s Q ↔ (c → Ends x s Q) ∧ (¬ c → Ends y s Q) := by
  split <;> simp_all

@[simp] theorem ends_ofResult (x : Except Fault α) :
    Ends (ofResult x) s Q ↔ ∃ a, x = .ok a ∧ Q a s := by
  cases x with
  | error e => simp [Ends, ofResult]
  | ok a => rw [ends_of_eq (rfl : ofResult (.ok a) s = .ok (a, s))]; simp

theorem Ends.mono {x : Prog σ α} {Q' : α → σ → Prop} (h : Ends x s Q)
    (hq : ∀ a s', Q a s' → Q' a s') : Ends x s Q' := by
  obtain ⟨a, s', hx, ha⟩ := h
  exact ⟨a, s', hx, hq a s' ha⟩

/-- Sequencing through an intermediate assertion. -/
theorem Ends.bind {x : Prog σ α} {f : α → Prog σ β} (h : Ends x s Q)
    (k : ∀ a s', Q a s' → Ends (f a) s' R) : Ends (x >>= f) s R :=
  (ends_bind x f).2 (h.mono k)

/-- The result of a program that returns is the one in `Q`. -/
theorem Ends.result {x : Prog σ α} {a : α} {s' : σ} (h : Ends x s Q) (hx : x s = .ok (a, s')) :
    Q a s' :=
  (ends_of_eq hx).1 h

theorem Ends.apply {x : Prog σ α} {a : α} {s' : σ} (h : Ends x s fun b t => b = a ∧ t = s') :
    x s = .ok (a, s') := by
  obtain ⟨_, _, hx, rfl, rfl⟩ := h
  exact hx

/-- If `x` returns from `s`, then with a value and a state in `Q` (partial correctness). -/
def Returns {σ α : Type} (x : Prog σ α) (s : σ) (Q : α → σ → Prop) : Prop :=
  ∀ a s', x s = .ok (a, s') → Q a s'

theorem Ends.returns {x : Prog σ α} (h : Ends x s Q) : Returns x s Q := fun _ _ hx => h.result hx

theorem returns_of_error {x : Prog σ α} {e : Fault} (h : x s = .error e) : Returns x s Q := by
  intro a s' hx
  rw [h] at hx
  cases hx

/-- If `x` returns, its value and the state are in `Q`, and if it stops with a fault, that is in
`E`. -/
def Outcome {σ α : Type} (x : Prog σ α) (s : σ) (Q : α → σ → Prop) (E : Fault → Prop) : Prop :=
  Returns x s Q ∧ ∀ e, x s = .error e → E e

theorem Returns.bind {x : Prog σ α} {f : α → Prog σ β} (h : Returns x s Q)
    (k : ∀ a s', Q a s' → Returns (f a) s' R) : Returns (x >>= f) s R := by
  intro b s'' hx
  rw [bind_apply] at hx
  cases hy : x s with
  | error e =>
    rw [hy] at hx
    cases hx
  | ok r =>
    rw [hy] at hx
    exact k r.1 r.2 (h r.1 r.2 hy) b s'' hx

section
variable {E E' : Fault → Prop}

theorem Ends.outcome {x : Prog σ α} (h : Ends x s Q) : Outcome x s Q E := by
  obtain ⟨a, s', hx, ha⟩ := h
  refine ⟨fun b t hb => ?_, fun e he => ?_⟩
  · rw [hx] at hb
    cases hb
    exact ha
  · rw [hx] at he
    cases he

theorem Outcome.mono {x : Prog σ α} {Q' : α → σ → Prop} (h : Outcome x s Q E)
    (hq : ∀ a s', Q a s' → Q' a s') (he : ∀ e, E e → E' e) : Outcome x s Q' E' :=
  ⟨fun a s' hx => hq a s' (h.1 a s' hx), fun e hx => he e (h.2 e hx)⟩

theorem Outcome.bind {x : Prog σ α} {f : α → Prog σ β} (h : Outcome x s Q E)
    (k : ∀ a s', Q a s' → Outcome (f a) s' R E) : Outcome (x >>= f) s R E := by
  refine ⟨h.1.bind fun a s' ha => (k a s' ha).1, fun e hx => ?_⟩
  rw [bind_apply] at hx
  cases hy : x s with
  | error e' =>
    rw [hy] at hx
    cases hx
    exact h.2 e hy
  | ok r =>
    rw [hy] at hx
    exact (k r.1 r.2 (h.1 r.1 r.2 hy)).2 e hx

theorem Outcome.after {x : Prog σ α} {f : α → Prog σ β}
    (h : Ends x s fun a s' => Outcome (f a) s' R E) : Outcome (x >>= f) s R E :=
  h.outcome.bind fun _ _ ha => ha

theorem Outcome.pure {a : α} (h : Q a s) : Outcome (pure a) s Q E :=
  ((ends_pure a).2 h).outcome

theorem Outcome.fault {e : Fault} (h : E e) : Outcome (fault e : Prog σ α) s Q E :=
  ⟨returns_of_error rfl, fun _ he => by cases he; exact h⟩

theorem Outcome.ofResult {x : Except Fault α} (hq : ∀ a, x = .ok a → Q a s)
    (he : ∀ e, x = .error e → E e) : Outcome (ofResult x) s Q E := by
  cases x with
  | error e => exact ⟨returns_of_error rfl, fun _ hx => by cases hx; exact he e rfl⟩
  | ok a => exact ((ends_ofResult _).2 ⟨a, rfl, hq a rfl⟩).outcome

/-- A program that has come to where `y` is left to be done. -/
theorem Outcome.of_eq {x y : Prog σ α} {s' : σ} (hx : x s = y s') (h : Outcome y s' Q E) :
    Outcome x s Q E := by
  refine ⟨fun a t ha => h.1 a t ?_, fun e he => h.2 e ?_⟩
  · rw [← hx, ha]
  · rw [← hx, he]

theorem Outcome.of_error {x : Prog σ α} {e : Fault} (hx : x s = .error e) (he : E e) :
    Outcome x s Q E := by
  refine ⟨returns_of_error hx, fun e' he' => ?_⟩
  rw [hx] at he'
  cases he'
  exact he

theorem Outcome.error {x : Prog σ α} {e : Fault} (h : Outcome x s Q (· = e))
    (hq : ∀ a s', ¬ Q a s') : x s = .error e := by
  cases hx : x s with
  | error e' => exact congrArg Except.error (h.2 e' hx)
  | ok r => exact absurd (h.1 r.1 r.2 hx) (hq r.1 r.2)

theorem Outcome.ends {x : Prog σ α} (h : Outcome x s Q E) (he : ∀ e, ¬ E e) : Ends x s Q := by
  cases hx : x s with
  | error e => exact absurd (h.2 e hx) (he e)
  | ok r => exact ⟨r.1, r.2, hx, h.1 r.1 r.2 hx⟩

end

end

/-! ## Parts of a state -/

section
variable {σ τ α : Type}

/-- A program on the part of the state that `get` reads and `set` replaces. -/
def zoom (get : σ → τ) (set : τ → σ → σ) (x : Prog τ α) : Prog σ α := fun s =>
  match x (get s) with
  | .ok (a, t) => .ok (a, set t s)
  | .error e => .error e

theorem ends_zoom {get : σ → τ} {set : τ → σ → σ} {x : Prog τ α} {s : σ} {Q : α → σ → Prop} :
    Ends (zoom get set x) s Q ↔ Ends x (get s) fun a t => Q a (set t s) := by
  cases hx : x (get s) with
  | error e => rw [ends_of_error hx, ends_of_error (by unfold zoom; rw [hx])]
  | ok r => rw [ends_of_eq hx, ends_of_eq (by unfold zoom; rw [hx])]

theorem returns_zoom {get : σ → τ} {set : τ → σ → σ} {x : Prog τ α} {s : σ} {Q : α → σ → Prop}
    (h : Returns x (get s) fun a t => Q a (set t s)) : Returns (zoom get set x) s Q := by
  intro a s' hx
  unfold zoom at hx
  cases hy : x (get s) with
  | error e =>
    rw [hy] at hx
    cases hx
  | ok r =>
    rw [hy] at hx
    cases hx
    exact h r.1 r.2 hy

end

/-! ## Runs -/

section
variable {σ γ ρ : Type}

/-- The calls `cs`, each with `ok` in the state before it, lead from `s` to `s'`. -/
inductive Steps (step : γ → Prog σ ρ) (ok : σ → γ → Prop) : σ → List γ → σ → Prop
  | nil (s : σ) : Steps step ok s [] s
  | cons {s s' s'' : σ} {c : γ} {cs : List γ} {r : ρ} :
      ok s c → step c s = .ok (r, s') → Steps step ok s' cs s'' → Steps step ok s (c :: cs) s''

variable {step : γ → Prog σ ρ} {ok ok' : σ → γ → Prop}

/-- What holds at the start and is kept by every call holds after a run. -/
theorem Steps.inv {I : σ → Prop} (hI : ∀ s c r s', I s → ok s c → step c s = .ok (r, s') → I s')
    {s s' : σ} {cs : List γ} (h : Steps step ok s cs s') : I s → I s' := by
  induction h with
  | nil s => exact id
  | cons hok hs _ ih => exact fun hi => ih (hI _ _ _ _ hi hok hs)

theorem Steps.mono (hok : ∀ s c, ok s c → ok' s c) {s s' : σ} {cs : List γ}
    (h : Steps step ok s cs s') : Steps step ok' s cs s' := by
  induction h with
  | nil s => exact .nil s
  | cons h1 h2 _ ih => exact .cons (hok _ _ h1) h2 ih

theorem steps_cons {s s' s'' : σ} {c : γ} {cs : List γ} {r : ρ} (hs : step c s = .ok (r, s')) :
    Steps step ok s (c :: cs) s'' ↔ ok s c ∧ Steps step ok s' cs s'' := by
  constructor
  · intro h
    cases h with
    | cons hok hs' hrest =>
      rw [hs] at hs'
      cases hs'
      exact ⟨hok, hrest⟩
  · exact fun h => .cons h.1 hs h.2

theorem Steps.mem {s s' : σ} {cs : List γ} (h : Steps step ok s cs s') :
    Steps step (fun s c => ok s c ∧ c ∈ cs) s cs s' := by
  induction h with
  | nil s => exact .nil s
  | cons hok hs _ ih =>
    refine .cons ⟨hok, List.mem_cons_self⟩ hs (ih.mono ?_)
    intro s c hc
    exact ⟨hc.1, List.mem_cons_of_mem _ hc.2⟩

end

end Base
