import SkySdk.Base.Proc
import Mathlib.Logic.Function.Basic

/-!
# Programs in any interleaving

A `System` is a set of parties, each of which can start a call, whose program then runs one request
at a time among those of the others, and return from it. A request may also make progress without
being answered yet, and a party whose request has no step now waits. `System.run` runs a schedule,
and `System.Runs` are the runs whose starts and requests satisfy a condition.

`Discipline` is what makes an invariant of the shared state and of what each party knows hold in
every state of every run: the programs are `Safe`, and each request they may make keeps it
(`Runs.inv`).
-/

set_option autoImplicit false

namespace Base

/-- Parties `ι` with calls `C` that return `A`, a shared state `σ`, and the environment's choices
`X`. -/
structure System (ι σ O : Type) (R : O → Type) (C A X : Type) where
  body : C → Proc O R A
  /-- What the start of a call does to the state. -/
  enter : ι → C → σ → σ
  /-- A step of a request, with its reply if it is over; `none` where it has to wait. -/
  exec : ι → (o : O) → X → σ → Option (σ × Option (R o))
  /-- What the return from a call does to the state. -/
  leave : ι → C → A → σ → σ

/-- The shared state, and the calls that are running with what is left of their programs. -/
structure Conf (ι σ O : Type) (R : O → Type) (C A : Type) where
  shared : σ
  calls : ι → Option (C × Proc O R A)

inductive Act (ι C X : Type)
  | start (i : ι) (c : C)
  | run (i : ι) (x : X)
  | finish (i : ι)

namespace System

variable {ι σ O C A X : Type} {R : O → Type} [DecidableEq ι] (S : System ι σ O R C A X)

def idle (s : σ) : Conf ι σ O R C A := ⟨s, fun _ => none⟩

/-- One action; `none` where it cannot be taken. -/
def step (t : Conf ι σ O R C A) : Act ι C X → Option (Conf ι σ O R C A)
  | .start i c =>
    match t.calls i with
    | none => some ⟨S.enter i c t.shared, Function.update t.calls i (some (c, S.body c))⟩
    | some _ => none
  | .run i x =>
    match t.calls i with
    | some (c, .req o k) =>
      match S.exec i o x t.shared with
      | some (s, some r) => some ⟨s, Function.update t.calls i (some (c, k r))⟩
      | some (s, none) => some ⟨s, t.calls⟩
      | none => none
    | _ => none
  | .finish i =>
    match t.calls i with
    | some (c, .done a) => some ⟨S.leave i c a t.shared, Function.update t.calls i none⟩
    | _ => none

/-- The actions of a schedule in turn. -/
def run (t : Conf ι σ O R C A) : List (Act ι C X) → Option (Conf ι σ O R C A)
  | [] => some t
  | a :: as =>
    match S.step t a with
    | some t' => run t' as
    | none => none

/-- A call starts where `okStart` holds, and a request of a call is stepped where `okExec` does. -/
def Allowed (okStart : ι → C → σ → Prop) (okExec : ι → C → O → σ → Prop)
    (t : Conf ι σ O R C A) : Act ι C X → Prop
  | .start i c => okStart i c t.shared
  | .run i _ => ∀ c o k, t.calls i = some (c, .req o k) → okExec i c o t.shared
  | .finish _ => True

inductive Runs (okStart : ι → C → σ → Prop) (okExec : ι → C → O → σ → Prop) :
    Conf ι σ O R C A → List (Act ι C X) → Conf ι σ O R C A → Prop
  | nil (t : Conf ι σ O R C A) : Runs okStart okExec t [] t
  | cons {t t' t'' : Conf ι σ O R C A} {a : Act ι C X} {as : List (Act ι C X)} :
      Allowed okStart okExec t a → S.step t a = some t' → Runs okStart okExec t' as t'' →
      Runs okStart okExec t (a :: as) t''

/-- Conditions under which `Inv` of the shared state and of what the parties know, `g0` outside of a
call and `first` at its start, holds throughout. -/
structure Discipline {G : Type} (okStart : ι → C → σ → Prop) (okExec : ι → C → O → σ → Prop)
    (Inv : σ → (ι → G) → Prop) (g0 : G) (first : ι → C → G) (may : ι → C → G → O → Prop)
    (next : ι → C → G → (o : O) → R o → G → Prop) (post : ι → C → G → A → Prop) : Prop where
  safe : ∀ i c s, okStart i c s → (S.body c).Safe (may i c) (next i c) (post i c) (first i c)
  enter : ∀ i c s gs, okStart i c s → gs i = g0 → Inv s gs →
    Inv (S.enter i c s) (Function.update gs i (first i c))
  reply : ∀ i c o x s gs s' r, okExec i c o s → may i c (gs i) o → Inv s gs →
    S.exec i o x s = some (s', some r) →
    ∃ g, next i c (gs i) o r g ∧ Inv s' (Function.update gs i g)
  wait : ∀ i c o x s gs s', okExec i c o s → may i c (gs i) o → Inv s gs →
    S.exec i o x s = some (s', none) → Inv s' gs
  leave : ∀ i c a s gs, post i c (gs i) a → Inv s gs →
    Inv (S.leave i c a s) (Function.update gs i g0)

namespace Discipline

variable {S} {G : Type} {okStart : ι → C → σ → Prop} {okExec : ι → C → O → σ → Prop}
  {Inv : σ → (ι → G) → Prop} {g0 : G} {first : ι → C → G} {may : ι → C → G → O → Prop}
  {next : ι → C → G → (o : O) → R o → G → Prop} {post : ι → C → G → A → Prop}
  {t t' : Conf ι σ O R C A}

/-- What is known to a party: `g0` outside of a call, and in one that what is left of it is safe. -/
def Knows (g0 : G) (may : ι → C → G → O → Prop) (next : ι → C → G → (o : O) → R o → G → Prop)
    (post : ι → C → G → A → Prop) (i : ι) (g : G) : Option (C × Proc O R A) → Prop
  | none => g = g0
  | some (c, x) => x.Safe (may i c) (next i c) (post i c) g

/-- The invariant, and each party knows what it should. -/
def Holds (Inv : σ → (ι → G) → Prop) (g0 : G) (may : ι → C → G → O → Prop)
    (next : ι → C → G → (o : O) → R o → G → Prop) (post : ι → C → G → A → Prop)
    (t : Conf ι σ O R C A) : Prop :=
  ∃ gs, Inv t.shared gs ∧ ∀ i, Knows g0 may next post i (gs i) (t.calls i)

/-- One party goes on, the others stay where they are. -/
theorem knows_update {calls : ι → Option (C × Proc O R A)} {gs : ι → G}
    (h : ∀ i, Knows g0 may next post i (gs i) (calls i)) {i : ι} {g : G}
    {y : Option (C × Proc O R A)} (hy : Knows g0 may next post i g y) (j : ι) :
    Knows g0 may next post j (Function.update gs i g j) (Function.update calls i y j) := by
  by_cases hj : j = i
  · subst hj
    rw [Function.update_self, Function.update_self]
    exact hy
  · rw [Function.update_of_ne hj, Function.update_of_ne hj]
    exact h j

theorem step (D : S.Discipline okStart okExec Inv g0 first may next post) {a : Act ι C X}
    (ha : Allowed okStart okExec t a) (hs : S.step t a = some t')
    (h : Holds Inv g0 may next post t) : Holds Inv g0 may next post t' := by
  obtain ⟨gs, hinv, hknows⟩ := h
  cases a with
  | start i c =>
    have hi := hknows i
    cases hc : t.calls i with
    | some y => simp [System.step, hc] at hs
    | none =>
      rw [hc] at hi
      simp only [System.step, hc, Option.some.injEq] at hs
      subst hs
      have hbody : Knows g0 may next post i (first i c) (some (c, S.body c)) := D.safe i c _ ha
      exact ⟨_, D.enter i c _ gs ha hi hinv, knows_update hknows hbody⟩
  | run i x =>
    have hi := hknows i
    cases hc : t.calls i with
    | none => simp [System.step, hc] at hs
    | some y =>
      obtain ⟨c, p⟩ := y
      cases p with
      | done a => simp [System.step, hc] at hs
      | req o k =>
        rw [hc] at hi
        obtain ⟨hmay, hk⟩ := hi
        have hok : okExec i c o t.shared := ha c o k hc
        cases he : S.exec i o x t.shared with
        | none => simp [System.step, hc, he] at hs
        | some y =>
          obtain ⟨s, r⟩ := y
          cases r with
          | none =>
            simp only [System.step, hc, he, Option.some.injEq] at hs
            subst hs
            exact ⟨gs, D.wait i c o x _ gs s hok hmay hinv he, hknows⟩
          | some r =>
            simp only [System.step, hc, he, Option.some.injEq] at hs
            subst hs
            obtain ⟨g, hg, hinv'⟩ := D.reply i c o x _ gs s r hok hmay hinv he
            exact ⟨_, hinv', knows_update hknows (hk r g hg)⟩
  | finish i =>
    have hi := hknows i
    cases hc : t.calls i with
    | none => simp [System.step, hc] at hs
    | some y =>
      obtain ⟨c, p⟩ := y
      cases p with
      | req o k => simp [System.step, hc] at hs
      | done a =>
        rw [hc] at hi
        simp only [System.step, hc, Option.some.injEq] at hs
        subst hs
        exact ⟨_, D.leave i c a _ gs hi hinv, knows_update hknows rfl⟩

theorem runs (D : S.Discipline okStart okExec Inv g0 first may next post) {as : List (Act ι C X)}
    (hr : S.Runs okStart okExec t as t') :
    Holds Inv g0 may next post t → Holds Inv g0 may next post t' := by
  induction hr with
  | nil t => exact id
  | cons ha hs _ ih => exact fun h => ih (D.step ha hs h)

/-- The invariant holds in every state of a run that starts without calls. -/
theorem inv (D : S.Discipline okStart okExec Inv g0 first may next post)
    {as : List (Act ι C X)} {s : σ}
    (h0 : Inv s fun _ => g0) (hr : S.Runs okStart okExec (idle s) as t) :
    ∃ gs, Inv t.shared gs := by
  obtain ⟨gs, hinv, -⟩ := D.runs hr ⟨fun _ => g0, h0, fun _ => rfl⟩
  exact ⟨gs, hinv⟩

end Discipline

/-! ## One party alone -/

variable {S} {okStart : ι → C → σ → Prop} {okExec : ι → C → O → σ → Prop}
  {t t' t'' : Conf ι σ O R C A} {i : ι} {c : C}

theorem Runs.append {as as' : List (Act ι C X)} (h : S.Runs okStart okExec t as t')
    (h' : S.Runs okStart okExec t' as' t'') : S.Runs okStart okExec t (as ++ as') t'' := by
  induction h with
  | nil t => exact h'
  | cons ha hs _ ih => exact .cons ha hs (ih h')

theorem Runs.start {as : List (Act ι C X)} (ha : okStart i c t.shared)
    (hs : S.step t (.start i c) = some t') (h : S.Runs okStart okExec t' as t'') :
    S.Runs okStart okExec t (.start i c :: as) t'' :=
  .cons ha hs h

theorem Runs.finish {as : List (Act ι C X)} (h : S.Runs okStart okExec t as t')
    (hs : S.step t' (.finish i) = some t'') :
    S.Runs okStart okExec t (as ++ [.finish i]) t'' :=
  h.append (.cons trivial hs (.nil t''))

/-- A request stays in its call. -/
theorem step_run_calls {x : X} {p : Proc O R A} (hc : t.calls i = some (c, p))
    (hs : S.step t (.run i x) = some t') : ∃ p', t'.calls i = some (c, p') := by
  cases p with
  | done a => simp [System.step, hc] at hs
  | req o k =>
    cases he : S.exec i o x t.shared with
    | none => simp [System.step, hc, he] at hs
    | some y =>
      obtain ⟨s, r⟩ := y
      cases r with
      | none =>
        simp only [System.step, hc, he, Option.some.injEq] at hs
        subst hs
        exact ⟨_, hc⟩
      | some r =>
        simp only [System.step, hc, he, Option.some.injEq] at hs
        subst hs
        exact ⟨k r, Function.update_self _ _ _⟩

/-- A schedule of the requests of one call, all of them allowed. -/
theorem runs_of_call (hok : ∀ o s, okExec i c o s) : ∀ (xs : List X) (t t' : Conf ι σ O R C A)
    (p : Proc O R A), t.calls i = some (c, p) → S.run t (xs.map (Act.run i)) = some t' →
    S.Runs okStart okExec t (xs.map (Act.run i)) t'
  | [], t, t', _, _, h => by
    cases h
    exact .nil t
  | x :: xs, t, t', p, hc, h => by
    have hallowed : Allowed okStart okExec t (Act.run i x) := by
      intro c' o k hk
      cases hc.symm.trans hk
      exact hok o t.shared
    rw [List.map_cons, run] at h
    cases hs : S.step t (.run i x) with
    | none =>
      rw [hs] at h
      cases h
    | some t1 =>
      rw [hs] at h
      obtain ⟨p1, hc1⟩ := step_run_calls hc hs
      exact .cons hallowed hs (runs_of_call hok xs t1 t' p1 hc1 h)

/-- A schedule, where every start and every request is allowed. -/
theorem runs_of_run (hstart : ∀ i c s, okStart i c s) (hexec : ∀ i c o s, okExec i c o s) :
    ∀ (as : List (Act ι C X)) (t t' : Conf ι σ O R C A), S.run t as = some t' →
    S.Runs okStart okExec t as t'
  | [], t, t', h => by
    cases h
    exact .nil t
  | a :: as, t, t', h => by
    have hallowed : Allowed okStart okExec t a := by
      cases a with
      | start i c => exact hstart i c t.shared
      | run i x => exact fun c o k _ => hexec i c o t.shared
      | finish i => trivial
    rw [run] at h
    cases hs : S.step t a with
    | none =>
      rw [hs] at h
      cases h
    | some t1 =>
      rw [hs] at h
      exact .cons hallowed hs (runs_of_run hstart hexec as t1 t' h)

theorem run_append (as as' : List (Act ι C X)) (t : Conf ι σ O R C A) :
    S.run t (as ++ as') = (S.run t as).bind fun t' => S.run t' as' := by
  induction as generalizing t with
  | nil => rfl
  | cons a as ih =>
    rw [List.cons_append, run, run]
    cases hs : S.step t a with
    | none => rfl
    | some t' => exact ih t'

/-- A whole call without the steps of others. -/
theorem runs_call {xs : List X} (ha : okStart i c t.shared) (hok : ∀ o s, okExec i c o s)
    (hr : S.run t (.start i c :: xs.map (Act.run i) ++ [.finish i]) = some t') :
    S.Runs okStart okExec t (.start i c :: (xs.map (Act.run i) ++ [.finish i])) t' := by
  rw [List.cons_append, run] at hr
  cases hs : S.step t (.start i c) with
  | none =>
    rw [hs] at hr
    cases hr
  | some t0 =>
    rw [hs] at hr
    dsimp only at hr
    rw [run_append] at hr
    obtain ⟨t1, h1, h2⟩ := Option.bind_eq_some_iff.1 hr
    have hcall : t0.calls i = some (c, S.body c) := by
      cases hc : t.calls i with
      | none =>
        simp only [System.step, hc, Option.some.injEq] at hs
        rw [← hs]
        exact Function.update_self _ _ _
      | some y => simp [System.step, hc] at hs
    have hfinish : S.step t1 (.finish i) = some t' := by
      rw [run] at h2
      cases hf : S.step t1 (.finish i) with
      | none =>
        rw [hf] at h2
        cases h2
      | some t2 =>
        rw [hf] at h2
        exact h2
    exact .start ha hs ((runs_of_call hok xs t0 t1 _ hcall h1).finish hfinish)

end System

end Base
