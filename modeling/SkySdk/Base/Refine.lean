import SkySdk.Base.Interleave

/-!
# Requests of several steps that look like one

`System.Refines abs Inv may`: each request of a system `S` that a party may make under `Inv` changes
what `abs` shows of the state in the step that answers it alone, and as the request of another
system `S'` does. Then a run of `S` shows a run of `S'`, by some of its actions in their order
(`Refines.runs`).
-/

set_option autoImplicit false

namespace Base

/-- The same calls with what is shown of the state. -/
def Conf.map {ι σ σ' O C A : Type} {R : O → Type} (abs : σ → σ') (t : Conf ι σ O R C A) :
    Conf ι σ' O R C A := ⟨abs t.shared, t.calls⟩

namespace System

variable {ι σ σ' O C A X G : Type} {R : O → Type} [DecidableEq ι]

structure Refines (S : System ι σ O R C A X) (S' : System ι σ' O R C A X) (abs : σ → σ')
    (Inv : σ → (ι → G) → Prop) (may : ι → C → G → O → Prop) : Prop where
  body : ∀ c, S.body c = S'.body c
  enter : ∀ i c s, abs (S.enter i c s) = S'.enter i c (abs s)
  leave : ∀ i c a s, abs (S.leave i c a s) = S'.leave i c a (abs s)
  reply : ∀ i c o x s gs s' r, may i c (gs i) o → Inv s gs → S.exec i o x s = some (s', some r) →
    S'.exec i o x (abs s) = some (abs s', some r)
  wait : ∀ i c o x s gs s', may i c (gs i) o → Inv s gs → S.exec i o x s = some (s', none) →
    abs s' = abs s

namespace Refines

variable {S : System ι σ O R C A X} {S' : System ι σ' O R C A X} {abs : σ → σ'}
  {okStart : ι → C → σ → Prop} {okExec : ι → C → O → σ → Prop} {okStart' : ι → C → σ' → Prop}
  {okExec' : ι → C → O → σ' → Prop} {Inv : σ → (ι → G) → Prop} {g0 : G} {first : ι → C → G}
  {may : ι → C → G → O → Prop} {next : ι → C → G → (o : O) → R o → G → Prop}
  {post : ι → C → G → A → Prop} {t t' : Conf ι σ O R C A}

/-- An action of `S` is one of `S'`, or does not show. -/
theorem step (F : S.Refines S' abs Inv may)
    (h : Discipline.Holds Inv g0 may next post t) {a : Act ι C X} (hs : S.step t a = some t') :
    S'.step (t.map abs) a = some (t'.map abs) ∨ t'.map abs = t.map abs := by
  obtain ⟨gs, hinv, hknows⟩ := h
  cases a with
  | start i c =>
    cases hc : t.calls i with
    | some y => simp [System.step, hc] at hs
    | none =>
      simp only [System.step, hc, Option.some.injEq] at hs
      subst hs
      left
      simp [System.step, Conf.map, hc, F.enter, F.body]
  | finish i =>
    cases hc : t.calls i with
    | none => simp [System.step, hc] at hs
    | some y =>
      obtain ⟨c, p⟩ := y
      cases p with
      | req o k => simp [System.step, hc] at hs
      | done a =>
        simp only [System.step, hc, Option.some.injEq] at hs
        subst hs
        left
        simp [System.step, Conf.map, hc, F.leave]
  | run i x =>
    cases hc : t.calls i with
    | none => simp [System.step, hc] at hs
    | some y =>
      obtain ⟨c, p⟩ := y
      cases p with
      | done a => simp [System.step, hc] at hs
      | req o k =>
        have hi := hknows i
        rw [hc] at hi
        cases he : S.exec i o x t.shared with
        | none => simp [System.step, hc, he] at hs
        | some y =>
          obtain ⟨s, r⟩ := y
          cases r with
          | none =>
            simp only [System.step, hc, he, Option.some.injEq] at hs
            subst hs
            right
            rw [Conf.map, F.wait i c o x _ gs s hi.1 hinv he]
            rfl
          | some r =>
            simp only [System.step, hc, he, Option.some.injEq] at hs
            subst hs
            left
            have he' := F.reply i c o x _ gs s r hi.1 hinv he
            simp [System.step, Conf.map, hc, he']

theorem runs (F : S.Refines S' abs Inv may)
    (D : S.Discipline okStart okExec Inv g0 first may next post)
    (hstart : ∀ i c s, okStart i c s → okStart' i c (abs s))
    (hexec : ∀ i c o s, okExec i c o s → okExec' i c o (abs s)) {as : List (Act ι C X)}
    (hr : S.Runs okStart okExec t as t') : Discipline.Holds Inv g0 may next post t →
    ∃ as', as'.Sublist as ∧ S'.Runs okStart' okExec' (t.map abs) as' (t'.map abs) := by
  induction hr with
  | nil t => exact fun _ => ⟨[], .slnil, .nil _⟩
  | cons ha hs _ ih =>
    intro h
    obtain ⟨as', hsub, hr'⟩ := ih (D.step ha hs h)
    cases F.step h hs with
    | inl hs' =>
      refine ⟨_, hsub.cons_cons _, .cons ?_ hs' hr'⟩
      rename_i t _ _ a _ _
      cases a with
      | start i c => exact hstart i c _ ha
      | run i x => exact fun c o k hc => hexec i c o _ (ha c o k hc)
      | finish i => trivial
    | inr hsame => exact ⟨as', hsub.cons _, hsame ▸ hr'⟩

end Refines

end System

end Base
