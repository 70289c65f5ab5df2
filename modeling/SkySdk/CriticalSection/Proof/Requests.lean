import SkySdk.CriticalSection.Proof.Stages

/-!
# The requests keep the invariant

`Inv` says what the mutex of a section counts for each thread: how often the thread is inside, and
one more while a call that enters has the mutex but has not returned, or a call that leaves has not
unlocked it (`extra`). Each request a call may make keeps it (`Inv.reply`).
-/

set_option autoImplicit false

namespace Sky.CriticalSection

open Base

variable {ι : Type} [DecidableEq ι] {w w' : World ι} {gs : ι → Stage ι} {i j : ι} {p : Addr}
  {g' : Stage ι} {b : Build} {x : Choice} {c : Call}

/-- The stages of a call on a handle. -/
def Stage.On (g : Stage ι) (p : Addr) : Prop :=
  g = .asking p ∨ g = .got p ∨ g = .leaving p ∨ g = .left p

def extra (w : World ι) (i : ι) (g : Stage ι) (p : Addr) : Nat :=
  match g with
  | .got q => if q = p then 1 else 0
  | .leaving q => if q = p then w.owed i else 0
  | _ => 0

/-- The mutex of a section counts what its threads know. -/
def Counts (w : World ι) (gs : ι → Stage ι) (p : Addr) (v : Option (Block ι)) : Prop :=
  ∃ m, v = some { (readyBlock : Block ι) with mutex := some m } ∧
    ∀ i, m.depth i = w.inside i p + extra w i (gs i) p

structure Inv (w : World ι) (gs : ι → Stage ι) : Prop where
  own : ∀ i p b, gs i = .own p b → p ≠ 0 ∧ w.handed p = false ∧ w.blocks p = some b
  alone : ∀ i j p b b', gs i = .own p b → gs j = .own p b' → i = j
  live : ∀ p, w.handed p = true → p ≠ 0 ∧ Counts w gs p (w.blocks p)
  dead : ∀ p, w.handed p = false → ∀ i, w.inside i p = 0
  on : ∀ i p, (gs i).On p → w.handed p = true ∧ w.busy i = p
  asks : ∀ i p, gs i = .asking p → w.inside i p < lockMax
  owes : ∀ i p, gs i = .leaving p → w.owed i = 1 ∨ w.owed i = 0 ∧ w.inside i p = 0

/-! ## Steps of one call -/

/-- What a request of a call does: it changes a block and the stage of the call. -/
theorem Inv.change (h : Inv w gs) {v : Option (Block ι)}
    (hlive : w.handed p = true → Counts w (Function.update gs i g') p v)
    (hother : ∀ q, q ≠ p → extra w i g' q = extra w i (gs i) q)
    (hown : ∀ q b, g' = .own q b → q = p ∧ p ≠ 0 ∧ w.handed p = false ∧ v = some b)
    (halone : ∀ j b, j ≠ i → gs j ≠ .own p b)
    (hon : ∀ q, g'.On q → w.handed q = true ∧ w.busy i = q)
    (hasks : ∀ q, g' = .asking q → w.inside i q < lockMax)
    (howes : ∀ q, g' ≠ .leaving q) : Inv (w.setBlock p v) (Function.update gs i g') where
  own j q b hj := by
    by_cases hji : j = i
    · subst hji
      rw [Function.update_self] at hj
      obtain ⟨rfl, hp, hd, hv⟩ := hown q b hj
      exact ⟨hp, hd, (Function.update_self _ _ _).trans hv⟩
    · rw [Function.update_of_ne hji] at hj
      obtain ⟨hq, hd, hb⟩ := h.own j q b hj
      have hne : q ≠ p := fun hqp => halone j b hji (hqp ▸ hj)
      exact ⟨hq, hd, (Function.update_of_ne hne _ _).trans hb⟩
  alone j k q b b' hj hk := by
    by_cases hji : j = i
    · by_cases hki : k = i
      · exact hji.trans hki.symm
      · subst hji
        rw [Function.update_self] at hj
        rw [Function.update_of_ne hki] at hk
        exact absurd ((hown q b hj).1 ▸ hk) (halone k b' hki)
    · rw [Function.update_of_ne hji] at hj
      by_cases hki : k = i
      · subst hki
        rw [Function.update_self] at hk
        exact absurd ((hown q b' hk).1 ▸ hj) (halone j b hji)
      · rw [Function.update_of_ne hki] at hk
        exact h.alone j k q b b' hj hk
  live q hq := by
    obtain ⟨hq0, m, hb, hm⟩ := h.live q hq
    by_cases hqp : q = p
    · subst hqp
      obtain ⟨m', hv, hm'⟩ := hlive hq
      exact ⟨hq0, m', (Function.update_self _ _ _).trans hv, hm'⟩
    · refine ⟨hq0, m, (Function.update_of_ne hqp _ _).trans hb, ?_⟩
      intro j
      by_cases hji : j = i
      · subst hji
        rw [Function.update_self, hm j, ← hother q hqp]
        rfl
      · rw [Function.update_of_ne hji]
        exact hm j
  dead := h.dead
  on j q hj := by
    by_cases hji : j = i
    · subst hji
      rw [Function.update_self] at hj
      exact hon q hj
    · rw [Function.update_of_ne hji] at hj
      exact h.on j q hj
  asks j q hj := by
    by_cases hji : j = i
    · subst hji
      rw [Function.update_self] at hj
      exact hasks q hj
    · rw [Function.update_of_ne hji] at hj
      exact h.asks j q hj
  owes j q hj := by
    by_cases hji : j = i
    · subst hji
      rw [Function.update_self] at hj
      exact absurd hj (howes q)
    · rw [Function.update_of_ne hji] at hj
      exact h.owes j q hj

theorem Inv.setOwn (h : Inv w gs) (hg : gs i = .idle ∨ ∃ b, gs i = .own p b) (hp : p ≠ 0)
    (hdead : w.handed p = false) (halone : ∀ j b, j ≠ i → gs j ≠ .own p b) (b' : Block ι) :
    Inv (w.setBlock p (some b')) (Function.update gs i (.own p b')) := by
  refine h.change ?_ ?_ ?_ halone ?_ ?_ ?_
  · intro hhanded
    rw [hdead] at hhanded
    cases hhanded
  · intro q _
    cases hg with
    | inl hg => rw [hg]; rfl
    | inr hg =>
      obtain ⟨b, hg⟩ := hg
      rw [hg]
      rfl
  · intro q b hb
    cases hb
    exact ⟨rfl, hp, hdead, rfl⟩
  · intro q hq
    rcases hq with hq | hq | hq | hq <;> cases hq
  · intro q hq
    cases hq
  · intro q hq
    cases hq

theorem Inv.changeOwn (h : Inv w gs) {b : Block ι} (hg : gs i = .own p b) (b' : Block ι) :
    Inv (w.setBlock p (some b')) (Function.update gs i (.own p b')) := by
  obtain ⟨hp, hdead, -⟩ := h.own i p b hg
  exact h.setOwn (.inr ⟨b, hg⟩) hp hdead (fun j b'' hj hown => hj (h.alone j i p b'' b hown hg)) b'

theorem Inv.freeOwn (h : Inv w gs) {b : Block ι} (hg : gs i = .own p b) :
    Inv (w.setBlock p none) (Function.update gs i .idle) := by
  obtain ⟨hp, hdead, -⟩ := h.own i p b hg
  refine h.change ?_ ?_ ?_ (fun j b' hj hown => hj (h.alone j i p b' b hown hg)) ?_ ?_ ?_
  · intro hhanded
    rw [hdead] at hhanded
    cases hhanded
  · intro q _
    rw [hg]
    rfl
  · intro q b hb
    cases hb
  · intro q hq
    rcases hq with hq | hq | hq | hq <;> cases hq
  · intro q hq
    cases hq
  · intro q hq
    cases hq

/-- A call on a section changes its mutex for its own thread only. -/
theorem Inv.changeMutex (h : Inv w gs) {m m' : RecMutex ι} (hon : (gs i).On p)
    (hb : w.blocks p = some { (readyBlock : Block ι) with mutex := some m })
    (hstage : g' = .asking p ∨ g' = .got p ∨ g' = .left p)
    (hasks : g' = .asking p → w.inside i p < lockMax)
    (hself : m'.depth i + extra w i (gs i) p = m.depth i + extra w i g' p)
    (hothers : ∀ j, j ≠ i → m'.depth j = m.depth j) :
    Inv (w.setMutex p (some m')) (Function.update gs i g') := by
  obtain ⟨hhanded, hbusy⟩ := h.on i p hon
  obtain ⟨-, m0, hb0, hm⟩ := h.live p hhanded
  have hm0 : m0 = m := by
    rw [hb] at hb0
    simpa [readyBlock] using hb0.symm
  subst hm0
  refine h.change ?_ ?_ ?_ ?_ ?_ ?_ ?_
  · intro _
    refine ⟨m', by rw [hb]; rfl, ?_⟩
    intro j
    by_cases hji : j = i
    · subst hji
      have hj := hm j
      rw [Function.update_self]
      omega
    · rw [Function.update_of_ne hji, hothers j hji]
      exact hm j
  · intro q hq
    have hnone (g : Stage ι) (hg : g.On p) : extra w i g q = 0 := by
      rcases hg with rfl | rfl | rfl | rfl
      · rfl
      · exact if_neg hq.symm
      · exact if_neg hq.symm
      · rfl
    have hon' : g'.On p := by
      rcases hstage with rfl | rfl | rfl
      · exact .inl rfl
      · exact .inr (.inl rfl)
      · exact .inr (.inr (.inr rfl))
    rw [hnone _ hon, hnone _ hon']
  · intro q b hown
    rcases hstage with rfl | rfl | rfl <;> cases hown
  · intro j b _ hown
    obtain ⟨-, hdead, -⟩ := h.own j p b hown
    rw [hhanded] at hdead
    cases hdead
  · intro q hq
    have hqp : q = p := by
      rcases hstage with rfl | rfl | rfl <;> rcases hq with hq | hq | hq | hq <;> cases hq <;> rfl
    subst hqp
    exact ⟨hhanded, hbusy⟩
  · intro q hq
    have hqp : q = p := by
      rcases hstage with rfl | rfl | rfl
      · cases hq
        rfl
      · cases hq
      · cases hq
    subst hqp
    exact hasks hq
  · intro q hq
    rcases hstage with rfl | rfl | rfl <;> cases hq

/-! ## Requests -/

theorem Inv.changes (h : Inv w gs) {block : Block ι} (hg : gs i = .own p block)
    (f : Block ι → Block ι) : ∃ g, Changes (gs i) p f g ∧
      Inv (w.setBlock p (some (f block))) (Function.update gs i g) :=
  ⟨_, ⟨block, hg, rfl⟩, h.changeOwn hg (f block)⟩

theorem Inv.alloc (h : Inv w gs) {q : Addr} (hidle : gs i = .idle)
    (he : exec b i .alloc x w = some (w', some q)) :
    Inv w' (Function.update gs i (if q = 0 then .idle else .own q zeroBlock)) := by
  have hfail : Inv w (Function.update gs i .idle) := by
    rw [← hidle, Function.update_eq_self]
    exact h
  cases x with
  | succeed =>
    cases he
    exact hfail
  | fail =>
    cases he
    exact hfail
  | place p =>
    simp only [exec] at he
    cases hb : w.blocks p with
    | some block => simp [hb] at he
    | none =>
      by_cases hp : p = 0
      · subst hp
        simp [hb] at he
      · simp only [hb, if_neg hp, Option.some.injEq, Prod.mk.injEq] at he
        obtain ⟨rfl, rfl⟩ := he
        have hdead : w.handed p = false := by
          cases hd : w.handed p with
          | false => rfl
          | true =>
            obtain ⟨-, m, hm, -⟩ := h.live p hd
            rw [hb] at hm
            cases hm
        rw [if_neg hp]
        refine h.setOwn (.inl hidle) hp hdead ?_ zeroBlock
        intro j block _ hown
        obtain ⟨-, -, hj⟩ := h.own j p block hown
        rw [hb] at hj
        cases hj

/-- The mutex of a section that a call is on. -/
theorem Inv.mutex (h : Inv w gs) (hon : (gs i).On p) : ∃ m,
    w.blocks p = some { (readyBlock : Block ι) with mutex := some m } ∧ w.mutexAt p = some m ∧
      ∀ j, m.depth j = w.inside j p + extra w j (gs j) p := by
  obtain ⟨-, m, hb, hm⟩ := h.live p (h.on i p hon).1
  exact ⟨m, hb, by rw [World.mutexAt, hb]; rfl, hm⟩

theorem Inv.lock (h : Inv w gs) (hg : gs i = .asking p) {m m' : RecMutex ι} {ok : Bool}
    (hb : w.blocks p = some { (readyBlock : Block ι) with mutex := some m })
    (hm : ∀ j, m.depth j = w.inside j p + extra w j (gs j) p)
    (hl : m.lock lockMax i = some (m', ok)) :
    ok = true ∧ Inv (w.setMutex p (some m')) (Function.update gs i (.got p)) := by
  have hi := hm i
  rw [hg] at hi
  have hlimit : m.depth i < lockMax := hi ▸ h.asks i p hg
  obtain ⟨hok, hself, hothers⟩ := RecMutex.lock_depth hl hlimit
  refine ⟨hok, h.changeMutex (hg ▸ .inl rfl) hb (.inr (.inl rfl)) ?_ ?_ hothers⟩
  · intro hc
    cases hc
  · rw [hg, hself]
    simp [extra]

theorem Inv.reply (h : Inv w gs) {o : Request} {r : o.Reply} (hmay : may (gs i) o)
    (he : exec b i o x w = some (w', some r)) :
    ∃ g, next (gs i) o r g ∧ Inv w' (Function.update gs i g) := by
  cases o with
  | alloc => exact ⟨_, rfl, h.alloc hmay he⟩
  | free p =>
    obtain ⟨block, hg⟩ := hmay
    obtain ⟨-, -, hb⟩ := h.own i p block hg
    simp only [exec, hb] at he
    cases he
    exact ⟨.idle, rfl, h.freeOwn hg⟩
  | store p cs =>
    obtain ⟨block, hg⟩ := hmay
    obtain ⟨-, -, hb⟩ := h.own i p block hg
    simp only [exec, hb] at he
    cases he
    exact h.changes hg _
  | attrInit p =>
    obtain ⟨block, hg⟩ := hmay
    obtain ⟨-, -, hb⟩ := h.own i p block hg
    simp only [exec, hb, World.setAttr] at he
    cases he
    exact h.changes hg _
  | attrSettype p =>
    obtain ⟨block, hg, hattr⟩ := hmay
    obtain ⟨-, -, hb⟩ := h.own i p block hg
    obtain ⟨a, ha⟩ := Option.ne_none_iff_exists'.1 hattr
    simp only [exec, hb, World.setAttr, Option.bind_some, ha] at he
    cases he
    exact h.changes hg _
  | mutexInit p =>
    obtain ⟨block, hg, hattr⟩ := hmay
    obtain ⟨-, -, hb⟩ := h.own i p block hg
    simp only [exec, hb, World.setMutex, Option.bind_some, hattr] at he
    cases he
    exact h.changes hg _
  | mutexDestroy p =>
    obtain ⟨block, hg, hmutex⟩ := hmay
    obtain ⟨-, -, hb⟩ := h.own i p block hg
    obtain ⟨m, hm⟩ := Option.ne_none_iff_exists'.1 hmutex
    simp only [exec, World.mutexAt, World.setMutex, hb, Option.bind_some, hm] at he
    refine ⟨_, ⟨block, hg, rfl⟩, ?_⟩
    by_cases hfree : m = .free
    · subst hfree
      cases he
      dsimp only
      rw [hm, if_pos rfl]
      exact h.changeOwn hg _
    · rw [Option.map_some, if_neg hfree] at he
      cases he
      have hsame : w.setBlock p (some block) = w := by
        rw [World.setBlock, ← hb, Function.update_eq_self]
      have hne : ¬ some m = some RecMutex.free := fun hc => hfree (Option.some.inj hc)
      have hinv := h.changeOwn hg block
      rw [hsame] at hinv
      dsimp only
      rw [hm, if_neg hne, ← hm]
      exact hinv
  | attrDestroy p =>
    obtain ⟨block, hg, hattr⟩ := hmay
    obtain ⟨-, -, hb⟩ := h.own i p block hg
    obtain ⟨a, ha⟩ := Option.ne_none_iff_exists'.1 hattr
    simp only [exec, hb, World.setAttr, Option.bind_some, ha] at he
    cases he
    exact h.changes hg _
  | mutexLock p =>
    have hg : gs i = .asking p := hmay
    obtain ⟨m, hb, hat, hm⟩ := h.mutex (hg ▸ .inl rfl : (gs i).On p)
    simp only [exec, hat, Option.bind_some] at he
    cases hl : m.lock lockMax i with
    | none => simp [hl] at he
    | some y =>
      rw [hl] at he
      cases he
      exact ⟨_, rfl, (h.lock hg hb hm hl).2⟩
  | mutexUnlock p =>
    have hg : gs i = .leaving p := hmay
    obtain ⟨m, hb, hat, hm⟩ := h.mutex (hg ▸ .inr (.inr (.inl rfl)) : (gs i).On p)
    simp only [exec, hat] at he
    cases he
    obtain ⟨hself, hothers⟩ := RecMutex.unlock_depth i m
    refine ⟨_, rfl, h.changeMutex (hg ▸ .inr (.inr (.inl rfl))) hb (.inr (.inr rfl)) ?_ ?_ hothers⟩
    · intro hc
      cases hc
    · have hi := hm i
      rw [hg] at hi
      simp only [extra, if_pos] at hi
      rw [hg, hself]
      simp only [extra, if_pos]
      have ho := h.owes i p hg
      omega
  | mutexTrylock p =>
    have hg : gs i = .asking p := hmay
    obtain ⟨m, hb, hat, hm⟩ := h.mutex (hg ▸ .inl rfl : (gs i).On p)
    simp only [exec, hat] at he
    cases m.trylock_cases lockMax i with
    | inl hl =>
      obtain ⟨⟨m', ok⟩, htry⟩ : ∃ y, m.trylock lockMax i = y := ⟨_, rfl⟩
      rw [htry] at hl
      rw [Option.map_some, htry] at he
      obtain ⟨rfl, hinv⟩ := h.lock hg hb hm hl
      cases he
      exact ⟨.got p, rfl, hinv⟩
    | inr hl =>
      rw [Option.map_some, hl.2] at he
      cases he
      refine ⟨.asking p, rfl, h.changeMutex (hg ▸ .inl rfl) hb (.inl rfl) (fun _ => h.asks i p hg)
        ?_ fun _ _ => rfl⟩
      rw [hg]
  | validate p =>
    have hsame : w' = w := by
      simp only [exec] at he
      split at he
      · cases he
      · cases he
        rfl
    subst hsame
    refine ⟨gs i, rfl, ?_⟩
    rw [Function.update_eq_self]
    exact h

end Sky.CriticalSection
