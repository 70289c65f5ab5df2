import SkySdk.CriticalSection.Proof.Requests

/-!
# No two threads are inside of one section

In any run in which the threads use the handles as they should (`InTurn`), no two of them are inside
of one section (`sections_exclude`).
-/

set_option autoImplicit false

namespace Sky.CriticalSection

open Base

variable {ι : Type} [DecidableEq ι] {w w' : World ι} {gs : ι → Stage ι} {i j : ι} {p : Addr}
  {g' : Stage ι} {b : Build} {c : Call}

/-! ## Calls start and return -/

theorem Inv.turn (h : Inv w gs) (hblocks : w'.blocks = w.blocks) (hhanded : w'.handed = w.handed)
    (hothers : ∀ j, j ≠ i →
      w'.inside j = w.inside j ∧ w'.busy j = w.busy j ∧ w'.owed j = w.owed j)
    (hsame : ∀ q, w'.inside i q + extra w' i g' q = w.inside i q + extra w i (gs i) q)
    (hdead : ∀ q, w.handed q = false → w'.inside i q = 0)
    (hown : ∀ q block, g' ≠ .own q block)
    (hon : ∀ q, g'.On q → w.handed q = true ∧ w'.busy i = q)
    (hasks : ∀ q, g' = .asking q → w'.inside i q < lockMax)
    (howes : ∀ q, g' = .leaving q → w'.owed i = 1 ∨ w'.owed i = 0 ∧ w'.inside i q = 0) :
    Inv w' (Function.update gs i g') where
  own j q block hj := by
    by_cases hji : j = i
    · subst hji
      rw [Function.update_self] at hj
      exact absurd hj (hown q block)
    · rw [Function.update_of_ne hji] at hj
      rw [hblocks, hhanded]
      exact h.own j q block hj
  alone j k q block block' hj hk := by
    have hold (l : ι) (b : Block ι) (hl : Function.update gs i g' l = .own q b) :
        gs l = .own q b := by
      by_cases hli : l = i
      · subst hli
        rw [Function.update_self] at hl
        exact absurd hl (hown q b)
      · rwa [Function.update_of_ne hli] at hl
    exact h.alone j k q block block' (hold j block hj) (hold k block' hk)
  live q hq := by
    rw [hhanded] at hq
    obtain ⟨hq0, m, hb, hm⟩ := h.live q hq
    refine ⟨hq0, m, hblocks ▸ hb, ?_⟩
    intro j
    by_cases hji : j = i
    · subst hji
      rw [Function.update_self, hsame, hm j]
    · obtain ⟨hinside, -, howed⟩ := hothers j hji
      rw [Function.update_of_ne hji, hm j, hinside]
      unfold extra
      rw [howed]
  dead q hq j := by
    rw [hhanded] at hq
    by_cases hji : j = i
    · subst hji
      exact hdead q hq
    · rw [(hothers j hji).1]
      exact h.dead q hq j
  on j q hj := by
    rw [hhanded]
    by_cases hji : j = i
    · subst hji
      rw [Function.update_self] at hj
      exact hon q hj
    · rw [Function.update_of_ne hji] at hj
      rw [(hothers j hji).2.1]
      exact h.on j q hj
  asks j q hj := by
    by_cases hji : j = i
    · subst hji
      rw [Function.update_self] at hj
      exact hasks q hj
    · rw [Function.update_of_ne hji] at hj
      rw [(hothers j hji).1]
      exact h.asks j q hj
  owes j q hj := by
    by_cases hji : j = i
    · subst hji
      rw [Function.update_self] at hj
      exact howes q hj
    · rw [Function.update_of_ne hji] at hj
      rw [(hothers j hji).1, (hothers j hji).2.2]
      exact h.owes j q hj

theorem busy_setBusy (q : Addr) : (w.setBusy i q).busy i = q := Function.update_self _ _ _

theorem inside_setInside (n : Nat) : (w.setInside i p n).inside i p = n := by
  simp [World.setInside]

theorem inside_setInside_of_ne {q : Addr} (hq : q ≠ p) (n : Nat) :
    (w.setInside i p n).inside i q = w.inside i q := by
  simp [World.setInside, hq]

/-- A call of a thread ends without an entry. -/
theorem Inv.giveUp (h : Inv w gs) (hg : ∀ q, extra w i (gs i) q = 0) :
    Inv (w.setBusy i 0) (Function.update gs i .idle) := by
  refine h.turn rfl rfl ?_ ?_ (fun q hq => h.dead q hq i) ?_ ?_ ?_ ?_
  · intro j hj
    exact ⟨rfl, Function.update_of_ne hj _ _, rfl⟩
  · intro q
    rw [hg q]
    rfl
  · intro q block hc
    cases hc
  · intro q hc
    rcases hc with hc | hc | hc | hc <;> cases hc
  · intro q hc
    cases hc
  · intro q hc
    cases hc

/-- A call returns, and its thread is inside. -/
theorem Inv.goIn (h : Inv w gs) (hg : gs i = .got p) :
    Inv ((w.setInside i p (w.inside i p + 1)).setBusy i 0) (Function.update gs i .idle) := by
  have hhanded := (h.on i p (hg ▸ .inr (.inl rfl))).1
  refine h.turn rfl rfl ?_ ?_ ?_ ?_ ?_ ?_ ?_
  · intro j hj
    exact ⟨Function.update_of_ne hj _ _, Function.update_of_ne hj _ _, rfl⟩
  · intro q
    rw [hg]
    by_cases hq : q = p
    · subst hq
      simp [extra, World.setBusy, inside_setInside]
    · simp [extra, World.setBusy, inside_setInside_of_ne hq, Ne.symm hq]
  · intro q hq
    have hne : q ≠ p := by
      intro hc
      rw [hc, hhanded] at hq
      cases hq
    exact (inside_setInside_of_ne hne _).trans (h.dead q hq i)
  · intro q block hc
    cases hc
  · intro q hc
    rcases hc with hc | hc | hc | hc <;> cases hc
  · intro q hc
    cases hc
  · intro q hc
    cases hc

theorem Inv.ask (h : Inv w gs) (hg : gs i = .idle) (hhanded : w.handed p = true)
    (hlimit : w.inside i p < lockMax) :
    Inv (w.setBusy i p) (Function.update gs i (.asking p)) := by
  refine h.turn rfl rfl ?_ ?_ (fun q hq => h.dead q hq i) ?_ ?_ ?_ ?_
  · intro j hj
    exact ⟨rfl, Function.update_of_ne hj _ _, rfl⟩
  · intro q
    rw [hg]
    rfl
  · intro q block hc
    cases hc
  · intro q hc
    rcases hc with hc | hc | hc | hc <;> cases hc
    exact ⟨hhanded, busy_setBusy _⟩
  · intro q hc
    cases hc
    exact hlimit
  · intro q hc
    cases hc

theorem Inv.goOut (h : Inv w gs) (hg : gs i = .idle) (hhanded : w.handed p = true) :
    Inv (((w.setInside i p (w.inside i p - 1)).setOwed i (min (w.inside i p) 1)).setBusy i p)
      (Function.update gs i (.leaving p)) := by
  refine h.turn rfl rfl ?_ ?_ ?_ ?_ ?_ ?_ ?_
  · intro j hj
    exact ⟨Function.update_of_ne hj _ _, Function.update_of_ne hj _ _,
      Function.update_of_ne hj _ _⟩
  · intro q
    rw [hg]
    by_cases hq : q = p
    · subst hq
      simp only [extra, World.setBusy, World.setOwed, inside_setInside, Function.update_self,
        if_pos]
      omega
    · simp [extra, World.setBusy, World.setOwed, inside_setInside_of_ne hq, Ne.symm hq]
  · intro q hq
    have hne : q ≠ p := by
      intro hc
      rw [hc, hhanded] at hq
      cases hq
    exact (inside_setInside_of_ne hne _).trans (h.dead q hq i)
  · intro q block hc
    cases hc
  · intro q hc
    rcases hc with hc | hc | hc | hc <;> cases hc
    exact ⟨hhanded, busy_setBusy _⟩
  · intro q hc
    cases hc
  · intro q hc
    cases hc
    simp only [World.setBusy, World.setOwed, inside_setInside, Function.update_self]
    omega

omit [DecidableEq ι] in
theorem extra_eq_zero {g : Stage ι} (hg : ¬ g.On p) : extra w i g p = 0 := by
  cases g with
  | idle => rfl
  | own q block => rfl
  | asking q => rfl
  | got q => exact if_neg fun hq => hg (.inr (.inl (congrArg Stage.got hq)))
  | leaving q => exact if_neg fun hq => hg (.inr (.inr (.inl (congrArg Stage.leaving hq))))
  | left q => rfl

/-- A call passes a block between the callers and itself alone. -/
theorem Inv.pass (h : Inv w gs) (hoff : ∀ j, ¬ (gs j).On p) (hmine : ∀ j, j ≠ i → ∀ block,
    gs j ≠ .own p block) (hout : ∀ j, w.inside j p = 0) (hb : w.blocks p = some readyBlock)
    (hp : p ≠ 0) {r : Bool} (hg : gs i = if r then .own p readyBlock else .idle)
    (hg' : g' = if r then .idle else .own p readyBlock) :
    Inv (w.setHanded p r) (Function.update gs i g') where
  own j q block hj := by
    by_cases hji : j = i
    · subst hji
      rw [Function.update_self, hg'] at hj
      cases r with
      | true => cases hj
      | false =>
        cases hj
        exact ⟨hp, Function.update_self _ _ _, hb⟩
    · rw [Function.update_of_ne hji] at hj
      obtain ⟨hq, hdead, hblock⟩ := h.own j q block hj
      have hne : q ≠ p := fun hc => hmine j hji block (hc ▸ hj)
      exact ⟨hq, (Function.update_of_ne hne _ _).trans hdead, hblock⟩
  alone j k q block block' hj hk := by
    by_cases hji : j = i
    · by_cases hki : k = i
      · exact hji.trans hki.symm
      · subst hji
        rw [Function.update_self, hg'] at hj
        rw [Function.update_of_ne hki] at hk
        cases r with
        | true => cases hj
        | false =>
          cases hj
          exact absurd hk (hmine k hki block')
    · rw [Function.update_of_ne hji] at hj
      by_cases hki : k = i
      · subst hki
        rw [Function.update_self, hg'] at hk
        cases r with
        | true => cases hk
        | false =>
          cases hk
          exact absurd hj (hmine j hji block)
      · rw [Function.update_of_ne hki] at hk
        exact h.alone j k q block block' hj hk
  live q hq := by
    have hcount (j : ι) : extra w j (Function.update gs i g' j) q = extra w j (gs j) q := by
      by_cases hji : j = i
      · subst hji
        rw [Function.update_self, hg, hg']
        cases r <;> rfl
      · rw [Function.update_of_ne hji]
    by_cases hqp : q = p
    · subst hqp
      refine ⟨hp, .free, hb, ?_⟩
      intro j
      exact (congrArg₂ (· + ·) (hout j) ((hcount j).trans (extra_eq_zero (hoff j)))).symm
    · obtain ⟨hq0, m, hblock, hm⟩ := h.live q ((Function.update_of_ne hqp _ _).symm.trans hq)
      refine ⟨hq0, m, hblock, ?_⟩
      intro j
      exact (hm j).trans (congrArg (w.inside j q + ·) (hcount j).symm)
  dead q hq j := by
    by_cases hqp : q = p
    · subst hqp
      exact hout j
    · exact h.dead q ((Function.update_of_ne hqp _ _).symm.trans hq) j
  on j q hj := by
    have hji : j ≠ i := by
      intro hc
      subst hc
      rw [Function.update_self, hg'] at hj
      cases r <;> rcases hj with hj | hj | hj | hj <;> cases hj
    rw [Function.update_of_ne hji] at hj
    obtain ⟨hhanded, hbusy⟩ := h.on j q hj
    have hqp : q ≠ p := fun hc => hoff j (hc ▸ hj)
    exact ⟨(Function.update_of_ne hqp _ _).trans hhanded, hbusy⟩
  asks j q hj := by
    by_cases hji : j = i
    · subst hji
      rw [Function.update_self, hg'] at hj
      cases r <;> cases hj
    · rw [Function.update_of_ne hji] at hj
      exact h.asks j q hj
  owes j q hj := by
    by_cases hji : j = i
    · subst hji
      rw [Function.update_self, hg'] at hj
      cases r <;> cases hj
    · rw [Function.update_of_ne hji] at hj
      exact h.owes j q hj

theorem Inv.takeBack (h : Inv w gs) (hg : gs i = .idle) (hhanded : w.handed p = true)
    (hout : ∀ j, w.inside j p = 0 ∧ w.busy j ≠ p) :
    Inv (w.setHanded p false) (Function.update gs i (.own p readyBlock)) := by
  obtain ⟨hp, m, hb, hm⟩ := h.live p hhanded
  have hoff (j : ι) : ¬ (gs j).On p := fun hc => (hout j).2 (h.on j p hc).2
  have hfree : m = .free := by
    refine RecMutex.free_of_depth ?_
    intro j
    rw [hm j, (hout j).1, extra_eq_zero (hoff j)]
  subst hfree
  refine h.pass hoff ?_ (fun j => (hout j).1) hb hp hg rfl
  intro j _ block hown
  obtain ⟨-, hdead, -⟩ := h.own j p block hown
  rw [hhanded] at hdead
  cases hdead

theorem Inv.handOut (h : Inv w gs) (hg : gs i = .own p readyBlock) :
    Inv (w.setHanded p true) (Function.update gs i .idle) := by
  obtain ⟨hp, hdead, hb⟩ := h.own i p readyBlock hg
  refine h.pass ?_ ?_ (h.dead p hdead) hb hp hg rfl
  · intro j hc
    rw [(h.on j p hc).1] at hdead
    cases hdead
  · intro j hj block hown
    exact hj (h.alone j i p block readyBlock hown hg)

theorem Inv.takeUp (h : Inv w gs) (hg : gs i = .idle) (hc : InTurn i c w) :
    Inv (takeUp i c w) (Function.update gs i (firstStage c)) := by
  unfold CriticalSection.takeUp firstStage
  by_cases hz : c.handle = 0
  · rw [if_pos hz, if_pos hz, ← hg, Function.update_eq_self]
    exact h
  · rw [if_neg hz, if_neg hz]
    obtain ⟨hhanded, hok⟩ := hc.resolve_left hz
    cases c with
    | create => exact absurd rfl hz
    | destroy p => exact h.takeBack hg hhanded hok
    | enter p => exact h.ask hg hhanded hok
    | leave p => exact h.goOut hg hhanded
    | tryEnter p => exact h.ask hg hhanded hok

theorem Inv.putDown (h : Inv w gs) {r : Resp} (hp : post c (gs i) r) :
    Inv (putDown i c r w) (Function.update gs i .idle) := by
  have hstay (hg : gs i = .idle) : Inv w (Function.update gs i .idle) := by
    rw [← hg, Function.update_eq_self]
    exact h
  cases c with
  | create =>
    cases r with
    | handle p =>
      by_cases hz : p = 0
      · simp only [post, if_pos hz] at hp
        simp only [CriticalSection.putDown, if_pos hz]
        exact hstay hp
      · simp only [post, if_neg hz] at hp
        simp only [CriticalSection.putDown, if_neg hz]
        exact h.handOut hp
    | entered r => exact hp.elim
    | done => exact hp.elim
  | destroy p => exact h.giveUp fun q => by rw [show gs i = .idle from hp]; rfl
  | enter p =>
    by_cases hz : p = 0
    · simp only [post, if_pos hz] at hp
      simp only [CriticalSection.putDown, if_pos hz]
      exact hstay hp
    · simp only [post, if_neg hz] at hp
      simp only [CriticalSection.putDown, if_neg hz]
      exact h.goIn hp
  | leave p =>
    refine h.giveUp ?_
    intro q
    by_cases hz : p = 0
    · simp only [post, if_pos hz] at hp
      rw [hp]
      rfl
    · simp only [post, if_neg hz] at hp
      rw [hp]
      rfl
  | tryEnter p =>
    cases r with
    | handle q => exact hp.elim
    | done => exact hp.elim
    | entered r =>
      by_cases hz : p = 0
      · simp only [post, if_pos hz] at hp
        simp only [CriticalSection.putDown, if_pos hz]
        exact hstay hp
      · simp only [post, if_neg hz] at hp
        simp only [CriticalSection.putDown, if_neg hz]
        cases r with
        | true => exact h.goIn hp
        | false => exact h.giveUp fun q => by rw [hp]; rfl

/-- A request is answered in one step. -/
theorem exec_ne_wait {o : Request} {x : Choice} : exec b i o x w ≠ some (w', none) := by
  intro he
  cases o with
  | alloc =>
    cases x with
    | succeed => cases he
    | fail => cases he
    | place p =>
      simp only [exec] at he
      split at he
      · split at he <;> cases he
      · cases he
  | mutexInit p =>
    simp only [exec] at he
    split at he <;> cases he
  | mutexDestroy p =>
    obtain ⟨m, -, hm⟩ := Option.map_eq_some_iff.1 he
    split at hm <;> cases hm
  | validate p =>
    simp only [exec] at he
    split at he <;> cases he
  | free p =>
    obtain ⟨_, -, hm⟩ := Option.map_eq_some_iff.1 he
    cases hm
  | store p cs =>
    obtain ⟨_, -, hm⟩ := Option.map_eq_some_iff.1 he
    cases hm
  | attrInit p =>
    obtain ⟨_, -, hm⟩ := Option.map_eq_some_iff.1 he
    cases hm
  | attrSettype p =>
    obtain ⟨_, -, hm⟩ := Option.map_eq_some_iff.1 he
    cases hm
  | attrDestroy p =>
    obtain ⟨_, -, hm⟩ := Option.map_eq_some_iff.1 he
    cases hm
  | mutexLock p =>
    obtain ⟨_, -, hm⟩ := Option.map_eq_some_iff.1 he
    cases hm
  | mutexUnlock p =>
    obtain ⟨_, -, hm⟩ := Option.map_eq_some_iff.1 he
    cases hm
  | mutexTrylock p =>
    obtain ⟨_, -, hm⟩ := Option.map_eq_some_iff.1 he
    cases hm

/-- For runs in which the threads use the handles as they should. -/
theorem discipline : (threads ι b).Discipline InTurn (fun _ _ _ _ => True) Inv .idle
    (fun _ => firstStage) (fun _ _ => may) (fun _ _ => next) (fun _ => post) where
  safe _ c _ _ := call_safe c
  enter _ _ _ _ hc hg h := h.takeUp hg hc
  reply _ _ _ _ _ _ _ _ _ hm h he := h.reply hm he
  wait _ _ _ _ _ _ _ _ _ _ he := absurd he exec_ne_wait
  leave _ _ _ _ _ hp h := h.putDown hp

theorem Inv.start : Inv (World.start ι) fun _ => .idle where
  own _ _ _ hown := by cases hown
  alone _ _ _ _ _ hown := by cases hown
  live _ hhanded := by cases hhanded
  dead _ _ _ := rfl
  on i p hon := by rcases hon with hon | hon | hon | hon <;> cases hon
  asks _ _ hask := by cases hask
  owes _ _ howe := by cases howe

/-- The struct of a handle that the callers have. -/
theorem run_typed {as : List (Act ι Call Choice)}
    {t : Conf ι (World ι) Request Request.Reply Call Resp} {block : Block ι}
    (hr : (threads ι b).Runs InTurn (fun _ _ _ _ => True) (System.idle (World.start ι)) as t)
    (hp : t.shared.handed p = true) (hb : t.shared.blocks p = some block) :
    block.header.type = SkyHandleType.criticalSection.code := by
  obtain ⟨gs, h⟩ := discipline.inv Inv.start hr
  obtain ⟨-, m, hm, -⟩ := h.live p hp
  rw [hb] at hm
  cases hm
  rfl

/-- In any run in which the threads use the handles as they should, no two of them are inside of one
section. -/
theorem sections_exclude {as : List (Act ι Call Choice)}
    {t : Conf ι (World ι) Request Request.Reply Call Resp}
    (hr : (threads ι b).Runs InTurn (fun _ _ _ _ => True) (System.idle (World.start ι)) as t) :
    Excludes t.shared := by
  obtain ⟨gs, h⟩ := discipline.inv Inv.start hr
  intro i j p hij
  cases hp : t.shared.handed p with
  | false => exact .inl (h.dead p hp i)
  | true =>
    obtain ⟨-, m, -, hm⟩ := h.live p hp
    have hi := hm i
    have hj := hm j
    cases m.depth_exclusive hij with
    | inl h0 => exact .inl (by omega)
    | inr h0 => exact .inr (by omega)

/-! ## Runs -/

/-- A call of thread `i`, with the environment's choices. -/
def calls (i : ι) (c : Call) (xs : List Choice) : List (Act ι Call Choice) :=
  .start i c :: xs.map (Act.run i) ++ [.finish i]

abbrev twoThreads : System Bool (World Bool) Request Request.Reply Call Resp Choice :=
  threads Bool ⟨0, false⟩

abbrev RunsInTurn : Conf Bool (World Bool) Request Request.Reply Call Resp →
    List (Act Bool Call Choice) → Conf Bool (World Bool) Request Request.Reply Call Resp → Prop :=
  twoThreads.Runs InTurn fun _ _ _ _ => True

def createAt8 (i : ι) : List (Act ι Call Choice) :=
  calls i .create (.place 8 :: List.replicate 4 .succeed)

def enterAt8 (i : ι) : List (Act ι Call Choice) := calls i (.enter 8) [.succeed, .succeed]

/-- A run in which a thread is inside twice and another one tries to enter. -/
theorem sections_exclude_try : ∃ as t, RunsInTurn (System.idle (World.start Bool)) as t ∧
    t.shared.inside false 8 = 2 ∧ Excludes t.shared := by
  obtain ⟨t1, hcreate, h1, t2, henter, h2, t3, hagain, h3, t4, htry, hin⟩ :
      ∃ t1, twoThreads.run (System.idle (World.start Bool)) (createAt8 false) = some t1 ∧
        InTurn false (.enter 8) t1.shared ∧
      ∃ t2, twoThreads.run t1 (enterAt8 false) = some t2 ∧ InTurn false (.enter 8) t2.shared ∧
      ∃ t3, twoThreads.run t2 (enterAt8 false) = some t3 ∧ InTurn true (.tryEnter 8) t3.shared ∧
      ∃ t4, twoThreads.run t3 (calls true (.tryEnter 8) [.succeed, .succeed]) = some t4 ∧
        t4.shared.inside false 8 = 2 :=
    ⟨_, rfl, .inr ⟨rfl, by decide⟩, _, rfl, .inr ⟨rfl, by decide⟩, _, rfl,
      .inr ⟨rfl, by decide⟩, _, rfl, rfl⟩
  have hcreate : RunsInTurn _ _ t1 := System.runs_call (.inl rfl) (fun _ _ => trivial) hcreate
  have henter : RunsInTurn t1 _ t2 := System.runs_call h1 (fun _ _ => trivial) henter
  have hagain : RunsInTurn t2 _ t3 := System.runs_call h2 (fun _ _ => trivial) hagain
  have htry : RunsInTurn t3 _ t4 := System.runs_call h3 (fun _ _ => trivial) htry
  have hruns := hcreate.append (henter.append (hagain.append htry))
  exact ⟨_, t4, hruns, hin, sections_exclude hruns⟩

end Sky.CriticalSection
