import SkySdk.CriticalSection.Proof.Exclusion

/-!
# Who waits for whom

A call waits in `sky_critical_section_enter` alone, for another thread that is inside of the section
or whose call on it can go on (`progress`); a thread that is inside itself does not wait.
-/

set_option autoImplicit false

namespace Sky.CriticalSection

open Base

variable {ι : Type} [DecidableEq ι] {w w' : World ι} {gs : ι → Stage ι} {i j : ι} {p : Addr}
  {b : Build} {o : Request} {t : Conf ι (World ι) Request Request.Reply Call Resp}

/-- The call of a thread can make a request or return. -/
def CanStep (b : Build) (t : Conf ι (World ι) Request Request.Reply Call Resp) (i : ι) : Prop :=
  (∃ x, (threads ι b).step t (.run i x) ≠ none) ∨ (threads ι b).step t (.finish i) ≠ none

theorem exec_validate {block : Block ι} (hb : w.blocks p = some block)
    (htype : block.header.type = SkyHandleType.criticalSection.code) :
    exec b i (.validate p) .succeed w = some (w, some ()) := by
  simp [exec, hb, htype]

/-- A request that a call may make has an answer, unless it waits or aborts. -/
theorem Inv.answered (h : Inv w gs) (hmay : may (gs i) o) :
    (∃ x w' r, exec b i o x w = some (w', some r)) ∨
      (o = .validate 0 ∧ b.assertAborts = true) ∨
      ∃ p m, o = .mutexLock p ∧ gs i = .asking p ∧ w.mutexAt p = some m ∧
        m.lock lockMax i = none := by
  cases o with
  | alloc => exact .inl ⟨.fail, _, _, rfl⟩
  | free p =>
    obtain ⟨block, hg⟩ := hmay
    obtain ⟨-, -, hb⟩ := h.own i p block hg
    exact .inl ⟨.succeed, _, _, by rw [exec, hb]; rfl⟩
  | store p cs =>
    obtain ⟨block, hg⟩ := hmay
    obtain ⟨-, -, hb⟩ := h.own i p block hg
    exact .inl ⟨.succeed, _, _, by rw [exec, hb]; rfl⟩
  | attrInit p =>
    obtain ⟨block, hg⟩ := hmay
    obtain ⟨-, -, hb⟩ := h.own i p block hg
    exact .inl ⟨.succeed, _, _, by rw [exec, hb]; rfl⟩
  | attrSettype p =>
    obtain ⟨block, hg, hattr⟩ := hmay
    obtain ⟨-, -, hb⟩ := h.own i p block hg
    obtain ⟨a, ha⟩ := Option.ne_none_iff_exists'.1 hattr
    exact .inl ⟨.succeed, _, _, by rw [exec, hb, Option.bind_some, ha]; rfl⟩
  | mutexInit p =>
    obtain ⟨block, hg, hattr⟩ := hmay
    obtain ⟨-, -, hb⟩ := h.own i p block hg
    exact .inl ⟨.succeed, _, _, by simp only [exec, hb, Option.bind_some, hattr]; rfl⟩
  | mutexDestroy p =>
    obtain ⟨block, hg, hmutex⟩ := hmay
    obtain ⟨-, -, hb⟩ := h.own i p block hg
    obtain ⟨m, hm⟩ := Option.ne_none_iff_exists'.1 hmutex
    have hat : w.mutexAt p = some m := by rw [World.mutexAt, hb, Option.bind_some, hm]
    by_cases hfree : m = .free
    · exact .inl ⟨.succeed, _, _, by rw [exec, hat, Option.map_some, if_pos hfree]⟩
    · exact .inl ⟨.succeed, _, _, by rw [exec, hat, Option.map_some, if_neg hfree]⟩
  | attrDestroy p =>
    obtain ⟨block, hg, hattr⟩ := hmay
    obtain ⟨-, -, hb⟩ := h.own i p block hg
    obtain ⟨a, ha⟩ := Option.ne_none_iff_exists'.1 hattr
    exact .inl ⟨.succeed, _, _, by rw [exec, hb, Option.bind_some, ha]; rfl⟩
  | mutexLock p =>
    have hg : gs i = .asking p := hmay
    obtain ⟨m, -, hat, -⟩ := h.mutex (hg ▸ .inl rfl : (gs i).On p)
    cases hl : m.lock lockMax i with
    | none => exact .inr (.inr ⟨p, m, rfl, hg, hat, hl⟩)
    | some y => exact .inl ⟨.succeed, _, _, by rw [exec, hat, Option.bind_some, hl]; rfl⟩
  | mutexUnlock p =>
    have hg : gs i = .leaving p := hmay
    obtain ⟨m, -, hat, -⟩ := h.mutex (hg ▸ .inr (.inr (.inl rfl)) : (gs i).On p)
    exact .inl ⟨.succeed, _, _, by rw [exec, hat]; rfl⟩
  | mutexTrylock p =>
    have hg : gs i = .asking p := hmay
    obtain ⟨m, -, hat, -⟩ := h.mutex (hg ▸ .inl rfl : (gs i).On p)
    exact .inl ⟨.succeed, _, _, by rw [exec, hat]; rfl⟩
  | validate p =>
    obtain ⟨rfl, -⟩ | hg | hg | hg := hmay
    · cases hb : b.assertAborts with
      | true => exact .inr (.inl ⟨rfl, rfl⟩)
      | false => exact .inl ⟨.succeed, w, (), by simp [exec, hb]⟩
    · obtain ⟨-, -, hb⟩ := h.own i p _ hg
      exact .inl ⟨_, _, _, exec_validate hb rfl⟩
    · obtain ⟨m, hb, -⟩ := h.mutex (hg ▸ .inl rfl : (gs i).On p)
      exact .inl ⟨_, _, _, exec_validate hb rfl⟩
    · obtain ⟨m, hb, -⟩ := h.mutex (hg ▸ .inr (.inr (.inl rfl)) : (gs i).On p)
      exact .inl ⟨_, _, _, exec_validate hb rfl⟩

/-! ## Calls -/

theorem canStep_done {c : Call} {a : Resp} (hc : t.calls i = some (c, .done a)) :
    CanStep b t i := by
  right
  simp [System.step, hc]

theorem canStep_req {c : Call} {k : o.Reply → CsM Resp} {x : Choice} {r : o.Reply}
    (hc : t.calls i = some (c, .req o k)) (he : exec b i o x t.shared = some (w', some r)) :
    CanStep b t i := by
  left
  refine ⟨x, ?_⟩
  have he' : (threads ι b).exec i o x t.shared = some (w', some r) := he
  simp [System.step, hc, he']

/-- What a mutex counts beyond the entries of a thread is its call's, which can go on. -/
theorem Inv.canStep_of_extra (h : Inv t.shared gs)
    (hknows : ∀ i, System.Discipline.Knows .idle (fun _ _ => may) (fun _ _ => next)
      (fun _ => post) i (gs i) (t.calls i))
    (hx : extra t.shared j (gs j) p ≠ 0) : t.shared.busy j = p ∧ CanStep b t j := by
  have hstage : gs j = .got p ∨ gs j = .leaving p := by
    unfold extra at hx
    split at hx
    · rename_i q hq
      split at hx
      · rename_i hqp
        exact .inl (hqp ▸ hq)
      · exact absurd rfl hx
    · rename_i q hq
      split at hx
      · rename_i hqp
        exact .inr (hqp ▸ hq)
      · exact absurd rfl hx
    · exact absurd rfl hx
  have hon : (gs j).On p := by
    rcases hstage with hg | hg
    · exact .inr (.inl hg)
    · exact .inr (.inr (.inl hg))
  refine ⟨(h.on j p hon).2, ?_⟩
  have hj := hknows j
  cases hc : t.calls j with
  | none =>
    rw [hc] at hj
    have hidle : gs j = .idle := hj
    rw [hidle] at hstage
    rcases hstage with hg | hg <;> cases hg
  | some y =>
    obtain ⟨c, x⟩ := y
    rw [hc] at hj
    cases x with
    | done a => exact canStep_done hc
    | req o k =>
      obtain ⟨hmay, -⟩ := hj
      obtain ⟨x, w', r, he⟩ | ⟨rfl, -⟩ | ⟨q, m, rfl, hg, -⟩ := h.answered (b := b) hmay
      · exact canStep_req hc he
      · obtain ⟨-, hidle⟩ | hg | hg | hg := hmay
        · rw [hidle] at hstage
          rcases hstage with hg | hg <;> cases hg
        · rw [hg] at hstage
          rcases hstage with hg | hg <;> cases hg
        · rw [hg] at hstage
          rcases hstage with hg | hg <;> cases hg
        · have hon : (gs j).On 0 := hg ▸ .inr (.inr (.inl rfl))
          exact absurd rfl (h.live 0 (h.on j 0 hon).1).1
      · rw [hg] at hstage
        rcases hstage with hg | hg <;> cases hg

/-- In any run in which the threads use the handles as they should, a call that has started can go
on, unless it is the assertion of a debug build that `SKY_INVALID_HANDLE` is valid, or it enters a
section: then its thread is not inside, but another one is, or is in a call on the section that can
go on. -/
theorem progress {as : List (Act ι Call Choice)}
    (hr : (threads ι b).Runs InTurn (fun _ _ _ _ => True) (System.idle (World.start ι)) as t)
    {c : Call} {x : CsM Resp} (hc : t.calls i = some (c, x)) :
    CanStep b t i ∨ (b.assertAborts = true ∧ ∃ k, x = .req (.validate 0) k) ∨
      ∃ p k, x = .req (.mutexLock p) k ∧ t.shared.inside i p = 0 ∧
        ∃ j, j ≠ i ∧ (t.shared.inside j p ≠ 0 ∨ t.shared.busy j = p ∧ CanStep b t j) := by
  obtain ⟨gs, h, hknows⟩ := discipline.runs hr ⟨fun _ => .idle, Inv.start, fun _ => rfl⟩
  cases x with
  | done a => exact .inl (canStep_done hc)
  | req o k =>
    have hi := hknows i
    rw [hc] at hi
    obtain ⟨x, w', r, he⟩ | ⟨rfl, hb⟩ | ⟨p, m, rfl, hg, hat, hl⟩ := h.answered (b := b) hi.1
    · exact .inl (canStep_req hc he)
    · exact .inr (.inl ⟨hb, k, rfl⟩)
    · obtain ⟨m', -, hat', hm⟩ := h.mutex (hg ▸ .inl rfl : (gs i).On p)
      cases hat.symm.trans hat'
      obtain ⟨j, hj, hdepth⟩ := RecMutex.lock_eq_none.1 hl
      have hmi := hm i
      have hmj := hm j
      have hzero := (m.depth_exclusive hj).resolve_left hdepth
      refine .inr (.inr ⟨p, k, rfl, by omega, j, hj, ?_⟩)
      by_cases hin : t.shared.inside j p = 0
      · exact .inr (h.canStep_of_extra hknows (by omega))
      · exact .inl hin

/-- A run in which a thread waits for another one, which is inside. -/
theorem progress_waiting : ∃ as t x, RunsInTurn (System.idle (World.start Bool)) as t ∧
    t.calls true = some (.enter 8, x) ∧ ¬ CanStep ⟨0, false⟩ t true ∧
    ∃ p k, x = .req (.mutexLock p) k ∧ t.shared.inside true p = 0 ∧
      ∃ j, j ≠ true ∧ (t.shared.inside j p ≠ 0 ∨
        t.shared.busy j = p ∧ CanStep ⟨0, false⟩ t j) := by
  obtain ⟨t1, hcreate, h1, t2, henter, h2, t3, hstart, t4, hrun, x, hx, hstuck⟩ :
      ∃ t1, twoThreads.run (System.idle (World.start Bool)) (createAt8 false) = some t1 ∧
        InTurn false (.enter 8) t1.shared ∧
      ∃ t2, twoThreads.run t1 (enterAt8 false) = some t2 ∧ InTurn true (.enter 8) t2.shared ∧
      ∃ t3, twoThreads.step t2 (.start true (.enter 8)) = some t3 ∧
      ∃ t4, twoThreads.step t3 (.run true .succeed) = some t4 ∧
      ∃ x, t4.calls true = some (.enter 8, x) ∧
        ((∀ y, twoThreads.step t4 (.run true y) = none) ∧
          twoThreads.step t4 (.finish true) = none) :=
    ⟨_, rfl, .inr ⟨rfl, by decide⟩, _, rfl, .inr ⟨rfl, by decide⟩, _, rfl, _, rfl, _, rfl,
      fun _ => rfl, rfl⟩
  have hcreate : RunsInTurn _ _ t1 := System.runs_call (.inl rfl) (fun _ _ => trivial) hcreate
  have henter : RunsInTurn t1 _ t2 := System.runs_call h1 (fun _ _ => trivial) henter
  have hallowed : System.Allowed InTurn (fun _ _ _ _ => True) t3 (.run true Choice.succeed) :=
    fun _ _ _ _ => trivial
  have hlast : RunsInTurn t2 _ t4 := .start h2 hstart (.cons hallowed hrun (.nil t4))
  have hruns := hcreate.append (henter.append hlast)
  have hwaits : ¬ CanStep ⟨0, false⟩ t4 true := by
    intro hc
    rcases hc with ⟨y, hy⟩ | hf
    · exact hy (hstuck.1 y)
    · exact hf hstuck.2
  refine ⟨_, t4, x, hruns, hx, hwaits, ?_⟩
  obtain ⟨hb, -⟩ | hwait := (progress hruns hx).resolve_left hwaits
  · cases hb
  · exact hwait

end Sky.CriticalSection
