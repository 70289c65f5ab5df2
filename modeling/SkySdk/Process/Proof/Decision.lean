import SkySdk.Process.Proof.Election

/-!
# Who is not the first instance

`flock` refuses a process only for a live one that was told that it is the first instance of the
file, or is about to be told (`decides`): nobody is turned away for a process that is gone.
-/

set_option autoImplicit false

namespace Sky.Process

open Base

variable {κ I : Type} {M : Machine I} {w : World κ I} {gs : κ → Stage I} {k j : κ} {inode : I}
  {c : Call} {t : Conf κ (World κ I) Request Request.Reply Call Bool}

/-- A live process is about to be told that it is the first instance of the file. -/
def Winning (M : Machine I) (t : Conf κ (World κ I) Request Request.Reply Call Bool) (j : κ)
    (inode : I) : Prop :=
  t.shared.alive j = true ∧ ∃ name, t.calls j = some (.isFirstInstance name, .done true) ∧
    M.pidFile name = inode

/-- A call that has locked its file returns `true`. -/
theorem locked_safe {file : Nat} {x : ProcessM Bool}
    (h : x.Safe may (next M) (post M c) (.locked file inode)) :
    ∃ name, c = .isFirstInstance name ∧ x = .done true ∧ M.pidFile name = inode := by
  cases x with
  | done r =>
    cases c with
    | isFirstInstance name =>
      cases r with
      | false => cases h
      | true =>
        obtain ⟨file', hg⟩ := h
        exact ⟨name, rfl, rfl, (Stage.locked.inj hg).2.symm⟩
    | setRunInBackground => cases h
    | isRunInBackground => cases h
    | exit => cases h
  | req o f =>
    obtain ⟨hmay, -⟩ := h
    cases o with
    | print name => cases hmay.1
    | flock file =>
      obtain ⟨inode, hc⟩ := hmay
      cases hc
    | _ => cases hmay

variable [DecidableEq κ]

/-- The calls of the processes are in their stages. -/
abbrev InStages (M : Machine I) (t : Conf κ (World κ I) Request Request.Reply Call Bool)
    (gs : κ → Stage I) : Prop :=
  ∀ k, System.Discipline.Knows .idle (fun _ _ => may) (fun _ _ => next M) (fun _ => post M) k
    (gs k) (t.calls k)

omit [DecidableEq κ] in
theorem winning_iff (hknows : InStages M t gs) (ha : t.shared.alive j = true) :
    Winning M t j inode ↔ ∃ file, gs j = .locked file inode := by
  have hj := hknows j
  constructor
  · intro h
    obtain ⟨-, name, hc, rfl⟩ := h
    rw [hc] at hj
    exact hj
  · intro h
    obtain ⟨file, hg⟩ := h
    refine ⟨ha, ?_⟩
    cases hc : t.calls j with
    | none =>
      rw [hc, hg] at hj
      cases hj
    | some y =>
      obtain ⟨c, x⟩ := y
      rw [hc, hg] at hj
      obtain ⟨name, rfl, rfl, hinode⟩ := locked_safe hj
      exact ⟨name, rfl, hinode⟩

variable [DecidableEq I]

theorem flock_eq_zero {file : Nat} (hopen : w.opened (k, file) = some inode) :
    (w.flock k file).2 = 0 ↔ FileLock.Free w.locks (k, file) inode .exclusive := by
  unfold World.flock
  rw [hopen]
  dsimp only
  by_cases hfree : FileLock.Free w.locks (k, file) inode .exclusive
  · rw [if_pos hfree]
    exact iff_of_true rfl hfree
  · rw [if_neg hfree]
    exact iff_of_false (by simp) hfree

/-- In any run in which processes look for a first instance, go to the background and die, the file
that a call has opened is locked by its `flock` unless a live process has been told that it is the
first instance of the file, or is about to be. -/
theorem decides {as : List (Act κ Call Choice)} (hw : w.Starts)
    (hr : (processes M).Runs MayCall (fun _ _ _ _ => True) (System.idle w) as t)
    {name : CStr} {file : Nat} {f : Int → ProcessM Bool} (ha : t.shared.alive k = true)
    (hc : t.calls k = some (.isFirstInstance name, .req (.flock file) f)) :
    f 0 = .done true ∧ ((t.shared.flock k file).2 = 0 ↔
      ∀ j, (j, M.pidFile name) ∉ t.shared.first ∧ ¬ Winning M t j (M.pidFile name)) := by
  obtain ⟨gs, h, hknows⟩ := discipline.runs hr ⟨fun _ => .idle, Inv.start hw, fun _ => rfl⟩
  have hsafe := hknows k
  rw [hc] at hsafe
  obtain ⟨⟨inode, hg⟩, hnext⟩ := hsafe
  obtain ⟨name', hname, hf, rfl⟩ := locked_safe (hnext (0 : Int) _ ⟨inode, hg, rfl⟩)
  cases hname
  refine ⟨hf, ?_⟩
  have hk := h.knows k ha
  rw [hg] at hk
  obtain ⟨-, hopen, hno⟩ := hk
  rw [flock_eq_zero hopen]
  constructor
  · intro hfree j
    -- An exclusive lock on the file is in the way.
    have hlock (file' : Nat)
        (hl : (⟨(j, file'), M.pidFile name, .exclusive⟩ : FileLock (κ × Nat) I) ∈ t.shared.locks) :
        False := by
      have hboth := hfree _ hl (hno _ hl) rfl
      cases hboth.1
    refine ⟨?_, ?_⟩
    · intro hx
      obtain ⟨file', hl⟩ := h.first _ hx
      exact hlock file' hl
    · intro hwin
      obtain ⟨file', hj⟩ := (winning_iff hknows hwin.1).1 hwin
      have hkj := h.knows j hwin.1
      rw [hj] at hkj
      exact hlock file' hkj.1
  · intro hnone l hl _ hinode
    have hl' := h.locks l hl
    exfalso
    cases hl'.told with
    | inl htold => exact (hnone l.file.1).1 (hinode ▸ htold)
    | inr hlocked =>
      exact (hnone l.file.1).2 ((winning_iff hknows hl'.alive).2 ⟨_, hinode ▸ hlocked⟩)

/-- A run in which the first instance has gone to the background and another process asks. -/
theorem decides_second : ∃ as t f, Runs (System.idle (World.start Bool)) as t ∧
    t.calls true = some (.isFirstInstance nameA, .req (.flock 3) f) ∧
    (f 0 = .done true ∧ ((t.shared.flock true 3).2 = 0 ↔
      ∀ j, (j, plain.pidFile nameA) ∉ t.shared.first ∧ ¬ Winning plain t j (plain.pidFile nameA))) ∧
    (t.shared.flock true 3).2 = -1 := by
  obtain ⟨t1, hfirst, ha1, t2, hstart, t3, hprint, t4, hopen, hlive, f, hc, hret⟩ :
      ∃ t1, (processes plain).run (System.idle (World.start Bool)) (callA false) = some t1 ∧
        t1.shared.alive true = true ∧
      ∃ t2, (processes plain).step t1 (.start true (.isFirstInstance nameA)) = some t2 ∧
      ∃ t3, (processes plain).step t2 (.run true .succeed) = some t3 ∧
      ∃ t4, (processes plain).step t3 (.run true (.place 3)) = some t4 ∧
        t4.shared.alive true = true ∧
      ∃ f, t4.calls true = some (.isFirstInstance nameA, .req (.flock 3) f) ∧
        (t4.shared.flock true 3).2 = -1 :=
    ⟨_, rfl, rfl, _, rfl, _, rfl, _, rfl, rfl, _, rfl, rfl⟩
  have hfirst : Runs _ _ t1 := System.runs_call ⟨rfl, takes_nameA⟩ (fun _ _ => trivial) hfirst
  have hlast : Runs t1 _ t4 :=
    .start ⟨ha1, takes_nameA⟩ hstart (.cons (allowed_run t2 true .succeed) hprint
      (.cons (allowed_run t3 true (.place 3)) hopen (.nil t4)))
  have hruns := hfirst.append hlast
  exact ⟨_, t4, f, hruns, hc, decides starts_start hruns hlive hc, hret⟩

end Sky.Process
