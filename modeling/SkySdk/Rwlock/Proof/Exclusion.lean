import SkySdk.Rwlock.Proof.Requests

/-!
# Exclusion in any interleaving

When the threads of a process use a handle in turn (`InTurn`), the locks that two threads hold on
one file exclude each other (`excludes_by_file`). Threads that share a handle at the same time lock
the same open file, which `flock` converts, and handles of one name are on different files once the
creator has removed and created it again: neither is excluded by name (`not_excludes_by_name`).
-/

set_option autoImplicit false

namespace Sky.Rwlock

open Base

variable {ι κ : Type} {proc : ι → κ} {b : Build} {nameMax : Nat} {w : World ι κ} {i j : ι}
  {p : Addr} {h h' : κ × Addr} {mode : LockMode} {gs : ι → Stage} {own : Owners ι κ}

section
variable [DecidableEq ι] [DecidableEq κ]

/-! ## Calls -/

omit [DecidableEq ι] in
theorem kept_setHanded (hne : h' ≠ h) (v : Option (Option (List UInt8))) (u : Option ι) :
    Kept proc w (w.setHanded h v) own
      { own with call := Function.update own.call h u } h' :=
  { Kept.refl proc w own h' with
    call := Function.update_of_ne hne _ _
    handed := Function.update_of_ne hne _ _ }

omit [DecidableEq ι] in
theorem kept_setUser (hne : h' ≠ h) (u : Option ι) : Kept proc w (w.setUser h u) own own h' :=
  { Kept.refl proc w own h' with user := Function.update_of_ne hne _ _ }

omit [DecidableEq κ] in
theorem kept_setHolds (hne : h' ≠ (proc i, p)) (m : Option LockMode) :
    Kept proc w (w.setHolds i p m) own own h' := by
  refine { Kept.refl proc w own h' with holds := ?_ }
  intro j q hh
  by_cases hj : j = i
  · subst hj
    have hq : q ≠ p := by
      intro hq
      exact hne (by rw [hh, hq])
    simp [World.setHolds, hq]
  · exact congrFun (Function.update_of_ne hj _ _) q

omit [DecidableEq κ] in
theorem setHolds_self (m : Option LockMode) : (w.setHolds i p m).holds i p = m := by
  simp [World.setHolds]

omit [DecidableEq κ] in
theorem setHolds_of_ne (hj : j ≠ i) (m : Option LockMode) :
    (w.setHolds i p m).holds j = w.holds j := Function.update_of_ne hj _ _

/-- A call starts on a handle that no other thread is using. -/
theorem Owned.use (ho : Owned proc own w gs) (hh : w.handed (proc i, p) ≠ none)
    (hu : w.user (proc i, p) = none ∨ w.user (proc i, p) = some i) :
    Owned proc own ((w.setHolds i p none).setUser (proc i, p) (some i))
      (Function.update gs i (.using p)) := by
  refine ho.step (fun h' => h' = (proc i, p)) ?_ ?_ ?_ ?_ ?_ ho.compatible ?_
  · intro h' hm
    subst hm
    exact .inr (.inr ⟨hh, hu⟩)
  · intro h' hne
    exact (kept_setHolds hne _).trans (kept_setUser hne _)
  · intro h' path _ hhanded
    obtain ⟨hcall, d, hd, hf⟩ := ho.live h' path hhanded
    exact ⟨hcall, d, hd, hf.same rfl rfl⟩
  · intro j hj
    exact setHolds_of_ne hj none
  · intro q m hm hheld
    cases hm
    exact absurd ((setHolds_self none).symm.trans hheld) (by simp)
  · intro _
    exact ⟨hh, Function.update_self _ _ _, setHolds_self none⟩

/-- A `destroy` takes the handle from the callers. -/
theorem Owned.takeBack (ho : Owned proc own w gs) (hh : w.handed (proc i, p) ≠ none)
    (hu : w.user (proc i, p) = none ∨ w.user (proc i, p) = some i) :
    Inv proc (((w.setHolds i p none).setUser (proc i, p) none).setHanded (proc i, p) none)
      (Function.update gs i (.taken p)) := by
  obtain ⟨path, hpath⟩ := Option.ne_none_iff_exists'.1 hh
  obtain ⟨-, d, hd, hf⟩ := ho.live _ path hpath
  refine ⟨{ own with call := Function.update own.call (proc i, p) (some i) }, ?_⟩
  refine ho.step (fun h' => h' = (proc i, p)) ?_ ?_ ?_ ?_ ?_ ho.compatible ?_
  · intro h' hm
    subst hm
    exact .inr (.inr ⟨hh, hu⟩)
  · intro h' hne
    exact ((kept_setHolds hne _).trans (kept_setUser hne _)).trans (kept_setHanded hne _ _)
  · intro h' path' hm hhanded
    subst hm
    exact absurd ((Function.update_self _ _ _).symm.trans hhanded) (by simp)
  · intro j hj
    exact setHolds_of_ne hj none
  · intro q m hm hheld
    cases hm
    exact absurd ((setHolds_self none).symm.trans hheld) (by simp)
  · intro _
    exact ⟨Function.update_self _ _ _, d, path, hd, hf.same rfl rfl⟩

theorem Owned.takeUp (ho : Owned proc own w gs) {c : Call} (hc : InTurn proc i c w) :
    Inv proc (takeUp (proc i) i c w) (Function.update gs i (firstStage c)) := by
  unfold Rwlock.takeUp
  by_cases hz : c.handle = 0
  · rw [if_pos hz]
    refine ⟨own, ho.learn ?_⟩
    cases c with
    | create name => trivial
    | «open» name => trivial
    | wrlock p timeout => exact fun hp => absurd hz hp
    | rdlock p timeout => exact fun hp => absurd hz hp
    | unlock p => exact fun hp => absurd hz hp
    | destroy p => exact fun hp => absurd hz hp
  rw [if_neg hz]
  obtain ⟨hh, hu⟩ := hc.resolve_left hz
  cases c with
  | create name => exact absurd rfl hz
  | «open» name => exact absurd rfl hz
  | wrlock p timeout => exact ⟨own, ho.use hh hu⟩
  | rdlock p timeout => exact ⟨own, ho.use hh hu⟩
  | unlock p => exact ⟨own, ho.use hh hu⟩
  | destroy p => exact ho.takeBack hh hu

theorem Owned.handOut (ho : Owned proc own w gs) {path : Option (List UInt8)}
    (hp : Makes path (gs i) p) :
    Inv proc (handOut (proc i) path p w) (Function.update gs i .idle) := by
  unfold Rwlock.handOut
  by_cases hz : p = 0
  · rw [if_pos hz]
    exact ⟨own, ho.learn trivial⟩
  rw [if_neg hz]
  have hk := ho.known i
  rw [hp hz] at hk
  obtain ⟨hcall, d, hd, hf⟩ := hk
  refine ⟨{ own with call := Function.update own.call (proc i, p) none }, ?_⟩
  refine ho.step (fun h' => h' = (proc i, p)) ?_ ?_ ?_ (fun _ _ => rfl) ?_ ho.compatible trivial
  · intro h' hm
    subst hm
    exact .inl hcall
  · intro h' hne
    exact (kept_setUser hne _).trans (kept_setHanded hne _ _)
  · intro h' path' hm hhanded
    subst hm
    cases (Function.update_self _ _ _).symm.trans hhanded
    exact ⟨Function.update_self _ _ _, d, hd, hf.same rfl rfl⟩
  · intro q m hm hheld
    cases hm
    have hnone := (ho.handed_live (ho.held i p m hheld).1).1
    rw [hcall] at hnone
    cases hnone

theorem Owned.putBack (ho : Owned proc own w gs) (hu : InUse w (proc i) i p) :
    Owned proc own (w.setUser (proc i, p) none) (Function.update gs i .idle) := by
  refine ho.step (fun h' => h' = (proc i, p)) ?_ ?_ ?_ (fun _ _ => rfl) ?_ ho.compatible trivial
  · intro h' hm
    subst hm
    exact .inr (.inr ⟨hu.handed, .inr hu.user⟩)
  · intro h' hne
    exact kept_setUser hne _
  · intro h' path _ hhanded
    obtain ⟨hcall, d, hd, hf⟩ := ho.live h' path hhanded
    exact ⟨hcall, d, hd, hf.same rfl rfl⟩
  · intro q m hm hheld
    cases hm
    exact absurd (hheld.symm.trans hu.holds) (by simp)

omit [DecidableEq κ] in
theorem Owned.hold (ho : Owned proc own w gs) (hu : InUse w (proc i) i p)
    (hl : Holding w own (proc i, p) mode) :
    Owned proc own (w.setHolds i p (some mode)) (Function.update gs i .idle) := by
  refine ho.step (fun h' => h' = (proc i, p)) ?_ ?_ ?_ ?_ ?_ ho.compatible trivial
  · intro h' hm
    subst hm
    exact .inr (.inr ⟨hu.handed, .inr hu.user⟩)
  · intro h' hne
    exact kept_setHolds hne _
  · intro h' path _ hhanded
    obtain ⟨hcall, d, hd, hf⟩ := ho.live h' path hhanded
    exact ⟨hcall, d, hd, hf.same rfl rfl⟩
  · intro j hj
    exact setHolds_of_ne hj _
  · intro q m hm hheld
    cases hm
    cases (setHolds_self (some mode)).symm.trans hheld
    obtain ⟨d, hd, hlocked⟩ := hl
    refine ⟨hu.handed, hu.user, d, hd, ?_⟩
    intro fd hfd
    exact ⟨(hlocked fd hfd).mine, (hlocked fd hfd).lock⟩

theorem Owned.locked (ho : Owned proc own w gs) {r : Bool} (hp : (gs i).Got p mode r) :
    Owned proc own (locked (proc i) i p mode r w) (Function.update gs i .idle) := by
  unfold Rwlock.locked
  by_cases hz : p = 0
  · rw [if_pos hz]
    exact ho.learn trivial
  rw [if_neg hz]
  cases r with
  | false => exact ho.putBack (ho.unlocked hp hz)
  | true =>
    have hk := ho.known i
    obtain ⟨d, hg | ⟨hg, hfd⟩⟩ := hp
    · rw [hg] at hk
      obtain ⟨hu, hd, hl⟩ := hk
      exact ho.hold hu ⟨d, hd, hl⟩
    · rw [hg] at hk
      obtain ⟨hu, hd⟩ := hk
      refine ho.hold hu ⟨d, hd, ?_⟩
      intro fd hfd'
      rw [hfd] at hfd'
      cases hfd'

theorem Owned.putDown (ho : Owned proc own w gs) {c : Call} {r : Resp}
    (hp : post nameMax c (gs i) r) :
    Inv proc (putDown nameMax (proc i) i c r w) (Function.update gs i .idle) := by
  have hidle : Inv proc w (Function.update gs i .idle) := ⟨own, ho.learn trivial⟩
  cases c with
  | create name =>
    cases r with
    | handle p => exact ho.handOut hp
    | locked r => exact hidle
    | done => exact hidle
  | «open» name =>
    cases r with
    | handle p => exact ho.handOut hp
    | locked r => exact hidle
    | done => exact hidle
  | wrlock p timeout =>
    cases r with
    | locked r => exact ⟨own, ho.locked hp⟩
    | handle q => exact hidle
    | done => exact hidle
  | rdlock p timeout =>
    cases r with
    | locked r => exact ⟨own, ho.locked hp⟩
    | handle q => exact hidle
    | done => exact hidle
  | unlock p =>
    by_cases hz : p = 0
    · simp only [Rwlock.putDown, if_pos hz]
      exact hidle
    · simp only [Rwlock.putDown, if_neg hz]
      exact ⟨own, ho.putBack (ho.unlocked hp hz)⟩
  | destroy p => exact hidle

/-- The rules of ownership, for runs in which the threads use a handle in turn. -/
theorem discipline : (threads proc b nameMax).Discipline (InTurn proc) (fun _ _ _ _ => True)
    (Inv proc) .idle (fun _ => firstStage) (fun _ _ => may) (fun _ _ => next)
    (fun _ => post nameMax) where
  safe _ c _ _ := call_safe c
  enter i c w gs hc _ h := by
    obtain ⟨own, ho⟩ := h
    exact ho.takeUp hc
  reply i c o x w gs w' r _ hm h he := by
    obtain ⟨own, ho⟩ := h
    exact ho.reply hm he
  wait i c o x w gs w' _ hm h he := by
    obtain ⟨own, ho⟩ := h
    exact ⟨own, ho.wait hm he⟩
  leave i c r w gs hp h := by
    obtain ⟨own, ho⟩ := h
    exact ho.putDown hp

end

/-! ## Exclusion -/

theorem Owned.fileOf (ho : Owned proc own w gs) {path : List UInt8}
    (hh : w.handed h = some (some path)) : ∃ inode, w.fileOf h = some ⟨path, inode⟩ := by
  obtain ⟨-, d, hd, fd, hfd, -, inode, hopen⟩ := ho.live h (some path) hh
  exact ⟨inode, by simp [World.fileOf, hd, hfd, hopen]⟩

/-- What a thread holds on a file is a lock of the kernel. -/
theorem Owned.lock_of_holds (ho : Owned proc own w gs) {file : OpenFile}
    (hf : w.fileOf (proc i, p) = some file) (hm : w.holds i p = some mode) :
    w.user (proc i, p) = some i ∧ ∃ fd, own.block (proc i, fd) = some (proc i, p) ∧
      ⟨(proc i, fd), file.inode, mode⟩ ∈ w.locks := by
  obtain ⟨-, huser, d, hd, hl⟩ := ho.held i p mode hm
  simp only [World.fileOf, hd, Option.bind_eq_some_iff] at hf
  obtain ⟨fd, hfd, hopen⟩ := hf
  obtain ⟨hmine, file', hopen', hlock⟩ := hl fd hfd
  rw [hopen] at hopen'
  cases hopen'
  exact ⟨huser, fd, hmine, hlock⟩

theorem Owned.excludes (ho : Owned proc own w gs) : ExcludesByFile proc w := by
  intro i j p q file m m' hij hfi hfj hm hm'
  obtain ⟨hui, fi, hbi, hli⟩ := ho.lock_of_holds hfi hm
  obtain ⟨huj, fj, hbj, hlj⟩ := ho.lock_of_holds hfj hm'
  have hne : (proc i, fi) ≠ (proc j, fj) := by
    intro hc
    rw [hc, hbj] at hbi
    rw [← Option.some.inj hbi, huj] at hui
    exact hij (Option.some.inj hui).symm
  exact ho.compatible _ hli _ hlj hne rfl

variable [DecidableEq ι] [DecidableEq κ]

/-- In any run in which the threads of a process use a handle in turn, two locks on one file are for
reading. -/
theorem excludes_by_file {as : List (Act ι Call Choice)}
    {t : Conf ι (World ι κ) Request Request.Reply Call Resp}
    (hr : (threads proc b nameMax).Runs (InTurn proc) (fun _ _ _ _ => True)
      (System.idle (World.start ι κ)) as t) :
    ExcludesByFile proc t.shared ∧ NamesFiles t.shared := by
  have h0 : Inv proc (World.start ι κ) fun _ => .idle := by
    refine ⟨⟨fun _ => none, fun _ => none⟩, fun _ => trivial, ?_, ?_, FileLock.compatible_nil⟩
    · intro h path hh
      cases hh
    · intro i p m hm
      cases hm
  obtain ⟨gs, own, ho⟩ := discipline.inv h0 hr
  exact ⟨ho.excludes, fun h path hh => ho.fileOf hh⟩

/-! ## Runs -/

/-- `"a"` -/
def nameA : CStr := ⟨[97], CStr.noNul_a⟩

/-- A call of thread `i`, with the environment's choices. -/
def calls (i : ι) (c : Call) (xs : List Choice) : List (Act ι Call Choice) :=
  .start i c :: xs.map (Act.run i) ++ [.finish i]

def createA (i : ι) : List (Act ι Call Choice) :=
  calls i (.create (some nameA)) [.place 8, .place 16, .succeed, .place 3, .succeed]

def openA (i : ι) : List (Act ι Call Choice) :=
  calls i (.open (some nameA)) [.succeed, .place 8, .place 3, .succeed]

def wrlockA (i : ι) : List (Act ι Call Choice) :=
  calls i (.wrlock 8 skyInfinite) [.succeed, .succeed, .succeed]

def destroyA (i : ι) : List (Act ι Call Choice) :=
  calls i (.destroy 8) (List.replicate 8 .succeed)

def rdlockA (i : ι) : List (Act ι Call Choice) :=
  calls i (.rdlock 8 skyInfinite) [.succeed, .succeed, .succeed]

/-- The processes `false` and `true`, of one thread each. -/
abbrev twoProcesses : System Bool (World Bool Bool) Request Request.Reply Call Resp Choice :=
  threads (fun i => i) ⟨0, false⟩ 256

abbrev RunsInTurn : Conf Bool (World Bool Bool) Request Request.Reply Call Resp →
    List (Act Bool Call Choice) →
    Conf Bool (World Bool Bool) Request Request.Reply Call Resp → Prop :=
  twoProcesses.Runs (InTurn fun i => i) (fun _ _ _ _ => True)

/-- A run in which one process creates `"a"`, another opens it, and both read. -/
theorem excludes_readers : ∃ as t, RunsInTurn (System.idle (World.start Bool Bool)) as t ∧
    (∃ file, t.shared.fileOf (false, 8) = some file ∧ t.shared.fileOf (true, 8) = some file) ∧
    t.shared.holds false 8 = some .shared ∧ t.shared.holds true 8 = some .shared ∧
    ExcludesByFile (fun i => i) t.shared ∧ NamesFiles t.shared := by
  obtain ⟨t1, hcreate, t2, hopen, ⟨hh2, hu2⟩, t3, hlock, ⟨hh3, hu3⟩, t4, hlock', hfile, hholds⟩ :
      ∃ t1, twoProcesses.run (System.idle (World.start Bool Bool)) (createA false) = some t1 ∧
      ∃ t2, twoProcesses.run t1 (openA true) = some t2 ∧
        (t2.shared.handed (false, 8) ≠ none ∧ t2.shared.user (false, 8) = none) ∧
      ∃ t3, twoProcesses.run t2 (rdlockA false) = some t3 ∧
        (t3.shared.handed (true, 8) ≠ none ∧ t3.shared.user (true, 8) = none) ∧
      ∃ t4, twoProcesses.run t3 (rdlockA true) = some t4 ∧
        (∃ file, t4.shared.fileOf (false, 8) = some file ∧
          t4.shared.fileOf (true, 8) = some file) ∧
        t4.shared.holds false 8 = some .shared ∧ t4.shared.holds true 8 = some .shared :=
    ⟨_, rfl, _, rfl, ⟨Option.some_ne_none _, rfl⟩, _, rfl, ⟨Option.some_ne_none _, rfl⟩, _, rfl,
      ⟨_, rfl, rfl⟩, rfl, rfl⟩
  have hcreate : RunsInTurn _ _ t1 := System.runs_call (.inl rfl) (fun _ _ => trivial) hcreate
  have hopen : RunsInTurn t1 _ t2 := System.runs_call (.inl rfl) (fun _ _ => trivial) hopen
  have hlock : RunsInTurn t2 _ t3 :=
    System.runs_call (.inr ⟨hh2, .inl hu2⟩) (fun _ _ => trivial) hlock
  have hlock' : RunsInTurn t3 _ t4 :=
    System.runs_call (.inr ⟨hh3, .inl hu3⟩) (fun _ _ => trivial) hlock'
  have hruns := hcreate.append (hopen.append (hlock.append hlock'))
  obtain ⟨hex, hnames⟩ := excludes_by_file hruns
  exact ⟨_, t4, hruns, hfile, hholds.1, hholds.2, hex, hnames⟩

/-- Two threads of one process get the write lock of `"a"` through one handle; and two processes do
after the creator has destroyed its handle and created `"a"` again. -/
theorem not_excludes_by_name :
    (∃ t, (threads (fun _ : Bool => ()) ⟨0, false⟩ 256).run (System.idle (World.start Bool Unit))
      (createA false ++ wrlockA false ++ wrlockA true) = some t ∧
      ¬ ExcludesByName (fun _ => ()) t.shared) ∧
    ∃ t, twoProcesses.run (System.idle (World.start Bool Bool))
      (createA false ++ openA true ++ wrlockA true ++ destroyA false ++ createA false ++
        wrlockA false) = some t ∧ ¬ ExcludesByName (fun i => i) t.shared := by
  refine ⟨⟨_, rfl, ?_⟩, _, rfl, ?_⟩
  · intro h
    have hboth := h false true 8 8 (pathOf 256 nameA) .exclusive .exclusive (by decide) rfl rfl
      rfl rfl
    cases hboth.1
  · intro h
    have hboth := h false true 8 8 (pathOf 256 nameA) .exclusive .exclusive (by decide) rfl rfl
      rfl rfl
    cases hboth.1

end Sky.Rwlock
