import SkySdk.Process.Proof.Stages

/-!
# At most one first instance

In any run of any number of processes, some of which may die on the way or go to the background, at
most one live process has been told that it is the first instance of a file (`first_unique`).
-/

set_option autoImplicit false

namespace Sky.Process

open Base

variable {κ I : Type} {M : Machine I} {w w' : World κ I} {gs : κ → Stage I} {k : κ} {g' : Stage I}

/-- What the stage of a live process says. -/
def Knows (w : World κ I) (k : κ) : Stage I → Prop
  | .opened file inode =>
    3 ≤ file ∧ w.opened (k, file) = some inode ∧ ∀ l ∈ w.locks, l.file ≠ (k, file)
  | .locked file inode => ⟨(k, file), inode, .exclusive⟩ ∈ w.locks ∧ (k, inode) ∉ w.first
  | _ => True

/-- A lock is of a live process, which has been told so, or is about to be. -/
structure Accounted (w : World κ I) (gs : κ → Stage I) (l : FileLock (κ × Nat) I) : Prop where
  exclusive : l.mode = .exclusive
  alive : w.alive l.file.1 = true
  file : 3 ≤ l.file.2
  opened : w.opened l.file ≠ none
  told : (l.file.1, l.inode) ∈ w.first ∨ gs l.file.1 = .locked l.file.2 l.inode

structure Inv (w : World κ I) (gs : κ → Stage I) : Prop where
  compatible : FileLock.Compatible w.locks
  locks : ∀ l ∈ w.locks, Accounted w gs l
  standard : ∀ k, w.alive k = true → ∀ file, file < 3 → w.opened (k, file) ≠ none
  first : ∀ x ∈ w.first, ∃ file, (⟨(x.1, file), x.2, .exclusive⟩ : FileLock (κ × Nat) I) ∈ w.locks
  unique : Unique w
  knows : ∀ k, w.alive k = true → Knows w k (gs k)

theorem Inv.start (h : w.Starts) : Inv w fun _ => .idle where
  compatible := by
    rw [h.locks]
    exact FileLock.compatible_nil
  locks l hl := by
    rw [h.locks] at hl
    cases hl
  standard k _ := h.standard k
  first x hx := by
    rw [h.first] at hx
    cases hx
  unique := by
    rw [Unique, h.first]
    exact List.nodup_nil
  knows _ _ := trivial

theorem Inv.file_eq (h : Inv w gs) {f f' : κ × Nat} {inode : I}
    (hl : (⟨f, inode, .exclusive⟩ : FileLock (κ × Nat) I) ∈ w.locks)
    (hl' : (⟨f', inode, .exclusive⟩ : FileLock (κ × Nat) I) ∈ w.locks) : f = f' := by
  by_contra hne
  have hboth := h.compatible _ hl _ hl' hne rfl
  cases hboth.1

/-- What is known of a process stays so while its pid files and locks do. -/
theorem Knows.imp {g : Stage I} (h : Knows w k g)
    (hopened : ∀ file, 3 ≤ file → w.opened (k, file) ≠ none →
      w'.opened (k, file) = w.opened (k, file))
    (hlocks : ∀ l, l.file.1 = k → (l ∈ w'.locks ↔ l ∈ w.locks))
    (hfirst : ∀ inode, (k, inode) ∈ w'.first → (k, inode) ∈ w.first) : Knows w' k g := by
  cases g with
  | idle => trivial
  | named path => trivial
  | opened file inode =>
    obtain ⟨hfile, hopen, hno⟩ := h
    refine ⟨hfile, (hopened file hfile (by simp [hopen])).trans hopen, ?_⟩
    intro l hl hc
    exact hno l ((hlocks l (congrArg Prod.fst hc)).1 hl) hc
  | locked file inode => exact ⟨(hlocks _ rfl).2 h.1, fun hx => h.2 (hfirst inode hx)⟩

variable [DecidableEq κ]

/-! ## Requests -/

/-- A process goes on without a lock. -/
theorem Inv.move (h : Inv w gs) (hg : w.alive k = true → ∀ file inode, gs k ≠ .locked file inode)
    (hk : w.alive k = true → Knows w k g') : Inv w (Function.update gs k g') where
  compatible := h.compatible
  locks l hl := by
    have ha := h.locks l hl
    refine ⟨ha.exclusive, ha.alive, ha.file, ha.opened, ?_⟩
    cases ha.told with
    | inl htold => exact .inl htold
    | inr hg' =>
      have hne : l.file.1 ≠ k := by
        intro hc
        rw [hc] at hg'
        exact hg (hc ▸ ha.alive) _ _ hg'
      exact .inr ((Function.update_of_ne hne _ _).trans hg')
  standard := h.standard
  first := h.first
  unique := h.unique
  knows j hj := by
    by_cases hjk : j = k
    · subst hjk
      rw [Function.update_self]
      exact hk hj
    · rw [Function.update_of_ne hjk]
      exact h.knows j hj

theorem opened_openAt {f : κ × Nat} {file : Nat} (hf : f ≠ (k, file)) (inode : I) :
    (w.openAt k file inode).opened f = w.opened f := Function.update_of_ne hf _ _

theorem Inv.openAt (h : Inv w gs) {file : Nat}
    (hf : w.opened (k, file) = none) (inode : I) : Inv (w.openAt k file inode) gs where
  compatible := h.compatible
  locks l hl := by
    have hl' := h.locks l hl
    refine ⟨hl'.exclusive, hl'.alive, hl'.file, ?_, hl'.told⟩
    by_cases hc : l.file = (k, file)
    · rw [hc]
      simp [World.openAt]
    · rw [opened_openAt hc]
      exact hl'.opened
  standard j hj n hn := by
    by_cases hc : (j, n) = (k, file)
    · rw [hc]
      simp [World.openAt]
    · rw [opened_openAt hc]
      exact h.standard j hj n hn
  first := h.first
  unique := h.unique
  knows j hj := by
    refine (h.knows j hj).imp ?_ (fun _ _ => Iff.rfl) fun _ => id
    intro n _ hopen
    exact opened_openAt (fun hc => hopen ((congrArg w.opened hc).trans hf)) inode

theorem Inv.opened (h : Inv w gs) (ha : w.alive k = true) {file : Nat}
    (hf : w.opened (k, file) = none) (hg : ∀ file inode, gs k ≠ .locked file inode) (inode : I) :
    Inv (w.openAt k file inode) (Function.update gs k (.opened file inode)) := by
  refine (h.openAt hf inode).move (fun _ => hg) ?_
  intro _
  refine ⟨?_, Function.update_self _ _ _, ?_⟩
  · by_contra hlt
    exact h.standard k ha file (by omega) hf
  · intro l hl hc
    exact (h.locks l hl).opened (hc ▸ hf)

theorem Inv.lock [DecidableEq I] (h : Inv w gs) (ha : w.alive k = true) {file : Nat} {inode : I}
    (hg : gs k = .opened file inode)
    (hfree : FileLock.Free w.locks (k, file) inode .exclusive) :
    Inv (w.setLocks (FileLock.grant w.locks (k, file) inode .exclusive))
      (Function.update gs k (.locked file inode)) := by
  have hk := h.knows k ha
  rw [hg] at hk
  obtain ⟨hfile, hopen, hno⟩ := hk
  have hsame : FileLock.release w.locks (k, file) = w.locks :=
    List.filter_eq_self.2 fun l hl => decide_eq_true (hno l hl)
  have hgrant : FileLock.grant w.locks (k, file) inode .exclusive =
      ⟨(k, file), inode, .exclusive⟩ :: w.locks := by
    rw [FileLock.grant, hsame]
  have hnew : (k, inode) ∉ w.first := by
    intro hx
    obtain ⟨file', hl⟩ := h.first _ hx
    exact absurd (hfree _ hl (hno _ hl) rfl).1 (by simp)
  refine ⟨h.compatible.grant hfree, ?_, h.standard, ?_, h.unique, ?_⟩
  · intro l hl
    rw [World.setLocks, hgrant] at hl
    cases hl with
    | head =>
      exact ⟨rfl, ha, hfile, by rw [World.setLocks, hopen]; simp, .inr (Function.update_self _ _ _)⟩
    | tail _ hl =>
      have hl' := h.locks l hl
      refine ⟨hl'.exclusive, hl'.alive, hl'.file, hl'.opened, ?_⟩
      cases hl'.told with
      | inl htold => exact .inl htold
      | inr hlocked =>
        have hne : l.file.1 ≠ k := by
          intro hc
          rw [hc, hg] at hlocked
          cases hlocked
        exact .inr ((Function.update_of_ne hne _ _).trans hlocked)
  · intro x hx
    obtain ⟨file', hl⟩ := h.first x hx
    refine ⟨file', ?_⟩
    rw [World.setLocks, hgrant]
    exact List.mem_cons_of_mem _ hl
  · intro j hj
    by_cases hjk : j = k
    · subst hjk
      rw [Function.update_self]
      refine ⟨?_, hnew⟩
      rw [World.setLocks, hgrant]
      exact List.mem_cons_self
    · rw [Function.update_of_ne hjk]
      refine (h.knows j hj).imp (fun _ _ _ => rfl) ?_ fun _ => id
      intro l hl
      rw [World.setLocks, hgrant, List.mem_cons, or_iff_right]
      intro hc
      rw [hc] at hl
      exact hjk hl.symm

/-- Going to the background keeps the pid files, as none is a standard descriptor. -/
theorem Inv.daemonise (h : Inv w gs) (null : I) : Inv (w.daemonise k null) gs := by
  have hlocks : (w.daemonise k null).locks = w.locks := by
    refine List.filter_eq_self.2 ?_
    intro l hl
    have hfile := (h.locks l hl).file
    simp only [decide_eq_true_eq, not_and]
    omega
  have hopened {f : κ × Nat} (hf : 3 ≤ f.2) : (w.daemonise k null).opened f = w.opened f := by
    refine if_neg ?_
    simp only [decide_eq_true_eq, not_and]
    omega
  refine ⟨hlocks ▸ h.compatible, ?_, ?_, hlocks ▸ h.first, h.unique, ?_⟩
  · intro l hl
    rw [hlocks] at hl
    have hl' := h.locks l hl
    exact ⟨hl'.exclusive, hl'.alive, hl'.file, (hopened hl'.file) ▸ hl'.opened, hl'.told⟩
  · intro j hj n hn
    by_cases hjk : j = k
    · simp [World.daemonise, World.reopen, hjk, hn]
    · simp only [World.daemonise, World.reopen, hjk, false_and, if_false]
      exact h.standard j hj n hn
  · intro j hj
    exact (h.knows j hj).imp (fun _ hn _ => hopened hn) (fun _ _ => by rw [hlocks]) fun _ => id

theorem mem_die_locks {l : FileLock (κ × Nat) I} :
    l ∈ (w.die k).locks ↔ l ∈ w.locks ∧ l.file.1 ≠ k := by
  simp [World.die, World.reopen]

theorem mem_die_first {x : κ × I} : x ∈ (w.die k).first ↔ x ∈ w.first ∧ x.1 ≠ k := by
  simp [World.die]

theorem die_alive {j : κ} : (w.die k).alive j = true ↔ w.alive j = true ∧ j ≠ k := by
  by_cases hj : j = k
  · simp [World.die, World.reopen, hj]
  · simp [World.die, World.reopen, hj]

theorem die_opened {f : κ × Nat} (hf : f.1 ≠ k) : (w.die k).opened f = w.opened f := by
  simp [World.die, World.reopen, hf]

theorem Inv.die (h : Inv w gs) (k : κ) : Inv (w.die k) gs where
  compatible := h.compatible.sublist fun _ hl => (mem_die_locks.1 hl).1
  locks l hl := by
    obtain ⟨hl, hne⟩ := mem_die_locks.1 hl
    have hl' := h.locks l hl
    refine ⟨hl'.exclusive, die_alive.2 ⟨hl'.alive, hne⟩, hl'.file, ?_, ?_⟩
    · rw [die_opened hne]
      exact hl'.opened
    · exact hl'.told.imp_left fun htold => mem_die_first.2 ⟨htold, hne⟩
  standard j hj n hn := by
    obtain ⟨hj, hne⟩ := die_alive.1 hj
    rw [die_opened hne]
    exact h.standard j hj n hn
  first x hx := by
    obtain ⟨hx, hne⟩ := mem_die_first.1 hx
    obtain ⟨file, hl⟩ := h.first x hx
    exact ⟨file, mem_die_locks.2 ⟨hl, hne⟩⟩
  unique := h.unique.sublist (List.filter_sublist.map _)
  knows j hj := by
    obtain ⟨hj, hne⟩ := die_alive.1 hj
    refine (h.knows j hj).imp (fun _ _ _ => die_opened hne) ?_ fun _ hx => (mem_die_first.1 hx).1
    intro l hl
    rw [mem_die_locks, and_iff_left (hl ▸ hne)]

theorem Inv.setBackground (h : Inv w gs) (k : κ) : Inv (w.setBackground k) gs where
  compatible := h.compatible
  locks l hl := ⟨(h.locks l hl).exclusive, (h.locks l hl).alive, (h.locks l hl).file,
    (h.locks l hl).opened, (h.locks l hl).told⟩
  standard := h.standard
  first := h.first
  unique := h.unique
  knows j hj := (h.knows j hj).imp (fun _ _ _ => rfl) (fun _ _ => Iff.rfl) fun _ => id

theorem Inv.tell (h : Inv w gs) (ha : w.alive k = true) {file : Nat} {inode : I}
    (hg : gs k = .locked file inode) :
    Inv (w.setFirst k inode) (Function.update gs k .idle) := by
  have hk := h.knows k ha
  rw [hg] at hk
  obtain ⟨hlock, hnew⟩ := hk
  refine ⟨h.compatible, ?_, h.standard, ?_, ?_, ?_⟩
  · intro l hl
    have hl' := h.locks l hl
    refine ⟨hl'.exclusive, hl'.alive, hl'.file, hl'.opened, ?_⟩
    cases hl'.told with
    | inl htold => exact .inl (List.mem_cons_of_mem _ htold)
    | inr hlocked =>
      by_cases hc : l.file.1 = k
      · rw [hc, hg] at hlocked
        obtain ⟨-, hinode⟩ := Stage.locked.inj hlocked
        left
        rw [hc, ← hinode]
        exact List.mem_cons_self
      · exact .inr ((Function.update_of_ne hc _ _).trans hlocked)
  · intro x hx
    cases hx with
    | head => exact ⟨file, hlock⟩
    | tail _ hx => exact h.first x hx
  · refine List.nodup_cons.2 ⟨?_, h.unique⟩
    intro hx
    obtain ⟨x, hx, hinode⟩ := List.mem_map.1 hx
    obtain ⟨file', hl⟩ := h.first x hx
    rw [hinode] at hl
    have hf := h.file_eq hlock hl
    rw [Prod.mk.injEq] at hf
    have hxk : x = (k, inode) := Prod.ext hf.1.symm hinode
    exact hnew (hxk ▸ hx)
  · intro j hj
    by_cases hjk : j = k
    · subst hjk
      rw [Function.update_self]
      trivial
    · rw [Function.update_of_ne hjk]
      refine (h.knows j hj).imp (fun _ _ _ => rfl) (fun _ _ => Iff.rfl) ?_
      intro a hx
      cases hx with
      | head => exact absurd rfl hjk
      | tail _ hx => exact hx

/-! ## Steps -/

omit [DecidableEq κ] in
theorem ne_locked_of_idle (hg : gs k = .idle) (file : Nat) (inode : I) :
    gs k ≠ .locked file inode := by
  rw [hg]
  intro hc
  cases hc

theorem Inv.stay (h : Inv w gs) (hg : gs k = .idle) : Inv w (Function.update gs k .idle) := by
  rw [← hg, Function.update_eq_self]
  exact h

variable [DecidableEq I]

theorem Inv.answer (h : Inv w gs) (ha : w.alive k = true) {o : Request} {x : Choice} {r : o.Reply}
    (hmay : may (gs k) o) (he : answer M k o x w = some (w', r)) :
    ∃ g, next M (gs k) o r g ∧ Inv w' (Function.update gs k g) := by
  cases o with
  | print name =>
    have hfit : pidFilePattern.length + (withPid name).length ≤ intMax := hmay.2
    have hr (left : List UInt8) : (skyStrPrintf (M.pathMax + 1) pidFilePattern (withPid name)
        left).2 = pidFileName M.pathMax name := by
      rw [skyStrPrintf, if_pos hfit]
      rfl
    have hsame : w' = w ∧ r = pidFileName M.pathMax name := by
      cases x <;> (simp only [Process.answer, hr] at he; cases he; exact ⟨rfl, rfl⟩)
    obtain ⟨rfl, rfl⟩ := hsame
    exact ⟨_, ⟨rfl, rfl⟩, h.move (fun _ => ne_locked_of_idle hmay.1) fun _ => trivial⟩
  | openFile path =>
    have hg (file : Nat) (inode : I) : gs k ≠ .locked file inode := by
      rw [show gs k = .named path from hmay]
      intro hc
      cases hc
    cases x with
    | place file =>
      simp only [Process.answer] at he
      by_cases hf : w.opened (k, file) = none
      · rw [if_pos hf] at he
        cases he
        exact ⟨_, rfl, h.opened ha hf hg _⟩
      · rw [if_neg hf] at he
        cases he
    | _ =>
      cases he
      exact ⟨_, rfl, h.move (fun _ => hg) fun _ => trivial⟩
  | flock file =>
    obtain ⟨inode, hg⟩ := hmay
    have hk := h.knows k ha
    rw [hg] at hk
    have hopen : w.opened (k, file) = some inode := hk.2.1
    have hfail : Inv w (Function.update gs k .idle) := by
      refine h.move (fun _ _ _ hc => ?_) fun _ => trivial
      rw [hg] at hc
      cases hc
    simp only [Process.answer, World.flock, hopen] at he
    by_cases hx : x = .fail
    · rw [if_pos hx] at he
      cases he
      exact ⟨_, ⟨inode, hg, rfl⟩, hfail⟩
    · rw [if_neg hx] at he
      by_cases hfree : FileLock.Free w.locks (k, file) inode .exclusive
      · rw [if_pos hfree] at he
        cases he
        exact ⟨_, ⟨inode, hg, rfl⟩, h.lock ha hg hfree⟩
      · rw [if_neg hfree] at he
        cases he
        exact ⟨_, ⟨inode, hg, rfl⟩, hfail⟩
  | daemon =>
    simp only [Process.answer] at he
    by_cases hfail : x = .fail
    · rw [if_pos hfail] at he
      cases he
      exact ⟨_, rfl, h.stay hmay⟩
    · rw [if_neg hfail] at he
      cases he
      exact ⟨_, rfl, (h.daemonise M.null).stay hmay⟩
  | setBackground =>
    cases he
    exact ⟨_, rfl, (h.setBackground k).stay hmay⟩
  | isBackground =>
    cases he
    exact ⟨_, rfl, h.stay hmay⟩
  | exit => cases he

/-- A request of a live process is answered, unless it dies. -/
theorem exec_eq {o : Request} {x : Choice} {r : Option o.Reply}
    (he : exec M k o x w = some (w', r)) : w.alive k = true ∧
      (w' = w.die k ∧ r = none ∨ ∃ r', r = some r' ∧ answer M k o x w = some (w', r')) := by
  unfold exec at he
  cases ha : w.alive k with
  | false => simp [ha] at he
  | true =>
    refine ⟨rfl, ?_⟩
    rw [ha, if_neg (by simp)] at he
    by_cases hx : x = .die
    · rw [if_pos hx] at he
      cases he
      exact .inl ⟨rfl, rfl⟩
    · rw [if_neg hx] at he
      obtain ⟨⟨w1, r'⟩, hr, hw⟩ := Option.map_eq_some_iff.1 he
      cases hw
      exact .inr ⟨r', rfl, hr⟩

theorem Inv.reply (h : Inv w gs) {o : Request} {x : Choice} {r : o.Reply} (hmay : may (gs k) o)
    (he : exec M k o x w = some (w', some r)) :
    ∃ g, next M (gs k) o r g ∧ Inv w' (Function.update gs k g) := by
  obtain ⟨ha, ⟨-, hc⟩ | ⟨r', hr, hanswer⟩⟩ := exec_eq he
  · cases hc
  · cases hr
    exact h.answer ha hmay hanswer

theorem Inv.wait (h : Inv w gs) {o : Request} {x : Choice} (he : exec M k o x w = some (w', none)) :
    Inv w' gs := by
  obtain ⟨-, ⟨rfl, -⟩ | ⟨r', hr, -⟩⟩ := exec_eq he
  · exact h.die k
  · cases hr

omit [DecidableEq I] in
theorem Inv.putDown (h : Inv w gs) {c : Call} {r : Bool} (hp : post M c (gs k) r) :
    Inv (putDown M k c r w) (Function.update gs k .idle) := by
  cases c with
  | isFirstInstance name =>
    cases r with
    | false =>
      simp only [Process.putDown, Bool.false_eq_true, false_and, if_false]
      exact h.stay hp
    | true =>
      obtain ⟨file, hg⟩ := hp
      cases ha : w.alive k with
      | false =>
        simp only [Process.putDown, ha, Bool.false_eq_true, and_false, if_false]
        refine h.move (fun hc => ?_) fun hc => ?_
        · rw [ha] at hc
          cases hc
        · rw [ha] at hc
          cases hc
      | true =>
        simp only [Process.putDown, ha, and_self, if_true]
        exact h.tell ha hg
  | setRunInBackground => exact h.stay hp
  | isRunInBackground => exact h.stay hp
  | exit => exact h.stay hp

theorem discipline : (processes (κ := κ) M).Discipline MayCall (fun _ _ _ _ => True) Inv .idle
    (fun _ _ => .idle) (fun _ _ => may) (fun _ _ => next M) (fun _ => post M) where
  safe _ _ _ hc := call_safe M hc
  enter _ _ _ _ _ hg h := h.stay hg
  reply _ _ _ _ _ _ _ _ _ hm h he := h.reply hm he
  wait _ _ _ _ _ _ _ _ _ h he := h.wait he
  leave _ _ _ _ _ hp h := h.putDown hp

/-- In any run in which processes that start with their standard descriptors look for a first
instance, go to the background and die, at most one live process has been told that it is the first
instance of a file, and once. It has the file locked, and not on a standard descriptor. -/
theorem first_unique {as : List (Act κ Call Choice)}
    {t : Conf κ (World κ I) Request Request.Reply Call Bool} (hw : w.Starts)
    (hr : (processes M).Runs MayCall (fun _ _ _ _ => True) (System.idle w) as t) :
    Unique t.shared ∧ ∀ x ∈ t.shared.first, t.shared.alive x.1 = true ∧ ∃ file, 3 ≤ file ∧
      (⟨(x.1, file), x.2, .exclusive⟩ : FileLock (κ × Nat) I) ∈ t.shared.locks := by
  obtain ⟨gs, h⟩ := discipline.inv (Inv.start hw) hr
  refine ⟨h.unique, fun x hx => ?_⟩
  obtain ⟨file, hl⟩ := h.first x hx
  have ha := h.locks _ hl
  exact ⟨ha.alive, file, ha.file, hl⟩

/-! ## Runs -/

/-- `"a"` -/
def nameA : CStr := ⟨[97], CStr.noNul_a⟩

/-- Any two paths are of two files. -/
def plain : Machine (List UInt8) := { pathMax := 4096, inodeOf := id, null := [] }

/-- The standard descriptors are open on `/dev/null`. -/
def World.start (κ : Type) : World κ (List UInt8) :=
  { opened := fun f => if f.2 < 3 then some [] else none
    locks := []
    alive := fun _ => true
    background := fun _ => false
    first := [] }

omit [DecidableEq κ] in
theorem starts_start : (World.start κ).Starts where
  locks := rfl
  first := rfl
  standard _ _ hn := by simp [World.start, hn]

theorem takes_nameA : Takes nameA := by
  unfold Takes
  decide

abbrev Runs : Conf Bool (World Bool (List UInt8)) Request Request.Reply Call Bool →
    List (Act Bool Call Choice) →
    Conf Bool (World Bool (List UInt8)) Request Request.Reply Call Bool → Prop :=
  (processes plain).Runs MayCall fun _ _ _ _ => True

theorem allowed_run (t : Conf Bool (World Bool (List UInt8)) Request Request.Reply Call Bool)
    (k : Bool) (x : Choice) :
    System.Allowed MayCall (fun _ _ _ _ => True) t (.run k x) := fun _ _ _ _ => trivial

def calls (k : κ) (c : Call) (xs : List Choice) : List (Act κ Call Choice) :=
  .start k c :: xs.map (Act.run k) ++ [.finish k]

def callA (k : κ) : List (Act κ Call Choice) :=
  calls k (.isFirstInstance nameA) [.succeed, .place 3, .succeed]

/-- A process is the first instance and goes to the background, and another one asks; it asks again
when the first has died. -/
theorem first_unique_two : ∃ as t, Runs (System.idle (World.start Bool)) as t ∧
    t.shared.first = [(true, plain.pidFile nameA)] ∧ t.shared.background false = true ∧
    Unique t.shared ∧ ∀ x ∈ t.shared.first, t.shared.alive x.1 = true ∧ ∃ file, 3 ≤ file ∧
      (⟨(x.1, file), x.2, .exclusive⟩ : FileLock (Bool × Nat) (List UInt8)) ∈ t.shared.locks := by
  obtain ⟨t1, hfirst, ha1, t2, hback, ha2, t3, hrefused, ha3, t4, hstart, t5, hdie, ha5, t6, hagain,
      hresult⟩ :
      ∃ t1, (processes plain).run (System.idle (World.start Bool)) (callA false) = some t1 ∧
        t1.shared.alive false = true ∧
      ∃ t2, (processes plain).run t1 (calls false .setRunInBackground [.succeed, .succeed]) =
          some t2 ∧ t2.shared.alive true = true ∧
      ∃ t3, (processes plain).run t2 (callA true) = some t3 ∧ t3.shared.alive false = true ∧
      ∃ t4, (processes plain).step t3 (.start false .exit) = some t4 ∧
      ∃ t5, (processes plain).step t4 (.run false .die) = some t5 ∧ t5.shared.alive true = true ∧
      ∃ t6, (processes plain).run t5 (calls true (.isFirstInstance nameA)
          [.succeed, .place 4, .succeed]) = some t6 ∧
        t6.shared.first = [(true, plain.pidFile nameA)] ∧ t6.shared.background false = true :=
    ⟨_, rfl, rfl, _, rfl, rfl, _, rfl, rfl, _, rfl, _, rfl, rfl, _, rfl, rfl, rfl⟩
  have hfirst : Runs _ _ t1 := System.runs_call ⟨rfl, takes_nameA⟩ (fun _ _ => trivial) hfirst
  have hback : Runs t1 _ t2 := System.runs_call ⟨ha1, trivial⟩ (fun _ _ => trivial) hback
  have hrefused : Runs t2 _ t3 :=
    System.runs_call ⟨ha2, takes_nameA⟩ (fun _ _ => trivial) hrefused
  have hdeath : Runs t3 _ t5 :=
    .start ⟨ha3, trivial⟩ hstart (.cons (allowed_run t4 false .die) hdie (.nil t5))
  have hagain : Runs t5 _ t6 := System.runs_call ⟨ha5, takes_nameA⟩ (fun _ _ => trivial) hagain
  have hruns := hfirst.append (hback.append (hrefused.append (hdeath.append hagain)))
  exact ⟨_, t6, hruns, hresult.1, hresult.2, first_unique starts_start hruns⟩

/-- Without a standard input the pid file is the descriptor 0, whose lock is lost in the background:
two live processes are told. -/
theorem first_twice : ∃ as t, Runs (System.idle { World.start Bool with
      opened := fun f => if f.2 = 1 ∨ f.2 = 2 then some [] else none }) as t ∧
    t.shared.alive true = true ∧ t.shared.alive false = true ∧
    t.shared.first = [(true, plain.pidFile nameA), (false, plain.pidFile nameA)] := by
  obtain ⟨t1, hfirst, ha1, t2, hback, ha2, t3, hsecond, hresult⟩ :
      ∃ t1, (processes plain).run (System.idle { World.start Bool with
          opened := fun f => if f.2 = 1 ∨ f.2 = 2 then some [] else none })
          (calls false (.isFirstInstance nameA) [.succeed, .place 0, .succeed]) = some t1 ∧
        t1.shared.alive false = true ∧
      ∃ t2, (processes plain).run t1 (calls false .setRunInBackground [.succeed, .succeed]) =
          some t2 ∧ t2.shared.alive true = true ∧
      ∃ t3, (processes plain).run t2 (callA true) = some t3 ∧ t3.shared.alive true = true ∧
        t3.shared.alive false = true ∧
        t3.shared.first = [(true, plain.pidFile nameA), (false, plain.pidFile nameA)] :=
    ⟨_, rfl, rfl, _, rfl, rfl, _, rfl, rfl, rfl, rfl⟩
  have hfirst : Runs _ _ t1 := System.runs_call ⟨rfl, takes_nameA⟩ (fun _ _ => trivial) hfirst
  have hback : Runs t1 _ t2 := System.runs_call ⟨ha1, trivial⟩ (fun _ _ => trivial) hback
  have hsecond : Runs t2 _ t3 := System.runs_call ⟨ha2, takes_nameA⟩ (fun _ _ => trivial) hsecond
  exact ⟨_, t3, hfirst.append (hback.append hsecond), hresult⟩

end Sky.Process
