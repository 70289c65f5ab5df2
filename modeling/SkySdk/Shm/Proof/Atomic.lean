import SkySdk.Base.Refine
import SkySdk.Shm.Proof.Names
import SkySdk.Shm.Proof.Places

/-!
# The section makes the operations on the registry atomic

A thread is between the two steps of an operation only inside of `share_mem_list_cs`, where it is
alone, so that the list it has read is still the registry when it writes (`Guarded`). What threads
do to a process is then what threads whose operations take one step do (`threads_atomic`).
-/

set_option autoImplicit false

namespace Sky.Shm

open Base

variable {ι : Type} [DecidableEq ι] {s s' : Shared ι} {w w' : Local} {gs : ι → Whereabouts}
  {i j : ι} {g' : Whereabouts} {b : Build} {nameMax : Nat} {x : Choice}

/-- What the mutex counts for a thread. -/
def depthIn (g : Whereabouts) : Nat := if g.phase = .outside then 0 else 1

/-- Who is between the steps of an operation is inside of the section, and has read the registry as
it is. -/
structure Guarded (s : Shared ι) (gs : ι → Whereabouts) : Prop where
  depth : ∀ i, s.mutex.depth i = depthIn (gs i)
  reading : ∀ i ps, s.reading i = some ps → (gs i).phase = .entered ∧ ps = s.toLocal.registry

theorem Guarded.start : Guarded (Shared.start ι) fun _ => out .nowhere where
  depth _ := rfl
  reading _ _ h := by cases h

theorem Guarded.alone (h : Guarded s gs) (hi : (gs i).phase ≠ .outside) (hj : j ≠ i) :
    (gs j).phase = .outside := by
  have hdi := h.depth i
  have hdj := h.depth j
  rw [depthIn, if_neg hi] at hdi
  by_contra hin
  rw [depthIn, if_neg hin] at hdj
  cases s.mutex.depth_exclusive hj with
  | inl h0 => omega
  | inr h0 => omega

theorem Guarded.reading_none (h : Guarded s gs) (hi : (gs i).phase ≠ .entered) :
    s.reading i = none := by
  cases hr : s.reading i with
  | none => rfl
  | some ps => exact absurd (h.reading i ps hr).1 hi

/-- A request that does not concern the section or the list. -/
theorem Guarded.other (h : Guarded s gs) (hphase : g'.phase = (gs i).phase)
    (hregistry : w'.registry = s.toLocal.registry) :
    Guarded { s with toLocal := w' } (Function.update gs i g') where
  depth j := by
    by_cases hj : j = i
    · subst hj
      rw [Function.update_self, depthIn, hphase]
      exact h.depth j
    · rw [Function.update_of_ne hj]
      exact h.depth j
  reading j ps hr := by
    obtain ⟨hin, hps⟩ := h.reading j ps hr
    refine ⟨?_, hps.trans hregistry.symm⟩
    by_cases hj : j = i
    · subst hj
      rw [Function.update_self, hphase]
      exact hin
    · rw [Function.update_of_ne hj]
      exact hin

theorem Guarded.relock (h : Guarded s gs) {m : RecMutex ι} (hi : (gs i).phase ≠ .entered)
    (hself : m.depth i = depthIn g') (hothers : ∀ j, j ≠ i → m.depth j = s.mutex.depth j) :
    Guarded { s with mutex := m } (Function.update gs i g') where
  depth j := by
    by_cases hj : j = i
    · subst hj
      rw [Function.update_self]
      exact hself
    · rw [Function.update_of_ne hj]
      exact (hothers j hj).trans (h.depth j)
  reading j ps hr := by
    have hj : j ≠ i := by
      intro hj
      rw [hj, h.reading_none hi] at hr
      cases hr
    rw [Function.update_of_ne hj]
    exact h.reading j ps hr

theorem Guarded.read (h : Guarded s gs) (hi : (gs i).phase = .entered) :
    Guarded { s with reading := Function.update s.reading i (some s.toLocal.registry) } gs where
  depth := h.depth
  reading j ps hr := by
    dsimp only at hr
    by_cases hj : j = i
    · subst hj
      rw [Function.update_self] at hr
      exact ⟨hi, (Option.some.inj hr).symm⟩
    · rw [Function.update_of_ne hj] at hr
      exact h.reading j ps hr

theorem Guarded.write (h : Guarded s gs) (hi : (gs i).phase = .entered)
    (hg : g'.phase = .finished) (w' : Local) :
    Guarded { s with toLocal := w', reading := Function.update s.reading i none }
      (Function.update gs i g') where
  depth j := by
    by_cases hj : j = i
    · subst hj
      rw [Function.update_self, h.depth j, depthIn, depthIn, hi, hg]
      rfl
    · rw [Function.update_of_ne hj]
      exact h.depth j
  reading j ps hr := by
    dsimp only at hr
    have hj : j ≠ i := by
      intro hj
      rw [hj, Function.update_self] at hr
      cases hr
    rw [Function.update_of_ne hj] at hr
    obtain ⟨hin, -⟩ := h.reading j ps hr
    have hout := h.alone (by rw [hi]; decide) hj
    rw [hout] at hin
    cases hin

/-! ## Requests -/

/-- The requests that concern the blocks or the registry. -/
def Request.OnHandles : Request → Prop
  | .alloc | .free _ | .store _ _ | .pushBack _ | .remove _ => True
  | _ => False

theorem exec_other {o : Request} {r : Option o.Reply} {u u' : World Unit} (ho : ¬ o.OnHandles)
    (he : Shm.exec b () o x u = some (u', r)) :
    u'.registry = u.registry ∧ u'.blocks = u.blocks := by
  cases o with
  | alloc => exact absurd trivial ho
  | free p => exact absurd trivial ho
  | store p sm => exact absurd trivial ho
  | pushBack p => exact absurd trivial ho
  | remove p => exact absurd trivial ho
  | load p =>
    obtain ⟨sm, -, he⟩ := Option.map_eq_some_iff.1 he
    cases he
    exact ⟨rfl, rfl⟩
  | print size before name => cases x <;> (cases he; exact ⟨rfl, rfl⟩)
  | shmOpen name create =>
    simp only [Shm.exec] at he
    split at he
    · cases he
      exact ⟨rfl, rfl⟩
    · cases he
      unfold World.shmOpen
      split <;> exact ⟨rfl, rfl⟩
  | ftruncate file size =>
    simp only [Shm.exec] at he
    split at he
    · cases he
      exact ⟨rfl, rfl⟩
    · cases he
      unfold World.ftruncate
      split <;> exact ⟨rfl, rfl⟩
  | shmUnlink name =>
    simp only [Shm.exec] at he
    split at he <;> (cases he; exact ⟨rfl, rfl⟩)
  | fstat | mmap | munmap | close | enter | leave | validate | assertFalse =>
    rw [exec_quiet (by exact trivial) he]
    exact ⟨rfl, rfl⟩

theorem exec_registry {o : Request} {r : Option o.Reply} (hpush : ∀ p, o ≠ .pushBack p)
    (hremove : ∀ p, o ≠ .remove p) (he : w.exec b o x = some (w', r)) :
    w'.registry = w.registry := by
  obtain ⟨⟨u, r'⟩, hu, he⟩ := Option.map_eq_some_iff.1 he
  have hsame : u.registry = w.process.registry := by
    cases o with
    | pushBack p => exact absurd rfl (hpush p)
    | remove p => exact absurd rfl (hremove p)
    | alloc =>
      cases x with
      | place p =>
        simp only [Shm.exec] at hu
        split at hu <;> cases hu
        rfl
      | _ =>
        cases hu
        rfl
    | free | store =>
      cases hu
      rfl
    | _ => exact (exec_other id hu).1
  cases he
  exact congrFun hsame ()

theorem Guarded.listOp (h : Guarded s gs) {α : Type} {op : Local → Option (Local × Option α)}
    {r : α} (he : s.listOp i op = some (s', some r)) :
    op s.toLocal = some (s'.toLocal, some r) ∧
      s' = { s with toLocal := s'.toLocal, reading := Function.update s.reading i none } := by
  unfold Shared.listOp at he
  cases hr : s.reading i with
  | none =>
    rw [hr] at he
    cases he
  | some ps =>
    rw [hr] at he
    obtain ⟨⟨w1, r1⟩, hy, he⟩ := Option.map_eq_some_iff.1 he
    have hsame : s.toLocal.process.setRegistry () ps = s.toLocal.process := by
      rw [(h.reading i ps hr).2, World.setRegistry, Local.registry, Function.update_eq_self]
    rw [hsame] at hy
    cases he
    exact ⟨hy, rfl⟩

/-- A request that concerns neither the section nor the list. -/
def Request.Plain : Request → Prop
  | .enter | .leave | .pushBack _ | .remove _ => False
  | _ => True

theorem moves_phase {o : Request} {r : o.Reply} {g : Whereabouts} (ho : o.Plain)
    (hallows : allows g o) (hmoves : moves g o r g') : g'.phase = g.phase := by
  cases o with
  | alloc =>
    rw [show g' = out _ from hmoves, show g = out _ from hallows]
  | free p =>
    rw [show g' = out _ from hmoves, show g = out _ from hallows]
  | enter => exact ho.elim
  | leave => exact ho.elim
  | pushBack p => exact ho.elim
  | remove p => exact ho.elim
  | _ => exact congrArg Whereabouts.phase hmoves

theorem exists_moves (g : Whereabouts) {o : Request} (r : o.Reply) : ∃ g', moves g o r g' := by
  cases o <;> exact ⟨_, rfl⟩

theorem exec_plain {o : Request} (ho : o.Plain) : s.exec b i o x =
    (s.toLocal.exec b o x).map fun r => ({ s with toLocal := r.1 }, r.2) := by
  cases o with
  | enter => exact ho.elim
  | leave => exact ho.elim
  | pushBack p => exact ho.elim
  | remove p => exact ho.elim
  | _ => rfl

theorem Guarded.plain (h : Guarded s gs) {o : Request} {r : o.Reply} (ho : o.Plain)
    (hallows : allows (gs i) o) (he : s.exec b i o x = some (s', some r)) :
    s.toLocal.exec b o x = some (s'.toLocal, some r) ∧
      ∀ g, moves (gs i) o r g → Guarded s' (Function.update gs i g) := by
  rw [exec_plain ho] at he
  obtain ⟨⟨w1, r1⟩, hw, he⟩ := Option.map_eq_some_iff.1 he
  cases he
  refine ⟨hw, ?_⟩
  intro g hg
  refine h.other (moves_phase ho hallows hg) (exec_registry ?_ ?_ hw)
  · rintro p rfl
    exact ho
  · rintro p rfl
    exact ho

theorem Guarded.reply (h : Guarded s gs) {o : Request} {r : o.Reply} (hallows : allows (gs i) o)
    (he : s.exec b i o x = some (s', some r)) :
    s.toLocal.exec b o x = some (s'.toLocal, some r) ∧
      ∀ g, moves (gs i) o r g → Guarded s' (Function.update gs i g) := by
  cases o with
  | enter =>
    have hi : (gs i).phase = .outside := hallows
    obtain ⟨⟨m, ok⟩, hl, he⟩ := Option.map_eq_some_iff.1 he
    cases he
    have hd := h.depth i
    rw [depthIn, if_pos hi] at hd
    obtain ⟨-, hself, hothers⟩ := RecMutex.lock_depth hl (by rw [hd]; decide)
    refine ⟨rfl, ?_⟩
    intro g hg
    subst hg
    refine h.relock (by rw [hi]; decide) ?_ hothers
    rw [hself, hd]
    rfl
  | leave =>
    have hi : (gs i).phase = .finished := hallows
    cases he
    have hd := h.depth i
    rw [depthIn, hi] at hd
    obtain ⟨hself, hothers⟩ := RecMutex.unlock_depth i s.mutex
    refine ⟨rfl, ?_⟩
    intro g hg
    subst hg
    refine h.relock (by rw [hi]; decide) ?_ hothers
    rw [hself, hd]
    rfl
  | pushBack p =>
    have hi : gs i = ⟨.fresh p, .entered⟩ := hallows
    have he : s.listOp i (fun w => w.exec b (.pushBack p) x) = some (s', some r) := he
    obtain ⟨hop, hs'⟩ := h.listOp he
    refine ⟨hop, ?_⟩
    intro g hg
    rw [hs']
    exact h.write (by rw [hi]) (by rw [show g = _ from hg]) _
  | remove p =>
    have hi : gs i = ⟨if p = 0 then .nowhere else .taken p, .entered⟩ := hallows
    have he : s.listOp i (fun w => w.exec b (.remove p) x) = some (s', some r) := he
    obtain ⟨hop, hs'⟩ := h.listOp he
    refine ⟨hop, ?_⟩
    intro g hg
    rw [hs']
    exact h.write (by rw [hi]) (by rw [show g = _ from hg]) _
  | _ => exact h.plain trivial hallows he

theorem Guarded.firstStep (h : Guarded s gs) (hi : (gs i).phase = .entered) {α : Type}
    {op : Local → Option (Local × Option α)} (hop : ∀ w w', op w ≠ some (w', none))
    (he : s.listOp i op = some (s', none)) : s'.toLocal = s.toLocal ∧ Guarded s' gs := by
  unfold Shared.listOp at he
  cases hr : s.reading i with
  | none =>
    rw [hr] at he
    cases he
    exact ⟨rfl, h.read hi⟩
  | some ps =>
    rw [hr] at he
    obtain ⟨⟨w1, r1⟩, hw, he⟩ := Option.map_eq_some_iff.1 he
    cases he
    exact absurd hw (hop _ _)

theorem exec_answers {o : Request} : w.exec b o x ≠ some (w', none) := by
  intro he
  obtain ⟨⟨u, r⟩, hu, he⟩ := Option.map_eq_some_iff.1 he
  cases he
  exact exec_replies hu rfl

theorem plain_answers {o : Request} (ho : o.Plain) : s.exec b i o x ≠ some (s', none) := by
  intro he
  rw [exec_plain ho] at he
  obtain ⟨⟨w1, r1⟩, hw, he⟩ := Option.map_eq_some_iff.1 he
  cases he
  exact exec_answers hw

/-- A request that is not answered is the first step of an operation. -/
theorem Guarded.wait (h : Guarded s gs) {o : Request} (hallows : allows (gs i) o)
    (he : s.exec b i o x = some (s', none)) : s'.toLocal = s.toLocal ∧ Guarded s' gs := by
  cases o with
  | enter =>
    obtain ⟨y, -, he⟩ := Option.map_eq_some_iff.1 he
    cases he
  | leave => cases he
  | pushBack p =>
    have he : s.listOp i (fun w => w.exec b (.pushBack p) x) = some (s', none) := he
    exact h.firstStep (by rw [show gs i = _ from hallows]) (fun _ _ => exec_answers) he
  | remove p =>
    have he : s.listOp i (fun w => w.exec b (.remove p) x) = some (s', none) := he
    exact h.firstStep (by rw [show gs i = _ from hallows]) (fun _ _ => exec_answers) he
  | _ => exact absurd he (plain_answers (by exact trivial))

theorem firstPlace_phase (c : Call) : (firstPlace c).phase = .outside := by
  cases c <;> rfl

theorem lastPlace_phase {c : Call} {g : Whereabouts} {r : Resp} (h : lastPlace c g r) :
    g.phase = .outside := by
  cases c with
  | destroy p => rw [show g = out _ from h]
  | _ =>
    cases r with
    | handle p => rw [show g = out _ from h]
    | destroyed r => exact h.elim

theorem takeBack_registry (c : Call) : (w.takeBack c).registry = w.registry := by
  cases c <;> rfl

theorem handOut_registry (c : Call) (r : Resp) : (w.handOut c r).registry = w.registry := by
  unfold Local.handOut
  split
  · rfl
  · split <;> rfl
  · rfl

theorem guarded_discipline (ok : ι → Call → Shared ι → Prop) :
    (threads ι b nameMax).Discipline ok (fun _ _ _ _ => True) Guarded (out .nowhere)
      (fun _ => firstPlace) (fun _ _ => allows) (fun _ _ => moves) (fun _ => lastPlace) where
  safe _ c _ _ := call_placed c
  enter i c s gs _ hg h := by
    refine h.other ?_ (takeBack_registry c)
    rw [hg]
    exact firstPlace_phase c
  reply i c o x s gs s' r _ hm h he := by
    obtain ⟨-, hmoves⟩ := h.reply hm he
    obtain ⟨g, hg⟩ := exists_moves (gs i) r
    exact ⟨g, hg, hmoves g hg⟩
  wait _ _ _ _ _ _ _ _ hm h he := (h.wait hm he).2
  leave i c r s gs hp h := h.other (lastPlace_phase hp).symm (handOut_registry c r)

theorem refines_atomic : (threads ι b nameMax).Refines (atomicThreads ι b nameMax) Shared.toLocal
    Guarded (fun _ _ => allows) where
  body _ := rfl
  enter _ _ _ := rfl
  leave _ _ _ _ := rfl
  reply _ _ _ _ _ _ _ _ hm h he := (h.reply hm he).1
  wait _ _ _ _ _ _ _ hm h he := (h.wait hm he).1

theorem guarded_start : System.Discipline.Holds Guarded (out .nowhere) (fun _ _ => allows)
    (fun _ _ => moves) (fun _ => lastPlace)
    (System.idle (Shared.start ι) : Conf ι (Shared ι) Request Request.Reply Call Resp) :=
  ⟨fun _ => out .nowhere, .start, fun _ => rfl⟩

theorem runs_atomic {ok : ι → Call → Local → Prop} {as : List (Act ι Call Choice)}
    {t : Conf ι (Shared ι) Request Request.Reply Call Resp}
    (hr : (threads ι b nameMax).Runs (fun i c s => ok i c s.toLocal) (fun _ _ _ _ => True)
      (System.idle (Shared.start ι)) as t) :
    ∃ as', as'.Sublist as ∧ (atomicThreads ι b nameMax).Runs ok (fun _ _ _ _ => True)
      (System.idle Local.start) as' (t.map Shared.toLocal) :=
  refines_atomic.runs (guarded_discipline _) (fun _ _ _ h => h) (fun _ _ _ _ _ => trivial) hr
    guarded_start

/-- In any run of any threads, no two are in an operation on the registry, and the process and what
the calls know of it are those of a run in which each operation takes one step. -/
theorem threads_atomic {ok : ι → Call → Local → Prop} {as : List (Act ι Call Choice)}
    {t : Conf ι (Shared ι) Request Request.Reply Call Resp}
    (hr : (threads ι b nameMax).Runs (fun i c s => ok i c s.toLocal) (fun _ _ _ _ => True)
      (System.idle (Shared.start ι)) as t) :
    (∀ i j, t.shared.reading i ≠ none → t.shared.reading j ≠ none → i = j) ∧
      ∃ as', as'.Sublist as ∧ (atomicThreads ι b nameMax).Runs ok (fun _ _ _ _ => True)
        (System.idle Local.start) as' (t.map Shared.toLocal) := by
  refine ⟨?_, runs_atomic hr⟩
  obtain ⟨gs, h⟩ := (guarded_discipline _).inv Guarded.start hr
  intro i j hi hj
  obtain ⟨ps, hps⟩ := Option.ne_none_iff_exists'.1 hi
  obtain ⟨qs, hqs⟩ := Option.ne_none_iff_exists'.1 hj
  obtain ⟨hpi, -⟩ := h.reading i ps hps
  obtain ⟨hpj, -⟩ := h.reading j qs hqs
  by_contra hij
  have hout := h.alone (by rw [hpi]; decide) (Ne.symm hij)
  rw [hpj] at hout
  cases hout

/-! ## Runs -/

/-- The choices of a `create` or an `open` that puts its struct at `p`. -/
def filled (p : Addr) : List Choice :=
  [.place p, .succeed, .succeed, .succeed, .place 4096, .succeed, .succeed, .succeed, .succeed,
    .succeed]

/-- A thread has read the registry, and another one waits to enter the section. -/
def inBetween : List (Act Bool Call Choice) :=
  .start false (.create (some nameA) 8) :: ((filled 8).take 8).map (Act.run false) ++
    .start true (.open (some nameA)) :: ((filled 16).take 6).map (Act.run true)

/-- The run up to there. -/
theorem threads_atomic_two : ∃ t, (threads Bool ⟨0, false⟩ 64).run (System.idle (Shared.start Bool))
      inBetween = some t ∧ (t.shared.reading false = some [] ∧ t.calls true ≠ none) ∧
    (∀ i j, t.shared.reading i ≠ none → t.shared.reading j ≠ none → i = j) ∧
      ∃ as', as'.Sublist inBetween ∧ (atomicThreads Bool ⟨0, false⟩ 64).Runs (fun _ _ _ => True)
        (fun _ _ _ _ => True) (System.idle Local.start) as' (t.map Shared.toLocal) := by
  obtain ⟨t, ht, hlast⟩ : ∃ t, (threads Bool ⟨0, false⟩ 64).run
      (System.idle (Shared.start Bool)) inBetween = some t ∧
      (t.shared.reading false = some [] ∧ t.calls true ≠ none) :=
    ⟨_, rfl, rfl, Option.some_ne_none _⟩
  have hruns := System.runs_of_run (S := threads Bool ⟨0, false⟩ 64)
    (fun _ _ _ => trivial) (fun _ _ _ _ => trivial) inBetween _ t ht
  exact ⟨t, ht, hlast, threads_atomic hruns⟩

end Sky.Shm
