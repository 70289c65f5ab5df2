import SkySdk.Init.Defs

/-!
# Runs of `sky_init` and `sky_uninit`

`sky_uninit`'s table runs backwards over the modules, but the rollback of a failing `sky_init` reads
it with the index of `sky_init`'s own, and the table has `sky_mem_init` where `sky_mem_uninit`
belongs. So a run keeps its modules in step with `init_count` exactly as long as no `sky_init` fails
behind the first module and `init_count` does not go from 1 to 0 (`call_meets_iff`). Nor does
anything keep it from going below 0 (`call_counts_iff`).
-/

set_option autoImplicit false

namespace Sky.Init

open Base

variable {env : Nat → Bool} {s s' : State} {cs : List Call} {m : Module} {f : Func} {i k n : Nat}

/-! ## The tables -/

/-- The modules in the order of `INIT_FUNCS`. -/
def modules : List Module :=
  [ .debug, .criticalSection, .mem, .list, .sys, .str, .hash, .regex, .dll, .process, .rwlock,
    .shareMemory, .base64, .map ]

def Func.module : Func → Module
  | .init m => m
  | .uninit m => m

theorem initFuncs_eq : initFuncs = modules.map .init := rfl

theorem mem_modules (m : Module) : m ∈ modules := by
  cases m <;> decide

theorem entry_init {m : Module} (hm : modules[i]? = some m) (s : State) :
    entry initFuncs i s = .ok (.init m, s) := by
  have hf : initFuncs[i]? = some (.init m) := by
    rw [initFuncs_eq, List.getElem?_map, hm]
    rfl
  simp only [entry, hf]

theorem entry_uninit (hi : i < initFuncCnt) (s : State) :
    ∃ f ∈ uninitFuncs, uninitFuncs[i]? = some f ∧ entry uninitFuncs i s = .ok (f, s) := by
  have hlt : i < uninitFuncs.length := hi
  refine ⟨uninitFuncs[i], List.getElem_mem hlt, List.getElem?_eq_getElem hlt, ?_⟩
  simp only [entry, List.getElem?_eq_getElem hlt]

/-! ## One table entry -/

variable (env) in
/-- An entry leaves the other modules and `init_count` alone. -/
theorem callFunc_other (hf : f.module ≠ m) (s : State) :
    ∃ r s', callFunc env f s = .ok (r, s') ∧ s'.up m = s.up m ∧ s'.initCount = s.initCount := by
  cases f with
  | init m' =>
    have hup : Function.update s.up m' true m = s.up m := Function.update_of_ne (Ne.symm hf) _ _
    unfold callFunc
    by_cases he : env s.tries = true
    · exact ⟨_, _, if_pos he, hup, rfl⟩
    · exact ⟨_, _, if_neg he, rfl, rfl⟩
  | uninit m' => exact ⟨_, _, rfl, Function.update_of_ne (Ne.symm hf) _ _, rfl⟩

variable (env) in
/-- Nothing but its own uninitialiser takes a module down. -/
theorem callFunc_keeps (hf : f ≠ .uninit m) (hm : s.up m = true) :
    ∃ r s', callFunc env f s = .ok (r, s') ∧ s'.up m = true ∧ s'.initCount = s.initCount := by
  by_cases hmod : f.module = m
  · cases f with
    | init m' =>
      subst hmod
      unfold callFunc
      by_cases he : env s.tries = true
      · exact ⟨_, _, if_pos he, Function.update_self _ _ _, rfl⟩
      · exact ⟨_, _, if_neg he, hm, rfl⟩
    | uninit m' => exact absurd (congrArg Func.uninit hmod) hf
  · obtain ⟨r, s', hx, hup, hc⟩ := callFunc_other env hmod s
    exact ⟨r, s', hx, hup.trans hm, hc⟩

/-! ## The loops -/

/-- The state after the initialisers of `ms` have succeeded. -/
def State.bringUp (s : State) (ms : List Module) : State :=
  { s with up := fun m => s.up m || decide (m ∈ ms), tries := s.tries + ms.length,
           log := (ms.map Event.up).reverse ++ s.log }

/-- The state after the initialiser of `m` has failed. -/
def State.fail (s : State) (m : Module) : State :=
  { s with tries := s.tries + 1, log := .failed m :: s.log }

theorem bringUp_nil (s : State) : s.bringUp [] = s := by
  simp [State.bringUp]

theorem bringUp_cons (s : State) (m : Module) (ms : List Module) :
    (s.bringUp [m]).bringUp ms = s.bringUp (m :: ms) := by
  unfold State.bringUp
  simp only [List.mem_cons, List.length_cons, List.length_nil, List.map_cons, List.map_nil,
    List.reverse_cons, List.reverse_nil, List.nil_append, List.append_assoc, List.cons_append,
    State.mk.injEq, true_and, and_true]
  refine ⟨funext fun x => ?_, by omega⟩
  by_cases hx : x = m <;> simp [hx]

theorem callFunc_init (m : Module) (s : State) :
    callFunc env (.init m) s =
      if env s.tries = true then .ok (true, s.bringUp [m]) else .ok (false, s.fail m) := by
  have hup : Function.update s.up m true = fun x => s.up x || decide (x ∈ [m]) := by
    funext x
    by_cases hx : x = m
    · subst hx
      simp
    · simp [hx]
  simp only [callFunc, State.bringUp, State.fail, hup]
  rfl

variable (env) in
/-- The loop of `sky_init`: all the initialisers from `i` on succeed, or those before some
`i + k` do and that one fails. -/
theorem initFrom_cases : ∀ (n i : Nat) (s : State), i + n = modules.length →
    ((∀ j < n, env (s.tries + j) = true) ∧
        initFrom env i n s = .ok (true, s.bringUp (modules.drop i))) ∨
      ∃ k m, k < n ∧ (∀ j < k, env (s.tries + j) = true) ∧ env (s.tries + k) = false ∧
        modules[i + k]? = some m ∧ initFrom env i n s =
          (do undoFrom env (i + k); pure false) ((s.bringUp ((modules.drop i).take k)).fail m)
  | 0, i, s, hi => by
    have hdrop : modules.drop i = [] := List.drop_eq_nil_of_le (Nat.le_of_eq hi.symm)
    rw [hdrop, bringUp_nil]
    exact .inl ⟨fun j hj => absurd hj (Nat.not_lt_zero j), rfl⟩
  | n + 1, i, s, hi => by
    have hlt : i < modules.length := by omega
    have hget : modules[i]? = some modules[i] := List.getElem?_eq_getElem hlt
    have hdrop : modules.drop i = modules[i] :: modules.drop (i + 1) :=
      List.drop_eq_getElem_cons hlt
    have hfirst : initFrom env i (n + 1) s =
        if env s.tries = true then initFrom env (i + 1) n (s.bringUp [modules[i]])
        else (do undoFrom env i; pure false) (s.fail modules[i]) := by
      rw [initFrom, bind_apply, entry_init hget]
      dsimp only
      rw [bind_apply, callFunc_init]
      by_cases he : env s.tries = true
      · simp only [if_pos he, if_true]
      · simp only [if_neg he, Bool.false_eq_true, if_false]
    by_cases he : env s.tries = true
    · rw [hfirst, if_pos he, hdrop]
      have hnext : ∀ j, env ((s.bringUp [modules[i]]).tries + j) = env (s.tries + (j + 1)) := by
        intro j
        exact congrArg env (by simp only [State.bringUp, List.length_singleton]; omega)
      have hall : ∀ k, (∀ j < k, env ((s.bringUp [modules[i]]).tries + j) = true) →
          ∀ j < k + 1, env (s.tries + j) = true := by
        intro k hk j hj
        cases j with
        | zero => exact he
        | succ j => exact (hnext j).symm.trans (hk j (by omega))
      rcases initFrom_cases n (i + 1) (s.bringUp [modules[i]]) (by omega) with
        ⟨hup, hx⟩ | ⟨k, m, hk, hup, hf, hm, hx⟩
      · exact .inl ⟨hall n hup, by rw [hx, bringUp_cons]⟩
      · refine .inr ⟨k + 1, m, by omega, hall k hup, (hnext k).symm.trans hf, ?_, ?_⟩
        · rwa [show i + (k + 1) = i + 1 + k by omega]
        · rw [hx, bringUp_cons, List.take_succ_cons, show i + (k + 1) = i + 1 + k by omega]
    · refine .inr ⟨0, modules[i], by omega, fun j hj => absurd hj (Nat.not_lt_zero j), ?_, hget, ?_⟩
      · simpa using he
      · rw [hfirst, if_neg he, List.take_zero, bringUp_nil]
        rfl

variable (env) in
/-- The rollback of a failure behind the first module ends with `sky_map_uninit`. -/
theorem undoFrom_map : ∀ (j : Nat) (s : State), j < initFuncCnt →
    ∃ s' es, undoFrom env (j + 1) s = .ok ((), s') ∧ s'.log = .down .map (s.up .map) :: es
  | 0, s, _ => ⟨_, _, rfl, rfl⟩
  | j + 1, s, hj => by
    obtain ⟨f, -, hget, hentry⟩ := entry_uninit hj s
    have htail : f ∈ uninitFuncs.tail := List.mem_iff_getElem?.2 ⟨j, hget⟩
    have hne : ∀ f ∈ uninitFuncs.tail, f.module ≠ .map := by decide
    obtain ⟨r, s1, hcall, hup, -⟩ := callFunc_other env (hne f htail) s
    obtain ⟨s', es, hx, hlog⟩ := undoFrom_map j s1 (Nat.lt_of_succ_lt hj)
    refine ⟨s', es, ?_, by rw [hlog, hup]⟩
    rw [undoFrom, bind_apply, hentry]
    dsimp only
    rw [bind_apply, hcall]
    exact hx

variable (env) in
/-- The loop of `sky_uninit` leaves `mem` up. -/
theorem uninitFrom_mem : ∀ (n i : Nat) (s : State), i + n = initFuncCnt → s.up .mem = true →
    ∃ s', uninitFrom env i n s = .ok ((), s') ∧ s'.up .mem = true ∧ s'.initCount = s.initCount
  | 0, i, s, _, hm => ⟨s, rfl, hm, rfl⟩
  | n + 1, i, s, hi, hm => by
    obtain ⟨f, hmem, -, hentry⟩ := entry_uninit (i := i) (by omega) s
    have hne : ∀ f ∈ uninitFuncs, f ≠ .uninit .mem := by decide
    obtain ⟨r, s1, hcall, hup, hc⟩ := callFunc_keeps env (hne f hmem) hm
    obtain ⟨s', hx, hm', hc'⟩ := uninitFrom_mem n (i + 1) s1 (by omega) hup
    refine ⟨s', ?_, hm', hc'.trans hc⟩
    rw [uninitFrom, bind_apply, hentry]
    dsimp only
    rw [bind_apply, hcall]
    exact hx

/-! ## Failing initialisers -/

/-- All modules are up and `init_count` is positive, or none is and it is 0. -/
def Consistent (s : State) : Prop :=
  (0 < s.initCount ∧ ∀ m, s.up m = true) ∨ (s.initCount = 0 ∧ ∀ m, s.up m = false)

/-- A call that returned `r`: the modules and `init_count` are in step, nothing was taken down that
was not up, and a failure took down what it had brought up, in reverse order. -/
def Meets (s : State) (r : Option Bool) (s' : State) : Prop :=
  Consistent s' ∧ ∃ es, s'.log = es ++ s.log ∧ (∀ m, Event.down m false ∉ es) ∧
    (r = some false → ∃ (ms : List Module) (m : Module),
      es.reverse = ms.map .up ++ .failed m :: ms.reverse.map (.down · true))

/-- `sky_uninit` is called only after a matching successful `sky_init`: `init_count` is the number
of these less that of the calls of `sky_uninit`. -/
def Matched (s : State) : Call → Prop
  | .init => True
  | .uninit => 0 < s.initCount

/-- No initialiser fails but the first, and `init_count` does not go from 1 to 0 (nor past
`INT_MAX`). -/
def Keeps (env : Nat → Bool) (s : State) : Call → Prop
  | .init => s.initCount < intMax ∧ (s.initCount = 0 →
    env s.tries = false ∨ ∀ i < initFuncCnt, env (s.tries + i) = true)
  | .uninit => s.initCount ≠ 1

theorem incCount_eq (hs : s.initCount < intMax) :
    incCount s = .ok ((), { s with initCount := s.initCount + 1 }) := if_pos hs

theorem decCount_eq (hs : -intMax ≤ s.initCount) :
    decCount s = .ok ((), { s with initCount := s.initCount - 1 }) := if_pos hs

theorem init_counts (hc : s.initCount ≠ 0) : call env .init s =
    if s.initCount < intMax then .ok (some true, { s with initCount := s.initCount + 1 })
    else .error .overflow := by
  simp only [call, skyInit, bind_apply, getCount, hc, if_false, incCount]
  by_cases hlt : s.initCount < intMax
  · simp only [if_pos hlt]
    rfl
  · simp only [if_neg hlt]

theorem uninit_counts (hc : s.initCount ≠ 1) : call env .uninit s =
    if -intMax ≤ s.initCount then .ok (none, { s with initCount := s.initCount - 1 })
    else .error .overflow := by
  simp only [call, skyUninit, bind_apply, getCount, hc, if_false, decCount]
  by_cases hge : -intMax ≤ s.initCount
  · simp only [if_pos hge]
    rfl
  · simp only [if_neg hge]

variable (env) in
theorem uninit_last (hc : s.initCount = 1) (hm : s.up .mem = true) :
    ∃ s', call env .uninit s = .ok (none, s') ∧ s'.initCount = 0 ∧ s'.up .mem = true := by
  obtain ⟨s1, hx, hm1, hc1⟩ := uninitFrom_mem env initFuncCnt 0 s rfl hm
  have hdec : -intMax ≤ s1.initCount := by rw [hc1, hc]; decide
  refine ⟨{ s1 with initCount := s1.initCount - 1 }, ?_, ?_, hm1⟩
  · simp only [call, skyUninit, bind_apply, getCount, hc, if_true, hx, decCount_eq hdec]
    rfl
  · change s1.initCount - 1 = 0
    rw [hc1, hc]
    rfl

theorem bringUp_modules (s : State) (m : Module) : (s.bringUp modules).up m = true := by
  simp [State.bringUp, mem_modules]

/-- The first `sky_init`, all initialisers succeeding. -/
theorem init_first (hc : s.initCount = 0) (he : ∀ i < initFuncCnt, env (s.tries + i) = true) :
    call env .init s = .ok (some true, { s.bringUp modules with initCount := 1 }) := by
  rcases initFrom_cases env initFuncCnt 0 s rfl with ⟨-, hx⟩ | ⟨k, m, hk, -, hf, -⟩
  · have hlt : (s.bringUp modules).initCount < intMax := by
      change s.initCount < intMax
      rw [hc]
      decide
    rw [List.drop_zero] at hx
    simp only [call, skyInit, bind_apply, getCount, hc, if_true, hx, incCount_eq hlt]
    simp only [State.bringUp, hc]
    rfl
  · rw [he k hk] at hf
    cases hf

/-- The first `sky_init`, an initialiser failing: the first one, or `sky_map_uninit` is called last,
on a module that is not up. -/
theorem init_fails (hc : s.initCount = 0) (hm : s.up .map = false)
    (he : ¬ ∀ i < initFuncCnt, env (s.tries + i) = true) :
    (env s.tries = false ∧ call env .init s = .ok (some false, s.fail .debug)) ∨
      (env s.tries = true ∧ ∃ s' es, call env .init s = .ok (some false, s') ∧
        s'.log = .down .map false :: es) := by
  rcases initFrom_cases env initFuncCnt 0 s rfl with
    ⟨hup, -⟩ | ⟨k, m, hk, hup, hf, hget, hx⟩
  · exact absurd hup he
  rw [Nat.zero_add, List.drop_zero] at *
  cases k with
  | zero =>
    have hdebug : m = .debug := by
      cases hget
      rfl
    refine .inl ⟨hf, ?_⟩
    rw [List.take_zero, bringUp_nil, hdebug] at hx
    simp only [call, skyInit, bind_apply, getCount, hc, if_true, hx]
    rfl
  | succ k =>
    have hmap : ((s.bringUp (modules.take (k + 1))).fail m).up .map = false := by
      have hnot : Module.map ∉ modules.take (k + 1) := by
        have hlast : Module.map ∉ modules.take 13 := by decide
        have hle : k + 1 ≤ 13 := Nat.le_of_lt_succ hk
        exact fun hmem => hlast (List.take_subset_take_left modules hle hmem)
      simp [State.fail, State.bringUp, hm, hnot]
    obtain ⟨s', es, hundo, hlog⟩ := undoFrom_map env k
      ((s.bringUp (modules.take (k + 1))).fail m) (Nat.lt_of_succ_lt hk)
    rw [hmap] at hlog
    refine .inr ⟨hup 0 (Nat.succ_pos k), s', es, ?_, hlog⟩
    rw [bind_apply, hundo] at hx
    simp only [call, skyInit, bind_apply, getCount, hc, if_true, hx]
    rfl

theorem meets_of_log_eq {r : Option Bool} (hlog : s'.log = s.log) (hs' : Consistent s')
    (hr : r ≠ some false) : Meets s r s' :=
  ⟨hs', [], hlog, fun _ => List.not_mem_nil, fun h => absurd h hr⟩

/-- A failure that ends with taking down what is not up is not as `Meets` has it. -/
theorem not_meets_of_down {es : List Event} (hlog : s'.log = .down m false :: es) :
    ¬ Meets s (some false) s' := by
  rintro ⟨-, es', hes', hdown, hfail⟩
  obtain ⟨ms, m', hrev⟩ := hfail rfl
  cases es' with
  | nil => simp at hrev
  | cons e es' =>
    rw [hlog, List.cons_append] at hes'
    have he : .down m false = e := (List.cons.inj hes').1
    exact hdown m (he ▸ List.mem_cons_self)

theorem init_meets_iff (hs : Consistent s) :
    (∃ r s', call env .init s = .ok (r, s') ∧ Meets s r s') ↔ Keeps env s .init := by
  rcases hs with ⟨hpos, hup⟩ | ⟨hzero, hdown⟩
  · have hne : s.initCount ≠ 0 := by omega
    by_cases hlt : s.initCount < intMax
    · refine iff_of_true ⟨_, _, (init_counts hne).trans (if_pos hlt), ?_⟩
        ⟨hlt, fun h => absurd h hne⟩
      exact meets_of_log_eq rfl (.inl ⟨Int.lt_add_one_of_le (Int.le_of_lt hpos), hup⟩) (by decide)
    · refine iff_of_false ?_ fun hk => hlt hk.1
      rintro ⟨r, s', hx, -⟩
      rw [init_counts hne, if_neg hlt] at hx
      cases hx
  · have hlt : s.initCount < intMax := by
      rw [hzero]
      decide
    by_cases hall : ∀ i < initFuncCnt, env (s.tries + i) = true
    · refine iff_of_true ⟨_, _, init_first hzero hall, ?_⟩ ⟨hlt, fun _ => .inr hall⟩
      refine ⟨.inl ⟨Int.one_pos, bringUp_modules s⟩, (modules.map Event.up).reverse, rfl, ?_, ?_⟩
      · intro m hm
        simp at hm
      · intro hr
        cases hr
    rcases init_fails hzero (hdown .map) hall with ⟨hf, hx⟩ | ⟨hf, s', es, hx, hlog⟩
    · refine iff_of_true ⟨_, _, hx, ?_⟩ ⟨hlt, fun _ => .inl hf⟩
      refine ⟨.inr ⟨hzero, hdown⟩, [.failed .debug], rfl, ?_, fun _ => ⟨[], .debug, rfl⟩⟩
      intro m hm
      simp at hm
    · refine iff_of_false ?_ ?_
      · rintro ⟨r, s'', hx', hmeets⟩
        rw [hx] at hx'
        cases hx'
        exact not_meets_of_down hlog hmeets
      · rintro ⟨-, hk⟩
        rcases hk hzero with h | h
        · rw [hf] at h
          cases h
        · exact hall h

theorem uninit_meets_iff (hs : Consistent s) (hm : 0 < s.initCount) :
    (∃ r s', call env .uninit s = .ok (r, s') ∧ Meets s r s') ↔ Keeps env s .uninit := by
  rcases hs with ⟨hpos, hup⟩ | ⟨hzero, -⟩
  · by_cases hone : s.initCount = 1
    · refine iff_of_false ?_ fun hk => hk hone
      rintro ⟨r, s', hx, hcons, -⟩
      obtain ⟨s1, hx1, hzero, hmem⟩ := uninit_last env hone (hup .mem)
      rw [hx1] at hx
      cases hx
      rcases hcons with ⟨hpos', -⟩ | ⟨-, hdown⟩
      · omega
      · rw [hdown .mem] at hmem
        cases hmem
    · have hge : -intMax ≤ s.initCount := by
        unfold intMax
        omega
      refine iff_of_true ⟨_, _, (uninit_counts hone).trans (if_pos hge), ?_⟩ hone
      refine meets_of_log_eq rfl (.inl ⟨?_, hup⟩) (by decide)
      change 0 < s.initCount - 1
      omega
  · omega

variable (env) in
/-- One call from a state in step. -/
theorem meets_iff (hs : Consistent s) (c : Call) (hm : Matched s c) :
    (∃ r s', call env c s = .ok (r, s') ∧ Meets s r s') ↔ Keeps env s c := by
  cases c with
  | init => exact init_meets_iff hs
  | uninit => exact uninit_meets_iff hs hm

/-- In every run of matched calls that keep the modules in step, every state is in step, and the
next call is as `Meets` has it exactly when it keeps them so. -/
theorem call_meets_iff (hs : Steps (call env) (fun s c => Matched s c ∧ Keeps env s c) start cs s) :
    Consistent s ∧ ∀ c, Matched s c →
      ((∃ r s', call env c s = .ok (r, s') ∧ Meets s r s') ↔ Keeps env s c) := by
  have hcons : Consistent s := by
    refine Steps.inv (I := Consistent) ?_ hs (.inr ⟨rfl, fun _ => rfl⟩)
    intro s c r s' hs hok hx
    obtain ⟨r', s1, hx1, hmeets⟩ := (meets_iff env hs c hok.1).2 hok.2
    rw [hx1] at hx
    cases hx
    exact hmeets.1
  exact ⟨hcons, fun c hm => meets_iff env hcons c hm⟩

/-- A first `sky_init` whose initialisers all succeed. -/
theorem call_meets_init : Consistent { start.bringUp modules with initCount := 1 } ∧
    ¬ ∃ r s', call (fun _ => true) .uninit { start.bringUp modules with initCount := 1 } =
      .ok (r, s') ∧ Meets { start.bringUp modules with initCount := 1 } r s' := by
  have hs : Steps (call fun _ => true) (fun s c => Matched s c ∧ Keeps (fun _ => true) s c) start
      [.init] { start.bringUp modules with initCount := 1 } :=
    .cons ⟨trivial, by decide, fun _ => .inr fun _ _ => rfl⟩ (init_first rfl fun _ _ => rfl)
      (.nil _)
  obtain ⟨hcons, hnext⟩ := call_meets_iff hs
  exact ⟨hcons, fun hx => (hnext .uninit Int.one_pos).1 hx rfl⟩

/-- The initialiser of `list` fails: `share_memory`, `base64` and `map` are taken down. -/
theorem init_takes_down_map : ∃ s, call (fun t => t != 3) .init start = .ok (some false, s) ∧
    s.log = [.down .map false, .down .base64 false, .down .shareMemory false, .failed .list,
      .up .mem, .up .criticalSection, .up .debug] ∧ ¬ Meets start (some false) s := by
  refine ⟨_, rfl, rfl, ?_⟩
  exact not_meets_of_down rfl

/-! ## Surplus calls of `sky_uninit` -/

/-- The successful calls of `sky_init` that no call of `sky_uninit` has matched, `n` of them before
the calls `cs`; a surplus `sky_uninit` has no effect. -/
def unmatched : Nat → List Call → Nat
  | n, [] => n
  | n, .init :: cs => unmatched (n + 1) cs
  | n, .uninit :: cs => unmatched (n - 1) cs

/-- `sky_init` succeeds and then all modules are up; they are up exactly while `n` calls of it are
unmatched after the call. -/
def Answers (n : Nat) (c : Call) (r : Option Bool) (s' : State) : Prop :=
  (c = .init → r = some true) ∧ (r = some true → ∀ m, s'.up m = true) ∧
    ∀ m, s'.up m = true ↔ 0 < n

/-- `sky_init` is not called while `init_count` is negative, and `init_count` does not go from 1 to
0 (nor out of its range). -/
def InRange (s : State) : Call → Prop
  | .init => 0 ≤ s.initCount ∧ s.initCount < intMax
  | .uninit => s.initCount ≠ 1 ∧ -intMax ≤ s.initCount

/-- `init_count` is the number of unmatched calls and the modules are up, or there are none and the
modules are down. -/
def Counted (n : Nat) (s : State) : Prop :=
  (0 < s.initCount ∧ s.initCount = n ∧ ∀ m, s.up m = true) ∨
    (s.initCount ≤ 0 ∧ n = 0 ∧ ∀ m, s.up m = false)

theorem Counted.up_iff (hs : Counted n s) (m : Module) : s.up m = true ↔ 0 < n := by
  rcases hs with ⟨hpos, hn, hup⟩ | ⟨-, hn, hdown⟩
  · exact iff_of_true (hup m) (by omega)
  · rw [hdown m, hn]
    decide

theorem unmatched_append : ∀ (n : Nat) (cs ds : List Call),
    unmatched n (cs ++ ds) = unmatched (unmatched n cs) ds
  | _, [], _ => rfl
  | n, .init :: cs, ds => unmatched_append (n + 1) cs ds
  | n, .uninit :: cs, ds => unmatched_append (n - 1) cs ds

/-- A call in range, from a counted state. -/
theorem call_counted (hs : Counted n s) (c : Call) (hc : InRange s c) :
    ∃ r s', call (fun _ => true) c s = .ok (r, s') ∧ (c = .init → r = some true) ∧
      (c = .uninit → r = none) ∧ Counted (unmatched n [c]) s' := by
  cases c with
  | init =>
    obtain ⟨hge, hlt⟩ := hc
    rcases hs with ⟨hpos, hn, hup⟩ | ⟨hle, hn, hdown⟩
    · have hne : s.initCount ≠ 0 := by omega
      refine ⟨_, _, (init_counts hne).trans (if_pos hlt), fun _ => rfl, nofun, .inl ⟨?_, ?_, hup⟩⟩
      · change 0 < s.initCount + 1
        omega
      · change s.initCount + 1 = ((n + 1 : Nat) : Int)
        omega
    · have hzero : s.initCount = 0 := by omega
      refine ⟨_, _, init_first hzero fun _ _ => rfl, fun _ => rfl, nofun,
        .inl ⟨Int.one_pos, ?_, ?_⟩⟩
      · rw [hn]
        rfl
      · exact bringUp_modules s
  | uninit =>
    obtain ⟨hone, hge⟩ := hc
    refine ⟨_, _, (uninit_counts hone).trans (if_pos hge), nofun, fun _ => rfl, ?_⟩
    rcases hs with ⟨hpos, hn, hup⟩ | ⟨hle, hn, hdown⟩
    · refine .inl ⟨?_, ?_, hup⟩
      · change 0 < s.initCount - 1
        omega
      · change s.initCount - 1 = ((n - 1 : Nat) : Int)
        omega
    · refine .inr ⟨?_, ?_, hdown⟩
      · change s.initCount - 1 ≤ 0
        omega
      · change n - 1 = 0
        omega

theorem run_counted (hs : Steps (call fun _ => true) InRange s cs s') :
    ∀ {n : Nat}, Counted n s → Counted (unmatched n cs) s' := by
  induction hs with
  | nil s => exact id
  | @cons s s1 s' c cs r hok hx _ ih =>
    intro n hn
    obtain ⟨r1, s2, hx1, -, -, hn1⟩ := call_counted hn c hok
    rw [hx1] at hx
    cases hx
    have hcons : unmatched n (c :: cs) = unmatched (unmatched n [c]) cs := unmatched_append n [c] cs
    rw [hcons]
    exact ih hn1

/-- A call out of range does not answer as it should. -/
theorem not_answers (hs : Counted n s) (c : Call) (hc : ¬ InRange s c) :
    ¬ ∃ r s', call (fun _ => true) c s = .ok (r, s') ∧ Answers (unmatched n [c]) c r s' := by
  rintro ⟨r, s', hx, hinit, hall, hup⟩
  cases c with
  | init =>
    have hne : s.initCount ≠ 0 := by
      intro hzero
      exact hc ⟨Int.le_of_eq hzero.symm, by rw [hzero]; decide⟩
    rw [init_counts hne] at hx
    by_cases hlt : s.initCount < intMax
    · rw [if_pos hlt] at hx
      cases hx
      -- the modules are still down
      rcases hs with ⟨hpos, -⟩ | ⟨-, -, hdown⟩
      · exact hc ⟨Int.le_of_lt hpos, hlt⟩
      · have hdebug := hall rfl .debug
        rw [hdown .debug] at hdebug
        cases hdebug
    · rw [if_neg hlt] at hx
      cases hx
  | uninit =>
    by_cases hone : s.initCount = 1
    · rcases hs with ⟨-, hn, hs⟩ | ⟨hle, -⟩
      · obtain ⟨s1, hx1, -, hmem⟩ := uninit_last (fun _ => true) hone (hs .mem)
        rw [hx1] at hx
        cases hx
        have hpos : 0 < n - 1 := (hup .mem).1 hmem
        omega
      · omega
    · rw [uninit_counts hone, if_neg fun hge => hc ⟨hone, hge⟩] at hx
      cases hx

/-- In every run of calls in range, all initialisers succeeding, the modules are up exactly while a
call of `sky_init` is unmatched, and the next call keeps to that exactly when it is in range. -/
theorem call_counts_iff (hs : Steps (call fun _ => true) InRange start cs s) :
    (∀ m, s.up m = true ↔ 0 < unmatched 0 cs) ∧ ∀ c,
      ((∃ r s', call (fun _ => true) c s = .ok (r, s') ∧
        Answers (unmatched 0 (cs ++ [c])) c r s') ↔ InRange s c) := by
  have hn : Counted (unmatched 0 cs) s := run_counted hs (.inr ⟨Int.le_refl 0, rfl, fun _ => rfl⟩)
  refine ⟨hn.up_iff, fun c => ?_⟩
  rw [unmatched_append]
  by_cases hc : InRange s c
  · refine iff_of_true ?_ hc
    obtain ⟨r, s', hx, hinit, huninit, hn'⟩ := call_counted hn c hc
    refine ⟨r, s', hx, hinit, fun hr m => ?_, hn'.up_iff⟩
    cases c with
    | init => exact (hn'.up_iff m).2 (Nat.succ_pos _)
    | uninit =>
      rw [huninit rfl] at hr
      cases hr
  · exact iff_of_false (not_answers hn c hc) hc

/-- A surplus `sky_uninit`: the next call of `sky_init` is out of range. -/
theorem call_counts_uninit : ∃ s, call (fun _ => true) .uninit start = .ok (none, s) ∧
    ¬ ∃ r s', call (fun _ => true) .init s = .ok (r, s') ∧
      Answers (unmatched 0 [.uninit, .init]) .init r s' := by
  refine ⟨_, rfl, fun hx => ?_⟩
  have hin : InRange start .uninit := ⟨by decide, by decide⟩
  have hge := ((call_counts_iff (.cons hin rfl (.nil _))).2 .init).1 hx
  exact absurd hge.1 (by decide)

/-- After a surplus `sky_uninit`, `sky_init` returns true and no module is up. -/
theorem init_without_modules : ∃ s s', call (fun _ => true) .uninit start = .ok (none, s) ∧
    call (fun _ => true) .init s = .ok (some true, s') ∧ ∀ m, s'.up m = false :=
  ⟨_, _, rfl, rfl, fun _ => rfl⟩

end Sky.Init
