import SkySdk.Shm.Proof.Atomic

/-!
# The registry of threads is exact

Each struct belongs to the callers or to one call (`Owned`). So the registry has every handle of the
callers at any time, and no others once no call is running: nothing is lost or leaked by threads
that create and destroy at the same time (`registry_exact`).
-/

set_option autoImplicit false

namespace Sky.Shm

open Base

variable {ι : Type} [DecidableEq ι] {w w' : Local} {gs : ι → Whereabouts} {i j : ι} {p q : Addr}
  {g' : Whereabouts} {b : Build} {nameMax : Nat} {x : Choice} {c : Call}

/-- The handle that a call is on. -/
def Place.handle : Place → Option Addr
  | .nowhere => none
  | .fresh p | .listed p | .taken p => some p

inductive Holder (ι : Type)
  | callers
  | call (i : ι)
deriving DecidableEq

/-- Whose a struct is. -/
structure Held (own : Addr → Option (Holder ι)) (w : Local) (gs : ι → Whereabouts) : Prop where
  zero : own 0 = none
  live : ∀ p, w.live p = true ↔ own p = some .callers
  place : ∀ i p, (gs i).place.handle = some p ↔ own p = some (.call i)
  registry : ∀ p, p ∈ w.registry ↔
    own p = some .callers ∨ ∃ i, own p = some (.call i) ∧ (gs i).place ≠ .fresh p
  block : ∀ p, w.block p = none ↔ own p = none
  nodup : w.registry.Nodup

variable {own : Addr → Option (Holder ι)}

omit [DecidableEq ι] in
theorem Held.start : Held (fun _ => none) Local.start fun _ : ι => out .nowhere where
  zero := rfl
  live _ := by simp [Local.start]
  place _ _ := by simp [Place.handle]
  registry _ := by simp [Local.start, Local.registry, World.start]
  block _ := by simp [Local.start, Local.block, World.start]
  nodup := List.nodup_nil

/-- A call goes on with the struct `p`, which nobody else has, or without one. -/
theorem Held.step (h : Held own w gs) (o' : Option (Holder ι)) (hp : p ≠ 0)
    (hown : own p = none ∨ own p = some .callers ∨ own p = some (.call i))
    (honly : ∀ q, (gs i).place.handle = some q → q = p)
    (hplace : ∀ q, g'.place.handle = some q ↔ q = p ∧ o' = some (.call i))
    (ho' : ∀ j, o' = some (.call j) → j = i)
    (hlive : w'.live p = true ↔ o' = some .callers) (hlives : ∀ q, q ≠ p → w'.live q = w.live q)
    (hregistry : p ∈ w'.registry ↔
      o' = some .callers ∨ o' = some (.call i) ∧ g'.place ≠ .fresh p)
    (hregistries : ∀ q, q ≠ p → (q ∈ w'.registry ↔ q ∈ w.registry))
    (hblock : w'.block p = none ↔ o' = none)
    (hblocks : ∀ q, q ≠ p → (w'.block q = none ↔ w.block q = none))
    (hnodup : w'.registry.Nodup) :
    Held (Function.update own p o') w' (Function.update gs i g') where
  zero := (Function.update_of_ne hp.symm _ _).trans h.zero
  live q := by
    by_cases hq : q = p
    · subst hq
      rw [Function.update_self]
      exact hlive
    · rw [Function.update_of_ne hq, hlives q hq]
      exact h.live q
  place j q := by
    by_cases hj : j = i
    · subst hj
      rw [Function.update_self, hplace]
      by_cases hq : q = p
      · subst hq
        rw [Function.update_self]
        exact and_iff_right rfl
      · rw [Function.update_of_ne hq, ← h.place j q]
        exact iff_of_false (fun hc => hq hc.1) fun hc => hq (honly q hc)
    · rw [Function.update_of_ne hj, h.place]
      by_cases hq : q = p
      · subst hq
        rw [Function.update_self]
        refine iff_of_false ?_ fun hc => hj (ho' j hc)
        intro hc
        rcases hown with hn | hn | hn
        · rw [hn] at hc
          cases hc
        · rw [hn] at hc
          cases hc
        · rw [hn] at hc
          cases hc
          exact hj rfl
      · rw [Function.update_of_ne hq]
  registry q := by
    by_cases hq : q = p
    · subst hq
      rw [Function.update_self, hregistry]
      refine or_congr_right ⟨fun hc => ⟨i, hc.1, ?_⟩, fun hc => ?_⟩
      · rw [Function.update_self]
        exact hc.2
      · obtain ⟨j, hj, hne⟩ := hc
        obtain rfl := ho' j hj
        rw [Function.update_self] at hne
        exact ⟨hj, hne⟩
    · rw [hregistries q hq, h.registry q, Function.update_of_ne hq]
      refine or_congr_right (exists_congr fun j => and_congr_right fun hj => ?_)
      have hne : j ≠ i := by
        intro hc
        subst hc
        exact hq (honly q ((h.place j q).2 hj))
      rw [Function.update_of_ne hne]
  block q := by
    by_cases hq : q = p
    · subst hq
      rw [Function.update_self]
      exact hblock
    · rw [Function.update_of_ne hq, hblocks q hq]
      exact h.block q
  nodup := hnodup

/-- A call goes on where it was. -/
theorem Held.stay (h : Held own w gs) (hlive : w'.live = w.live)
    (hregistry : w'.registry = w.registry) (hblock : ∀ p, w'.block p = none ↔ w.block p = none)
    (hplace : g'.place = (gs i).place) : Held own w' (Function.update gs i g') := by
  have hsame (j : ι) : (Function.update gs i g' j).place = (gs j).place := by
    by_cases hj : j = i
    · subst hj
      rw [Function.update_self, hplace]
    · rw [Function.update_of_ne hj]
  refine ⟨h.zero, ?_, ?_, ?_, ?_, hregistry ▸ h.nodup⟩
  · intro p
    rw [hlive]
    exact h.live p
  · intro j p
    rw [hsame]
    exact h.place j p
  · intro p
    simp only [hregistry, hsame]
    exact h.registry p
  · intro p
    rw [hblock]
    exact h.block p

omit [DecidableEq ι] in
theorem Held.own_of_place (h : Held own w gs) (hp : (gs i).place.handle = some p) :
    own p = some (.call i) ∧ p ≠ 0 := by
  have hown := (h.place i p).1 hp
  refine ⟨hown, ?_⟩
  intro hz
  rw [hz, h.zero] at hown
  cases hown

omit [DecidableEq ι] in
/-- A struct that is not on the registry is one that a call has to itself. -/
theorem Held.notMem_of_fresh (h : Held own w gs) (hg : (gs i).place = .fresh p) :
    p ∉ w.registry := by
  have hown := (h.own_of_place (p := p) (by rw [hg]; rfl)).1
  intro hmem
  rcases (h.registry p).1 hmem with hc | ⟨j, hj, hne⟩
  · rw [hown] at hc
    cases hc
  · rw [hown] at hj
    cases hj
    exact hne hg

omit [DecidableEq ι] in
theorem Held.ne_zero_of_mem (h : Held own w gs) (hmem : p ∈ w.registry) : p ≠ 0 := by
  intro hz
  rw [h.registry, hz, h.zero] at hmem
  rcases hmem with hc | ⟨j, hc, -⟩ <;> cases hc

/-- A call changes what is known of its own struct. -/
theorem Held.change (h : Held own w gs) (hg : (gs i).place.handle = some p)
    (hg' : g'.place.handle = some p) (hlive : w'.live = w.live)
    (hregistry : p ∈ w'.registry ↔ g'.place ≠ .fresh p)
    (hregistries : ∀ q, q ≠ p → (q ∈ w'.registry ↔ q ∈ w.registry))
    (hblock : w'.block p ≠ none) (hblocks : ∀ q, q ≠ p → (w'.block q = none ↔ w.block q = none))
    (hnodup : w'.registry.Nodup) : Held own w' (Function.update gs i g') := by
  obtain ⟨hown, hp⟩ := h.own_of_place hg
  have hstep : Held (Function.update own p (some (.call i))) w' (Function.update gs i g') := by
    refine h.step _ hp (.inr (.inr hown)) ?_ ?_ ?_ ?_ ?_ ?_ hregistries
      (iff_of_false hblock (by simp)) hblocks hnodup
    · intro q hq
      rw [hg] at hq
      exact (Option.some.inj hq).symm
    · intro q
      rw [hg', and_iff_left rfl]
      exact ⟨fun hq => (Option.some.inj hq).symm, fun hq => congrArg some hq.symm⟩
    · intro j hj
      cases hj
      rfl
    · rw [hlive, h.live, hown]
    · intro q _
      rw [hlive]
    · rw [hregistry]
      simp
  rwa [← hown, Function.update_eq_self] at hstep

/-! ## Requests -/

theorem block_setBlock (sm : Option SkyHandleShareMem) :
    ({ w with process := w.process.setBlock () p sm } : Local).block p = sm := by
  simp [Local.block, World.setBlock]

theorem block_setBlock_of_ne (hq : q ≠ p) (sm : Option SkyHandleShareMem) :
    ({ w with process := w.process.setBlock () p sm } : Local).block q = w.block q := by
  simp [Local.block, World.setBlock, hq]

theorem registry_setRegistry (ps : List Addr) :
    ({ w with process := w.process.setRegistry () ps } : Local).registry = ps := by
  simp [Local.registry, World.setRegistry]

theorem Held.alloc (h : Held own w gs) (hg : gs i = out .nowhere) (hp : p ≠ 0)
    (hb : w.block p = none) (sm : SkyHandleShareMem) :
    Held (Function.update own p (some (.call i)))
      { w with process := w.process.setBlock () p (some sm) }
      (Function.update gs i (out (.fresh p))) := by
  have hnone := (h.block p).1 hb
  refine h.step _ hp (.inl hnone) ?_ ?_ ?_ ?_ (fun _ _ => rfl) ?_ (fun _ _ => Iff.rfl) ?_ ?_ h.nodup
  · intro q hq
    rw [hg] at hq
    cases hq
  · intro q
    rw [and_iff_left rfl]
    exact ⟨fun hq => (Option.some.inj hq).symm, fun hq => congrArg some hq.symm⟩
  · intro j hj
    cases hj
    rfl
  · refine (h.live p).trans ?_
    rw [hnone]
    simp
  · refine (h.registry p).trans ?_
    simp [hnone]
  · rw [block_setBlock]
    simp
  · intro q hq
    rw [block_setBlock_of_ne hq]

theorem Held.free (h : Held own w gs) (hg : gs i = out (.fresh p)) :
    Held (Function.update own p none) { w with process := w.process.setBlock () p none }
      (Function.update gs i (out .nowhere)) := by
  have hplace : (gs i).place.handle = some p := by rw [hg]; rfl
  obtain ⟨hown, hp⟩ := h.own_of_place hplace
  have hout := h.notMem_of_fresh (show (gs i).place = .fresh p by rw [hg])
  refine h.step _ hp (.inr (.inr hown)) ?_ ?_ ?_ ?_ (fun _ _ => rfl) ?_ (fun _ _ => Iff.rfl) ?_ ?_
    h.nodup
  · intro q hq
    rw [hplace] at hq
    exact (Option.some.inj hq).symm
  · intro q
    simp [Place.handle]
  · intro j hj
    cases hj
  · refine (h.live p).trans ?_
    rw [hown]
    simp
  · refine (iff_of_false hout ?_)
    simp
  · rw [block_setBlock]
    simp
  · intro q hq
    rw [block_setBlock_of_ne hq]

theorem Held.store (h : Held own w gs) (hg : gs i = out (.fresh p)) (sm : SkyHandleShareMem) :
    Held own { w with process := w.process.setBlock () p (some sm) }
      (Function.update gs i (out (.fresh p))) := by
  have hout := h.notMem_of_fresh (show (gs i).place = .fresh p by rw [hg])
  refine h.change (p := p) (by rw [hg]; rfl) rfl rfl ?_ (fun _ _ => Iff.rfl) ?_ ?_ h.nodup
  · exact iff_of_false hout fun hc => hc rfl
  · rw [block_setBlock]
    simp
  · intro q hq
    rw [block_setBlock_of_ne hq]

theorem Held.pushBack (h : Held own w gs) (hg : gs i = ⟨.fresh p, .entered⟩) :
    Held own { w with process := w.process.setRegistry () (w.registry ++ [p]) }
      (Function.update gs i ⟨.listed p, .finished⟩) := by
  have hplace : (gs i).place.handle = some p := by rw [hg]; rfl
  obtain ⟨hown, -⟩ := h.own_of_place hplace
  have hout := h.notMem_of_fresh (show (gs i).place = .fresh p by rw [hg])
  refine h.change hplace rfl rfl ?_ ?_ ?_ (fun _ _ => Iff.rfl) ?_
  · rw [registry_setRegistry]
    simp
  · intro q hq
    rw [registry_setRegistry]
    simp [hq]
  · intro hb
    rw [(h.block p).1 hb] at hown
    cases hown
  · rw [registry_setRegistry]
    exact h.nodup.append (List.nodup_singleton p) (by simpa using hout)

theorem Held.remove (h : Held own w gs) (hg : gs i = ⟨.taken p, .entered⟩) :
    p ∈ w.registry ∧ Held own { w with process := w.process.setRegistry () (w.registry.erase p) }
      (Function.update gs i ⟨.fresh p, .finished⟩) := by
  have hplace : (gs i).place.handle = some p := by rw [hg]; rfl
  obtain ⟨hown, -⟩ := h.own_of_place hplace
  have hmem : p ∈ w.registry := (h.registry p).2 (.inr ⟨i, hown, by rw [hg]; simp⟩)
  refine ⟨hmem, h.change hplace rfl rfl ?_ ?_ ?_ (fun _ _ => Iff.rfl) ?_⟩
  · rw [registry_setRegistry, h.nodup.mem_erase_iff]
    simp
  · intro q hq
    rw [registry_setRegistry, List.mem_erase_of_ne hq]
  · intro hb
    rw [(h.block p).1 hb] at hown
    cases hown
  · rw [registry_setRegistry]
    exact h.nodup.erase p

def Exact (w : Local) (gs : ι → Whereabouts) : Prop := ∃ own, Held own w gs

/-- A request that concerns neither the blocks nor the registry. -/
theorem Held.other (h : Held own w gs) {o : Request} {r : o.Reply} (ho : ¬ o.OnHandles)
    (he : w.exec b o x = some (w', some r)) (hplace : g'.place = (gs i).place) :
    Exact w' (Function.update gs i g') := by
  obtain ⟨⟨u, r'⟩, hu, he⟩ := Option.map_eq_some_iff.1 he
  obtain ⟨hregistry, hblocks⟩ := exec_other ho hu
  cases he
  refine ⟨own, h.stay rfl (congrFun hregistry ()) ?_ hplace⟩
  intro p
  simp only [Local.block, hblocks]

theorem Held.reply (h : Held own w gs) {o : Request} {r : o.Reply} (hallows : allows (gs i) o)
    (he : w.exec b o x = some (w', some r)) :
    ∃ g, moves (gs i) o r g ∧ Exact w' (Function.update gs i g) := by
  have hsame : Function.update gs i (gs i) = gs := Function.update_eq_self i gs
  cases o with
  | alloc =>
    have hg : gs i = out .nowhere := hallows
    obtain ⟨⟨u, r'⟩, hu, he⟩ := Option.map_eq_some_iff.1 he
    have hfail : u = w.process → r = 0 →
        ∃ g, moves (gs i) .alloc r g ∧ Exact w' (Function.update gs i g) := by
      rintro rfl rfl
      cases he
      refine ⟨_, rfl, own, ?_⟩
      rw [if_pos rfl, ← hg, hsame]
      exact h
    cases x with
    | place p =>
      simp only [Shm.exec] at hu
      split at hu
      · rename_i hfree
        cases hu
        cases he
        refine ⟨_, rfl, Function.update own r (some (.call i)), ?_⟩
        rw [if_neg hfree.1]
        exact h.alloc hg hfree.1 hfree.2 zeroShareMem
      · cases hu
    | _ =>
      cases hu
      cases he
      exact hfail rfl rfl
  | free p =>
    cases he
    exact ⟨_, rfl, _, h.free hallows⟩
  | store p sm =>
    have hg : gs i = out (.fresh p) := hallows
    cases he
    exact ⟨_, hg.symm, _, h.store hg sm⟩
  | pushBack p =>
    have hg : gs i = ⟨.fresh p, .entered⟩ := hallows
    obtain ⟨⟨u, r'⟩, hu, he⟩ := Option.map_eq_some_iff.1 he
    simp only [Shm.exec] at hu
    split at hu
    · cases hu
      cases he
      exact ⟨_, rfl, _, h.pushBack hg⟩
    · cases hu
      cases he
      exact ⟨_, rfl, own, h.stay rfl rfl (fun _ => Iff.rfl) (by rw [hg]; rfl)⟩
  | remove p =>
    obtain ⟨⟨u, r'⟩, hu, he⟩ := Option.map_eq_some_iff.1 he
    simp only [Shm.exec] at hu
    by_cases hp : p = 0
    · have hg : gs i = ⟨.nowhere, .entered⟩ := by rw [show gs i = _ from hallows, if_pos hp]
      have hout : p ∉ w.process.registry () := fun hmem => h.ne_zero_of_mem hmem hp
      rw [if_neg hout] at hu
      cases hu
      cases he
      exact ⟨_, rfl, own, h.stay rfl rfl (fun _ => Iff.rfl) (by rw [hg]; rfl)⟩
    · have hg : gs i = ⟨.taken p, .entered⟩ := by rw [show gs i = _ from hallows, if_neg hp]
      obtain ⟨hmem, hheld⟩ := h.remove hg
      have hmem' : p ∈ w.process.registry () := hmem
      rw [if_pos hmem'] at hu
      cases hu
      cases he
      refine ⟨_, rfl, own, ?_⟩
      rw [if_neg hp]
      exact hheld
  | enter => exact ⟨_, rfl, h.other id he rfl⟩
  | leave => exact ⟨_, rfl, h.other id he rfl⟩
  | _ => exact ⟨_, rfl, h.other id he rfl⟩

/-! ## Calls -/

theorem Held.takeBack (h : Held own w gs) (hg : gs i = out .nowhere) (hc : OfLive i c w) :
    Exact (w.takeBack c) (Function.update gs i (firstPlace c)) := by
  have hstay : Exact w (Function.update gs i (out .nowhere)) :=
    ⟨own, h.stay rfl rfl (fun _ => Iff.rfl) (by rw [hg])⟩
  cases c with
  | create name size => exact hstay
  | «open» name => exact hstay
  | destroy p =>
    by_cases hp : p = 0
    · subst hp
      have hdead : w.live 0 = false := by
        rw [← Bool.not_eq_true, h.live 0, h.zero]
        simp
      refine ⟨own, h.stay ?_ rfl (fun _ => Iff.rfl) (by rw [hg]; rfl)⟩
      rw [Local.takeBack, Local.setLive, ← hdead, Function.update_eq_self]
    · have hlive := (hc p rfl).resolve_left hp
      have hown := (h.live p).1 hlive
      rw [firstPlace, if_neg hp]
      refine ⟨_, h.step (some (.call i)) hp (.inr (.inl hown)) ?_ ?_ ?_ ?_ ?_ ?_
        (fun _ _ => Iff.rfl) ?_ (fun _ _ => Iff.rfl) h.nodup⟩
      · intro q hq
        rw [hg] at hq
        cases hq
      · intro q
        rw [and_iff_left rfl]
        exact ⟨fun hq => (Option.some.inj hq).symm, fun hq => congrArg some hq.symm⟩
      · intro j hj
        cases hj
        rfl
      · simp [Local.takeBack, Local.setLive]
      · intro q hq
        simp [Local.takeBack, Local.setLive, hq]
      · exact iff_of_true ((h.registry p).2 (.inl hown)) (by simp)
      · refine (h.block p).trans ?_
        rw [hown]
        simp

theorem Held.handOut (h : Held own w gs) {r : Resp} (hp : lastPlace c (gs i) r) :
    Exact (w.handOut c r) (Function.update gs i (out .nowhere)) := by
  have hreturned {p : Addr} (hg : Returned (gs i) p) :
      Exact (if p = 0 then w else w.setLive p true) (Function.update gs i (out .nowhere)) := by
    by_cases hz : p = 0
    · rw [Returned, if_pos hz] at hg
      rw [if_pos hz]
      exact ⟨own, h.stay rfl rfl (fun _ => Iff.rfl) (by rw [hg])⟩
    · rw [Returned, if_neg hz] at hg
      have hplace : (gs i).place.handle = some p := by rw [hg]; rfl
      obtain ⟨hown, -⟩ := h.own_of_place hplace
      rw [if_neg hz]
      refine ⟨_, h.step (some .callers) hz (.inr (.inr hown)) ?_ ?_ ?_ ?_ ?_ ?_
        (fun _ _ => Iff.rfl) ?_ (fun _ _ => Iff.rfl) h.nodup⟩
      · intro q hq
        rw [hplace] at hq
        exact (Option.some.inj hq).symm
      · intro q
        simp [Place.handle]
      · intro j hj
        cases hj
      · simp [Local.setLive]
      · intro q hq
        simp [Local.setLive, hq]
      · exact iff_of_true ((h.registry p).2 (.inr ⟨i, hown, by rw [hg]; simp⟩)) (.inl rfl)
      · refine (h.block p).trans ?_
        rw [hown]
        simp
  cases c with
  | destroy p => exact ⟨own, h.stay rfl rfl (fun _ => Iff.rfl) (by rw [show gs i = _ from hp])⟩
  | create name size =>
    cases r with
    | handle p => exact hreturned hp
    | destroyed r => exact hp.elim
  | «open» name =>
    cases r with
    | handle p => exact hreturned hp
    | destroyed r => exact hp.elim

theorem exact_discipline : (atomicThreads ι b nameMax).Discipline OfLive (fun _ _ _ _ => True)
    Exact (out .nowhere) (fun _ => firstPlace) (fun _ _ => allows) (fun _ _ => moves)
    (fun _ => lastPlace) where
  safe _ c _ _ := call_placed c
  enter _ _ _ _ hc hg h := by
    obtain ⟨own, h⟩ := h
    exact h.takeBack hg hc
  reply _ _ _ _ _ _ _ _ _ hm h he := by
    obtain ⟨own, h⟩ := h
    exact h.reply hm he
  wait _ _ _ _ _ _ _ _ _ _ he := absurd he exec_answers
  leave _ _ _ _ _ hp h := by
    obtain ⟨own, h⟩ := h
    exact h.handOut hp

/-- In any run of threads that destroy their own handles, each handle of the callers is on the
registry, once, with its struct; and once no call is running, there is nothing else on the registry
and no other struct. -/
theorem registry_exact {as : List (Act ι Call Choice)}
    {t : Conf ι (Shared ι) Request Request.Reply Call Resp}
    (hr : (threads ι b nameMax).Runs (fun i c s => OfLive i c s.toLocal) (fun _ _ _ _ => True)
      (System.idle (Shared.start ι)) as t) :
    t.shared.toLocal.registry.Nodup ∧
      (∀ p, t.shared.toLocal.live p = true →
        p ∈ t.shared.toLocal.registry ∧ t.shared.toLocal.block p ≠ none) ∧
      ((∀ i, t.calls i = none) → ∀ p,
        (p ∈ t.shared.toLocal.registry ↔ t.shared.toLocal.live p = true) ∧
          (t.shared.toLocal.block p ≠ none ↔ t.shared.toLocal.live p = true)) := by
  obtain ⟨as', -, hr'⟩ := runs_atomic hr
  obtain ⟨gs, ⟨own, h⟩, hknows⟩ :=
    exact_discipline.runs hr' ⟨fun _ => out .nowhere, ⟨_, Held.start⟩, fun _ => rfl⟩
  have h : Held own t.shared.toLocal gs := h
  refine ⟨h.nodup, ?_, ?_⟩
  · intro p hp
    have hown := (h.live p).1 hp
    refine ⟨(h.registry p).2 (.inl hown), ?_⟩
    intro hb
    rw [(h.block p).1 hb] at hown
    cases hown
  · intro hidle
    -- Every struct is the callers'.
    have hcallers (p : Addr) : own p = none ∨ own p = some .callers := by
      cases ho : own p with
      | none => exact .inl rfl
      | some holder =>
        cases holder with
        | callers => exact .inr rfl
        | call i =>
          have hi := hknows i
          have hcalls : (t.map Shared.toLocal).calls i = none := hidle i
          rw [hcalls] at hi
          have hplace := (h.place i p).2 ho
          rw [show gs i = out .nowhere from hi] at hplace
          cases hplace
    intro p
    have hlive := h.live p
    have hregistry := h.registry p
    have hblock := h.block p
    rcases hcallers p with ho | ho
    · rw [ho] at hlive hregistry hblock
      refine ⟨hregistry.trans ?_, iff_of_false (not_not_intro (hblock.2 rfl)) fun hc => ?_⟩
      · rw [hlive]
        simp
      · cases hlive.1 hc
    · rw [ho] at hlive hregistry hblock
      refine ⟨iff_of_true (hregistry.2 (.inl rfl)) (hlive.2 rfl), iff_of_true ?_ (hlive.2 rfl)⟩
      intro hb
      cases hblock.1 hb

/-! ## Runs -/

def callsOf (i : ι) (c : Call) (xs : List Choice) : List (Act ι Call Choice) :=
  .start i c :: xs.map (Act.run i) ++ [.finish i]

abbrev RunsOfLive : Conf Bool (Shared Bool) Request Request.Reply Call Resp →
    List (Act Bool Call Choice) →
    Conf Bool (Shared Bool) Request Request.Reply Call Resp → Prop :=
  (threads Bool ⟨0, false⟩ 64).Runs (fun i c s => OfLive i c s.toLocal) fun _ _ _ _ => True

/-- A thread creates `"a"`, another one opens it, and destroys the first one's handle. -/
theorem registry_exact_two : ∃ as t, RunsOfLive (System.idle (Shared.start Bool)) as t ∧
    (t.shared.toLocal.registry = [16] ∧ ∀ i, t.calls i = none) ∧
    t.shared.toLocal.registry.Nodup ∧
      (∀ p, t.shared.toLocal.live p = true →
        p ∈ t.shared.toLocal.registry ∧ t.shared.toLocal.block p ≠ none) ∧
      ((∀ i, t.calls i = none) → ∀ p,
        (p ∈ t.shared.toLocal.registry ↔ t.shared.toLocal.live p = true) ∧
          (t.shared.toLocal.block p ≠ none ↔ t.shared.toLocal.live p = true)) := by
  obtain ⟨t1, hcreate, t2, hopen, hlive, t3, hdestroy, hlast⟩ :
      ∃ t1, (threads Bool ⟨0, false⟩ 64).run (System.idle (Shared.start Bool))
        (callsOf false (.create (some nameA) 8) (filled 8)) = some t1 ∧
      ∃ t2, (threads Bool ⟨0, false⟩ 64).run t1 (callsOf true (.open (some nameA)) (filled 16)) =
          some t2 ∧ t2.shared.toLocal.live 8 = true ∧
      ∃ t3, (threads Bool ⟨0, false⟩ 64).run t2
          (callsOf true (.destroy 8) (List.replicate 10 .succeed)) = some t3 ∧
        (t3.shared.toLocal.registry = [16] ∧ ∀ i, t3.calls i = none) :=
    ⟨_, rfl, _, rfl, rfl, _, rfl, rfl, by intro i; cases i <;> rfl⟩
  have hcreate : RunsOfLive _ _ t1 :=
    System.runs_call (fun p hp => by cases hp) (fun _ _ => trivial) hcreate
  have hopen : RunsOfLive t1 _ t2 :=
    System.runs_call (fun p hp => by cases hp) (fun _ _ => trivial) hopen
  have hmine : OfLive true (.destroy 8) t2.shared.toLocal := by
    intro p hp
    cases hp
    exact .inr hlive
  have hdestroy : RunsOfLive t2 _ t3 := System.runs_call hmine (fun _ _ => trivial) hdestroy
  have hruns := hcreate.append (hopen.append hdestroy)
  exact ⟨_, t3, hruns, hlast, registry_exact hruns⟩

end Sky.Shm
