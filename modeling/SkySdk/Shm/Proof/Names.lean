import SkySdk.Shm.Proof.Owned

/-!
# Names in any interleaving

Only the owner removes a name, but for the clean-up of a failing `open`, which removes a name it has
not made. In runs where that finds no name (`Spares`), every name handed out stays bound
(`names_bound_of_spares`).
-/

set_option autoImplicit false

namespace Sky.Shm

open Base

variable {ι : Type} {b : Build} {nameMax : Nat} {w w' : World ι} {i j : ι}
  {p q : Addr} {sm : SkyHandleShareMem} {name : List UInt8}

def Inv (w : World ι) (gs : ι → Stage) : Prop := ∃ own, Owned own w gs

/-! ## The discipline -/

/-- The clean-up of an `open` finds no name to remove. -/
def Spares (c : Call) (o : Request) (w : World ι) : Prop :=
  match c, o with
  | .open _, .shmUnlink name => w.names name = none
  | _, _ => True

variable [DecidableEq ι]

theorem exec_replies {o : Request} {x : Choice} {r : Option o.Reply}
    (h : exec b i o x w = some (w', r)) : r ≠ none := by
  rintro rfl
  unfold exec at h
  cases o with
  | alloc =>
    cases x with
    | place p =>
      dsimp only at h
      split at h <;> cases h
    | _ => cases h
  | load p =>
    obtain ⟨sm, -, he⟩ := Option.map_eq_some_iff.1 h
    cases he
  | print => cases x <;> cases h
  | mmap =>
    cases x with
    | place a =>
      dsimp only at h
      split at h <;> cases h
    | _ => cases h
  | shmOpen | ftruncate | fstat | shmUnlink | pushBack | remove | validate | assertFalse =>
    dsimp only at h
    split at h <;> cases h
  | free | store | munmap | close | enter | leave => cases h

section
variable {own : List UInt8 → Option (ι × Addr)} {gs : ι → Stage} {c : Call} {x : Choice}

/-- Removing a name keeps the invariant when the block that does it owns the name, or no object has
it. -/
theorem Owned.unlink (h : Owned own w gs) (hm : may c (gs i) (.shmUnlink name))
    (hs : Spares c (.shmUnlink name) w) : ∃ p, (gs i).Has p ∧
      Owned own (w.setName name none) (Function.update gs i (.holds p)) := by
  have hk := h.known i
  rcases hm with ⟨p, fd, hg⟩ | ⟨p, sm, hg, hc, rfl⟩ | ⟨p, n, rfl, hg⟩
  · have hp : (gs i).Has p := .inl ⟨name, fd, hg⟩
    rw [hg] at hk
    exact ⟨p, hp, h.removeName (h.notMem_registry hp) hk.2.mine⟩
  · have hp : (gs i).Has p := .inr (.inl ⟨sm, hg⟩)
    rw [hg] at hk
    exact ⟨p, hp, h.removeName (h.notMem_registry hp) (hk.2.title hc).mine⟩
  · have hp : (gs i).Has p := by
      rcases hg with hg | ⟨sm, hg, -⟩
      · exact .inr (.inr hg)
      · exact .inr (.inl ⟨sm, hg⟩)
    have hnone : w.names name = none := hs
    have hsame : w.setName name none = w := by
      unfold World.setName
      rw [← hnone, Function.update_eq_self]
    rw [hsame]
    exact ⟨p, hp, h.learn (h.notMem_registry hp)⟩

/-! ## Requests -/

/-- A reply takes the call to a next stage, and what is owned stays so. -/
def Replied (gs : ι → Stage) (i : ι) (o : Request) (r : o.Reply) (w' : World ι) : Prop :=
  ∃ g, next (gs i) o r g ∧ Inv w' (Function.update gs i g)

theorem Owned.replied (h : Owned own w gs) {o : Request} {r : o.Reply}
    (hn : next (gs i) o r (gs i)) : Replied gs i o r w :=
  ⟨gs i, hn, own, h.learn (h.known i)⟩

theorem Owned.reply_alloc (h : Owned own w gs) {r : Addr} (hidle : gs i = .idle)
    (he : exec b i .alloc x w = some (w', some r)) : Replied gs i .alloc r w' := by
  have hrefuse : some (w, some (0 : Addr)) = some (w', some r) → Replied gs i .alloc r w' := by
    intro he
    cases he
    exact h.replied (hidle.trans (if_pos rfl).symm)
  cases x with
  | place p =>
    by_cases hp : p ≠ 0 ∧ w.blocks i p = none
    · simp only [exec, if_pos hp] at he
      cases he
      have hnew : r ∉ w.registry i := by
        intro hmem
        obtain ⟨sm, hf⟩ := h.filled i r hmem
        exact Option.some_ne_none _ (hf.block.symm.trans hp.2)
      exact ⟨.holds r, (if_neg hp.1).symm, own, h.setBlock hnew hnew⟩
    · simp only [exec, if_neg hp] at he
      cases he
  | succeed => exact hrefuse he
  | fail => exact hrefuse he
  | text left => exact hrefuse he

theorem Owned.reply_free (h : Owned own w gs) (hm : may c (gs i) (.free p)) :
    Replied gs i (.free p) () (w.setBlock i p none) := by
  have hp : (gs i).Has p := by
    rcases hm with hm | ⟨sm, hm, -⟩
    · exact .inr (.inr hm)
    · exact .inr (.inl ⟨sm, hm⟩)
  exact ⟨.idle, rfl, own, h.setBlock (h.notMem_registry hp) trivial⟩

theorem Owned.reply_store (h : Owned own w gs) (hm : may c (gs i) (.store p sm)) :
    Replied gs i (.store p sm) () (w.setBlock i p (some sm)) := by
  have hp : (gs i).Has p := by
    rcases hm with hm | ⟨fd, hm, -⟩
    · exact .inr (.inr hm.1)
    · exact .inl ⟨_, fd, hm⟩
  have hnew := h.notMem_registry hp
  refine ⟨.stored p sm, rfl, own, h.setBlock hnew ⟨hnew, ?_, ?_⟩⟩
  · simp [World.setBlock]
  · intro hc
    rcases hm with hm | ⟨fd, hm, hfile⟩
    · rw [hm.2] at hc
      cases hc
    · have hk := h.known i
      rw [hm] at hk
      rw [hfile]
      exact hk.2.same rfl rfl

theorem Owned.reply_load (h : Owned own w gs) {r : SkyHandleShareMem} (hg : gs i = .taken p)
    (he : exec b i (.load p) x w = some (w', some r)) : Replied gs i (.load p) r w' := by
  have hk := h.known i
  rw [hg] at hk
  obtain ⟨hp, sm, hf⟩ := hk
  simp only [exec, hf.block, Option.map_some] at he
  cases he
  exact ⟨.stored p r, rfl, own, h.learn ⟨hp, hf⟩⟩

theorem Owned.reply_print (h : Owned own w gs) {size : Nat} {before : List UInt8} {n : CStr}
    {r : Int × List UInt8} (he : exec b i (.print size before n) x w = some (w', some r)) :
    Replied gs i (.print size before n) r w' := by
  have hprint : ∀ left, some (w, some (skyStrPrintf size before n left)) = some (w', some r) →
      Replied gs i (.print size before n) r w' := by
    intro left he
    cases he
    exact h.replied ⟨rfl, left, rfl⟩
  cases x with
  | text left => exact hprint left he
  | place p => exact hprint [] he
  | succeed => exact hprint [] he
  | fail => exact hprint [] he

/-- A name that is made is owned by the call; one that is there is only opened. -/
theorem Owned.reply_shmOpen (h : Owned own w gs) {create : Bool} {r : Option Nat}
    (hm : may c (gs i) (.shmOpen name create))
    (he : exec b i (.shmOpen name create) x w = some (w', some r)) :
    Replied gs i (.shmOpen name create) r w' := by
  by_cases hx : x = .fail
  · simp only [exec, if_pos hx] at he
    cases he
    exact h.replied (by cases create <;> rfl)
  simp only [exec, if_neg hx] at he
  cases hn : w.names name with
  | none =>
    simp only [World.shmOpen, hn] at he
    cases create with
    | true =>
      cases he
      obtain ⟨p, hg⟩ := hm
      have hp := h.notMem_registry (p := p) (.inr (.inr hg))
      exact ⟨.owns p name w.opened.length, ⟨p, hg, rfl⟩, _, h.makeName hp hn⟩
    | false =>
      cases he
      exact h.replied rfl
  | some object =>
    simp only [World.shmOpen, hn] at he
    cases create with
    | true =>
      cases he
      exact h.replied rfl
    | false =>
      cases he
      have hkernel := h.kernel (w.openObject object) (List.prefix_append _ _) rfl rfl rfl rfl i
      exact ⟨gs i, rfl, own, hkernel⟩

theorem Owned.reply_ftruncate (h : Owned own w gs) {file : Nat} {size : UInt32} {r : Bool}
    (he : exec b i (.ftruncate file size) x w = some (w', some r)) :
    Replied gs i (.ftruncate file size) r w' := by
  by_cases hx : x = .fail
  · simp only [exec, if_pos hx] at he
    cases he
    exact h.replied rfl
  simp only [exec, if_neg hx] at he
  cases hf : w.opened[file]? with
  | none =>
    simp only [World.ftruncate, hf] at he
    cases he
    exact h.replied rfl
  | some object =>
    simp only [World.ftruncate, hf] at he
    cases he
    exact ⟨gs i, rfl, own, h.kernel { w with sizes := Function.update w.sizes object size.toNat }
      (List.prefix_refl _) rfl rfl rfl rfl i⟩

theorem Owned.reply_shmUnlink (h : Owned own w gs) (hs : Spares c (.shmUnlink name) w)
    (hm : may c (gs i) (.shmUnlink name))
    (he : exec b i (.shmUnlink name) x w = some (w', some ())) :
    Replied gs i (.shmUnlink name) () w' := by
  obtain ⟨p, hp, hown⟩ := h.unlink hm hs
  by_cases hx : x = .fail
  · simp only [exec, if_pos hx] at he
    cases he
    exact ⟨.holds p, ⟨p, rfl, hp⟩, own, h.learn (h.notMem_registry hp)⟩
  · simp only [exec, if_neg hx] at he
    cases he
    exact ⟨.holds p, ⟨p, rfl, hp⟩, own, hown⟩

theorem Owned.reply_pushBack (h : Owned own w gs) {r : Bool} (hm : may c (gs i) (.pushBack p))
    (he : exec b i (.pushBack p) x w = some (w', some r)) : Replied gs i (.pushBack p) r w' := by
  obtain ⟨sm, hg⟩ := hm
  by_cases hc : (w.registry i).length < maxShareMemCount ∧ x ≠ .fail
  · simp only [exec, if_pos hc] at he
    cases he
    exact ⟨_, ⟨p, sm, hg, rfl⟩, own, h.pushBack hg⟩
  · simp only [exec, if_neg hc] at he
    cases he
    exact h.replied rfl

theorem Owned.reply_remove (h : Owned own w gs) {r : Addr} (hg : gs i = .removing p)
    (he : exec b i (.remove p) x w = some (w', some r)) : Replied gs i (.remove p) r w' := by
  by_cases hp : p ∈ w.registry i
  · simp only [exec, if_pos hp] at he
    cases he
    have htaken := h.remove hg hp
    by_cases hz : p = 0
    · have hidle := htaken.learn (i := i) (g := .idle) trivial
      rw [Function.update_idem] at hidle
      exact ⟨.idle, (if_pos hz).symm, own, hidle⟩
    · exact ⟨.taken p, (if_neg hz).symm, own, htaken⟩
  · simp only [exec, if_neg hp] at he
    cases he
    exact ⟨.idle, (if_pos rfl).symm, own, h.learn trivial⟩

/-- The requests that only bring back a reply. -/
def Request.Quiet : Request → Prop
  | .fstat _ | .mmap _ _ | .munmap _ _ | .close _ | .enter | .leave => True
  | .validate _ | .assertFalse => True
  | _ => False

theorem exec_quiet {o : Request} {r : Option o.Reply} (ho : o.Quiet)
    (he : exec b i o x w = some (w', r)) : w' = w := by
  cases o with
  | fstat file =>
    by_cases hx : x = .fail
    · simp only [exec, if_pos hx] at he
      cases he
      rfl
    · simp only [exec, if_neg hx] at he
      cases he
      rfl
  | mmap length file =>
    cases x with
    | place a =>
      by_cases hc : length = 0 ∨ w.opened[file]? = none
      · simp only [exec, if_pos hc] at he
        cases he
        rfl
      · simp only [exec, if_neg hc] at he
        cases he
        rfl
    | _ =>
      cases he
      rfl
  | munmap | close | enter | leave =>
    cases he
    rfl
  | validate p =>
    by_cases hc : b.assertAborts = true ∧ (p = 0 ∨ w.blocks i p = none)
    · simp only [exec, if_pos hc] at he
      cases he
    · simp only [exec, if_neg hc] at he
      cases he
      rfl
  | assertFalse =>
    by_cases hc : b.assertAborts = true
    · simp only [exec, if_pos hc] at he
      cases he
    · simp only [exec, if_neg hc] at he
      cases he
      rfl
  | _ => exact ho.elim

omit [DecidableEq ι] in
theorem next_quiet {g : Stage} {o : Request} {r : o.Reply} (ho : o.Quiet) : next g o r g := by
  cases o <;> first | exact ho.elim | rfl

theorem Owned.reply_quiet (h : Owned own w gs) {o : Request} {r : o.Reply} (ho : o.Quiet)
    (he : exec b i o x w = some (w', some r)) : Replied gs i o r w' := by
  rw [exec_quiet ho he]
  exact h.replied (next_quiet ho)

theorem Owned.reply (h : Owned own w gs) {o : Request} {r : o.Reply} (hs : Spares c o w)
    (hm : may c (gs i) o) (he : exec b i o x w = some (w', some r)) : Replied gs i o r w' := by
  cases o with
  | alloc => exact h.reply_alloc hm he
  | free p =>
    cases he
    exact h.reply_free hm
  | store p sm =>
    cases he
    exact h.reply_store hm
  | load p => exact h.reply_load hm he
  | print size before n => exact h.reply_print he
  | shmOpen name create => exact h.reply_shmOpen hm he
  | ftruncate file size => exact h.reply_ftruncate he
  | shmUnlink name => exact h.reply_shmUnlink hs hm he
  | pushBack p => exact h.reply_pushBack hm he
  | remove p => exact h.reply_remove hm he
  | fstat | mmap | munmap | close | enter | leave => exact h.reply_quiet trivial he
  | validate | assertFalse => exact h.reply_quiet trivial he

end

theorem Owned.handOut {own : List UInt8 → Option (ι × Addr)} {gs : ι → Stage} {n : CStr}
    {size : UInt32} {r : Resp} (h : Owned own w gs) (hp : post (.create (some n) size) (gs i) r) :
    Owned own (handOut i (.create (some n) size) r w) (Function.update gs i .idle) := by
  cases r with
  | destroyed r => exact h.learn trivial
  | handle p =>
    by_cases hz : p = 0
    · simp only [Shm.handOut, if_pos hz]
      exact h.learn trivial
    simp only [Shm.handOut, if_neg hz]
    cases hp with
    | inl hp => exact absurd hp.1 hz
    | inr hp =>
      obtain ⟨sm, hg, hname⟩ := hp
      have hk := h.known i
      rw [hg] at hk
      obtain ⟨hmem, hc, hblock⟩ := hk
      refine h.setHanded ?_ trivial
      intro name object hv
      rw [hblock, Option.bind_some, Option.map_eq_some_iff] at hv
      obtain ⟨object', hobj, hv⟩ := hv
      cases hv
      exact ⟨hmem, sm, hblock, hc, hname, hobj⟩

/-- The rules of ownership, for runs in which names fit and the clean-up of an `open` finds no name
to remove. -/
theorem discipline : (processes ι b nameMax).Discipline (fun _ c _ => c.Fits nameMax)
    (fun _ c o w => Spares c o w) Inv .idle (fun _ => firstStage) (fun _ => may) (fun _ _ => next)
    (fun _ => post) where
  safe _ c _ hc := call_safe c hc
  enter i c w gs _ _ h := by
    obtain ⟨own, h⟩ := h
    cases c with
    | create name size => exact ⟨own, h.learn trivial⟩
    | «open» name => exact ⟨own, h.learn trivial⟩
    | destroy p =>
      refine ⟨own, h.setHanded ?_ ?_⟩
      · intro name object hv
        cases hv
      · simp [Known, firstStage, World.setHanded]
  reply i c o x w gs w' r hs hm h he := by
    obtain ⟨own, h⟩ := h
    exact h.reply hs hm he
  wait i c o x w gs w' _ _ _ he := absurd rfl (exec_replies he)
  leave i c r w gs hp h := by
    obtain ⟨own, h⟩ := h
    cases c with
    | create name size =>
      cases name with
      | none => exact ⟨own, h.learn trivial⟩
      | some name => exact ⟨own, h.handOut hp⟩
    | «open» name => exact ⟨own, h.learn trivial⟩
    | destroy p => exact ⟨own, h.learn trivial⟩

/-- A `create` that is about to return a handle hands it out, under the name it was called with. -/
def HandsOut (t : Conf ι (World ι) Request Request.Reply Call Resp) : Prop :=
  ∀ i name size p, t.calls i = some (.create (some name) size, .done (.handle p)) → p ≠ 0 →
    ∃ object, (handOut i (.create (some name) size) (.handle p) t.shared).handed i p =
      some (formatted nameSize shareMemNamePattern name, object)

theorem Owned.handsOut {own : List UInt8 → Option (ι × Addr)} {gs : ι → Stage} {n : CStr}
    {size : UInt32} (h : Owned own w gs) (hp : post (.create (some n) size) (gs i) (.handle p))
    (hz : p ≠ 0) :
    ∃ object, (Shm.handOut i (.create (some n) size) (.handle p) w).handed i p =
      some (formatted nameSize shareMemNamePattern n, object) := by
  obtain ⟨sm, hg, hname⟩ := hp.resolve_left fun hp => hz hp.1
  have hk := h.known i
  rw [hg] at hk
  obtain ⟨hmem, hc, hblock⟩ := hk
  obtain ⟨sm', hf⟩ := h.filled i p hmem
  have hsm : sm' = sm := Option.some.inj (hf.block.symm.trans hblock)
  subst hsm
  obtain ⟨object, hobj, -⟩ := (hf.title hc).bound
  refine ⟨object, ?_⟩
  simp only [Shm.handOut, if_neg hz, World.setHanded, Function.update_self, hblock,
    Option.bind_some, hobj, Option.map_some]

/-- In a run whose names fit and in which no failing `open` finds a name to remove, every name
handed out stays bound until its handle is given to a `destroy`. -/
theorem names_bound_of_spares {as : List (Act ι Call Choice)}
    {t : Conf ι (World ι) Request Request.Reply Call Resp}
    (hr : (processes ι b nameMax).Runs (fun _ c _ => c.Fits nameMax) (fun _ c o w => Spares c o w)
      (System.idle (World.start ι)) as t) : NamesBound t.shared ∧ HandsOut t := by
  have h0 : Inv (World.start ι) fun _ => .idle := by
    refine ⟨fun _ => none, fun _ => trivial, ?_, fun _ => List.nodup_nil, ?_⟩
    · intro i p hp
      cases hp
    · intro i p name object hh
      cases hh
  obtain ⟨gs, ⟨own, h⟩, hknows⟩ := discipline.runs hr ⟨fun _ => .idle, h0, fun _ => rfl⟩
  refine ⟨h.namesBound, ?_⟩
  intro i name size p hcall hz
  have hk := hknows i
  rw [hcall] at hk
  exact h.handsOut hk hz

/-! ## A name removed by an `open` -/

/-- `"a"` -/
def nameA : CStr := ⟨[97], CStr.noNul_a⟩

/-- The steps of a process that creates `"a"`, up to the descriptor. -/
def createA (i : ι) : List (Act ι Call Choice) :=
  .start i (.create (some nameA) 8) ::
    [.place 8, .succeed, .succeed].map (Act.run i)

/-- The rest of them: size, mapping, registration. -/
def finishA (i : ι) : List (Act ι Call Choice) :=
  [.succeed, .place 16, .succeed, .succeed, .succeed, .succeed].map (Act.run i) ++ [.finish i]

/-- The steps of a process that opens `"a"` while its size is 0, up to the removal of the name. -/
def openA (i : ι) : List (Act ι Call Choice) :=
  .start i (.open (some nameA)) ::
    [.place 8, .succeed, .succeed, .succeed, .place 16, .succeed].map (Act.run i)

/-- Process `true` opens the object between the `shm_open` and the `ftruncate` of process `false`,
maps nothing of it, and removes its name after it has been handed out. -/
theorem open_removes_name : ∃ t,
    (processes Bool ⟨0, false⟩ 256).run (System.idle (World.start Bool))
      (createA false ++ openA true ++ finishA false ++ [.run true .succeed]) = some t ∧
    t.shared.handed false 8 = some ([47, 97], 0) ∧ ¬ NamesBound t.shared := by
  refine ⟨_, rfl, rfl, ?_⟩
  intro h
  cases h false 8 [47, 97] 0 rfl

/-- A run in which `"a"` is created and stays. -/
theorem names_bound_created : ∃ as t,
    (processes Bool ⟨0, false⟩ 256).Runs (fun _ c _ => c.Fits 256) (fun _ c o w => Spares c o w)
      (System.idle (World.start Bool)) as t ∧
    t.shared.handed false 8 = some ([47, 97], 0) ∧ NamesBound t.shared ∧ HandsOut t := by
  have hfits : (Call.create (some nameA) 8).Fits 256 := by
    intro _
    change (1 : Nat) < intMax
    decide
  obtain ⟨t, hrun, hhanded⟩ : ∃ t,
      (processes Bool ⟨0, false⟩ 256).run (System.idle (World.start Bool))
        (.start false (.create (some nameA) 8) :: ([.place 8, .succeed, .succeed, .succeed,
          .place 16, .succeed, .succeed, .succeed, .succeed] : List Choice).map (Act.run false) ++
          [.finish false]) = some t ∧
      t.shared.handed false 8 = some ([47, 97], 0) := ⟨_, rfl, rfl⟩
  have hruns : (processes Bool ⟨0, false⟩ 256).Runs (fun _ c _ => c.Fits 256)
      (fun _ c o w => Spares c o w) (System.idle (World.start Bool)) _ t :=
    System.runs_call hfits (fun _ _ => trivial) hrun
  exact ⟨_, t, hruns, hhanded, names_bound_of_spares hruns⟩

end Sky.Shm
