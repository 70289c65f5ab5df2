import SkySdk.Shm.Proof.Host
import SkySdk.Shm.Proof.Registry

/-!
# What a failing call leaves

A `create` undoes what it has done from its `shm_open` on (`create_clean`), and so does an `open`,
which then also removes the name that it has not made (`hostOpen_ends`). Before that the clean-up
goes by a struct that is zero-filled (`named_long_iff`).
-/

set_option autoImplicit false

namespace Sky.Shm

open Base

variable {E : Env} {sizes : Nat → Option Nat} {b : Build} {h0 h : Host} {p : Addr}
  {sm sm0 : SkyHandleShareMem} {name : CStr} {size : UInt32} {nameMax k : Nat}
  {B : Ledger SkyHandleShareMem} {M : Multiset (Addr × Nat)} {D : Multiset Nat}
  {N : List UInt8 → Option Nat}

/-! ## Calls -/

theorem Has.unchanged (h' : Has h0 h0.process.blocks.entries h0.process.maps h0.process.files
    h0.names h) : Unchanged h0 h :=
  ⟨h'.blocks, h'.maps, h'.files, h'.registry, h'.names⟩

/-- The clean-up of a call undoes exactly what was done. -/
theorem cleanUp_clean (h' : Has h0 (cell p sm0 + h0.process.blocks.entries) M D N h)
    (hmaps : unmapped sm M = h0.process.maps) (hfiles : closed sm D = h0.process.files)
    (hnames : unlinked sm N = h0.names) :
    EndsOn E sizes b (cleanUp p sm) h fun r h1 => r = 0 → Unchanged h0 h1 := by
  refine (hostCleanUp_ends h').mono ?_
  intro r h1 hend _
  obtain ⟨-, hend⟩ := hend
  rw [hmaps, hfiles, hnames] at hend
  exact hend.unchanged

section
variable {f : Addr → Int × List UInt8 → ShmM Addr} {Q : Addr → Host → Prop}

/-- The beginning of `create` and `open`, up to `shm_open`. -/
def named (name : CStr) (f : Addr → Int × List UInt8 → ShmM Addr) : ShmM Addr := do
  let p ← request .alloc
  if p = 0 then pure 0
  else do
    let printed ← request (.print nameSize shareMemNamePattern name)
    if printed.1 ≤ 0 then
      cleanUp p { zeroShareMem with
        cb := 152, handleType := SkyHandleType.shareMemory.code, name := printed.2 }
    else f p printed

theorem named_refused (hgrant : ¬ E.blocks.grants h0.process.blocks.time = true) :
    FailsClean E sizes b (named name f) h0 := by
  refine hostRequest_ends hostAlloc_ends ?_
  intro p h1 hh1
  rw [if_neg hgrant] at hh1
  obtain ⟨rfl, hh1⟩ := hh1
  rw [if_pos rfl]
  exact hostPure_ends fun _ => hh1.unchanged

/-- From where the struct is granted and the name is given to `vsnprintf`. -/
theorem named_granted (hgrant : E.blocks.grants h0.process.blocks.time = true)
    (hf : ∀ p printed h, p ≠ 0 → Early h0 0 (cell p zeroShareMem + h0.process.blocks.entries)
        h0.process.maps h0.process.files h0.names h →
      printed = skyStrPrintf nameSize shareMemNamePattern name (E.left h0.process.log.length) →
      EndsOn E sizes b (if printed.1 ≤ 0 then
          cleanUp p { zeroShareMem with
            cb := 152, handleType := SkyHandleType.shareMemory.code, name := printed.2 }
        else f p printed) h Q) :
    EndsOn E sizes b (named name f) h0 Q := by
  refine hostRequest_ends hostAlloc_ends ?_
  intro p h1 hh1
  rw [if_pos hgrant] at hh1
  obtain ⟨hp, hh1⟩ := hh1
  rw [if_neg hp]
  refine hostRequest_ends (hostPrint_ends hh1) ?_
  intro printed h2 hh2
  obtain ⟨hprinted, rfl⟩ := hh2
  exact hf p printed _ hp hh1 hprinted

/-- The name cannot be formatted. -/
theorem named_unprinted (hgrant : E.blocks.grants h0.process.blocks.time = true)
    (hlong : intMax ≤ name.length) : EndsOn E sizes b (named name f) h0 fun r h =>
      r = 0 ∧ Has h0 h0.process.blocks.entries h0.process.maps (h0.process.files.erase 0)
        (Function.update h0.names (E.left h0.process.log.length) none) h := by
  refine named_granted hgrant fun p printed h1 hp hh1 hprinted => ?_
  have hfit : ¬ shareMemNamePattern.length + name.length ≤ intMax := by
    change ¬ 1 + name.length ≤ intMax
    omega
  rw [hprinted, skyStrPrintf, if_neg hfit, if_pos (show (-1 : Int) ≤ 0 by decide)]
  exact hostCleanUp_ends hh1.has

/-- The name is formatted. -/
theorem named_printed (hgrant : E.blocks.grants h0.process.blocks.time = true)
    (hfit : name.length < intMax)
    (hf : ∀ p n h, p ≠ 0 → Early h0 0 (cell p zeroShareMem + h0.process.blocks.entries)
        h0.process.maps h0.process.files h0.names h →
      EndsOn E sizes b (f p (n, formatted nameSize shareMemNamePattern name)) h Q) :
    EndsOn E sizes b (named name f) h0 Q := by
  refine named_granted hgrant fun p printed h1 hp hh1 hprinted => ?_
  rw [hprinted, print_fits hfit, if_neg (show ¬ (1 + name.length : Int) ≤ 0 by omega)]
  exact hf p _ _ hp hh1

end

/-- A handle is registered if there is room, else what was done is undone. -/
theorem hostRegister_ends (hlist : Listed h0.process)
    (h' : Early h0 k (cell p sm0 + B) M D N h) :
    EndsOn E sizes b (register p sm) h fun r h1 =>
      r = p ∧ Registers E h0.process ∨
        r = 0 ∧ ¬ Registers E h0.process ∧
          Has h0 B (unmapped sm M) (closed sm D) (unlinked sm N) h1 := by
  unfold register
  refine hostRequest_ends (hostStore_ends h') ?_
  intro _ h1 hh1
  refine hostRequest_ends hostEnter_ends ?_
  rintro _ h1 rfl
  refine hostRequest_ends (hostPushBack_ends hlist hh1) ?_
  intro r h2 hh2
  rcases hh2 with ⟨rfl, hroom⟩ | ⟨rfl, hfull, hh2⟩
  · rw [if_pos rfl]
    refine hostRequest_ends hostLeave_ends ?_
    rintro _ h2 rfl
    exact hostPure_ends (.inl ⟨rfl, hroom⟩)
  · rw [if_neg (by simp)]
    refine hostRequest_ends hostLeave_ends ?_
    rintro _ h2 rfl
    exact (hostCleanUp_ends hh2).mono fun r h3 hend => .inr ⟨hend.1, hfull, hend.2⟩

/-- A call that registers its handle, or undoes what was done. -/
theorem register_clean (hlist : Listed h0.process)
    (h' : Early h0 k (cell p sm0 + h0.process.blocks.entries) M D N h) (hp : p ≠ 0)
    (hmaps : unmapped sm M = h0.process.maps) (hfiles : closed sm D = h0.process.files)
    (hnames : unlinked sm N = h0.names) :
    EndsOn E sizes b (register p sm) h fun r h1 => r = 0 → Unchanged h0 h1 := by
  refine (hostRegister_ends hlist h').mono ?_
  intro r h1 hend hz
  rcases hend with ⟨rfl, -⟩ | ⟨-, -, hend⟩
  · exact absurd hz hp
  · rw [hmaps, hfiles, hnames] at hend
    exact hend.unchanged

section
variable {a : Addr} {fd length : Nat} {text : List UInt8} {created : Bool}

theorem unmapped_none (hptr : sm.ptr = none ∨ sm.size = 0) : unmapped sm M = M := by
  unfold unmapped
  cases hp : sm.ptr with
  | none => rfl
  | some a =>
    rcases hptr with hptr | hsize
    · rw [hp] at hptr
      cases hptr
    · exact if_pos hsize

theorem unmapped_withMap (hptr : sm.ptr = some a) (hsize : sm.size.toNat = length)
    (hz : length ≠ 0) : unmapped sm (withMap length (some a) M) = M := by
  have hne : sm.size ≠ 0 := by
    intro hc
    rw [hc] at hsize
    exact hz hsize.symm
  unfold unmapped withMap
  rw [hptr]
  simp only [if_neg hne, hsize, Multiset.erase_cons_head]

theorem closed_opened (hfile : sm.file = some fd) : closed sm (fileOf (some fd) + D) = D := by
  unfold closed fileOf
  rw [hfile]
  simp only [Multiset.singleton_add, Multiset.erase_cons_head]

/-- A name that was not bound is not bound again. -/
theorem unlinked_made {object : Nat} (hfile : sm.file = some fd) (hname : sm.name = text)
    (hfree : N text = none) :
    unlinked sm (Function.update N text (some object)) = N := by
  rw [unlinked, if_neg (by simp [hfile]), hname, Function.update_idem, ← hfree,
    Function.update_eq_self]

/-- When it does not fail before it has made the name, a `create` undoes all it has done. -/
theorem create_clean (hlist : Listed h0.process) (hlen : (skyStrLen name).toNat ≤ nameMax - 1)
    (hgrant : E.blocks.grants h0.process.blocks.time = true) (hfit : name.length < intMax) :
    FailsClean E sizes b (skyShareMemoryCreate nameMax (some name) size) h0 := by
  unfold FailsClean skyShareMemoryCreate
  dsimp only
  rw [if_neg (Nat.not_lt.2 hlen)]
  refine named_printed hgrant hfit ?_
  intro p n h hp hh
  refine hostRequest_ends (hostShmOpen_ends hh) ?_
  intro file h1 hh1
  obtain ⟨hfile, hh1⟩ := hh1
  cases file with
  | none =>
    refine cleanUp_clean hh1.has (unmapped_none (.inr rfl)) (zero_add _) ?_
    simp [unlinked]
  | some fd =>
    have hfree : h0.names (formatted nameSize shareMemNamePattern name) = none := by
      cases hbound : h0.names (formatted nameSize shareMemNamePattern name) with
      | none => rfl
      | some object =>
        simp [hbound] at hfile
    rw [if_pos (by simp)] at hh1
    refine hostRequest_ends (hostFtruncate_ends hh1) ?_
    intro sized h2 hh2
    cases sized with
    | false =>
      rw [if_neg (by simp)]
      exact cleanUp_clean hh2.has (unmapped_none (.inr rfl)) (closed_opened rfl)
        (unlinked_made rfl rfl hfree)
    | true =>
      rw [if_pos rfl]
      refine hostRequest_ends (hostMmap_ends hh2) ?_
      intro ptr h3 hh3
      obtain ⟨hptr, hh3⟩ := hh3
      cases ptr with
      | none =>
        rw [if_pos rfl]
        exact cleanUp_clean hh3.has (unmapped_none (.inl rfl)) (closed_opened rfl)
          (unlinked_made rfl rfl hfree)
      | some a =>
        rw [if_neg (by simp)]
        have hz : size.toNat ≠ 0 := by
          intro hc
          rw [if_pos hc] at hptr
          cases hptr
        exact register_clean hlist hh3 hp (unmapped_withMap rfl rfl hz) (closed_opened rfl)
          (unlinked_made rfl rfl hfree)

/-- An `open` opens nothing or registers its handle, unless it removes the name. -/
theorem hostOpen_ends (hlist : Listed h0.process) (hlen : (skyStrLen name).toNat ≤ nameMax - 1)
    (hgrant : E.blocks.grants h0.process.blocks.time = true) (hfit : name.length < intMax) :
    EndsOn E sizes b (skyShareMemoryOpen nameMax (some name)) h0 fun r h =>
      ¬ OpensInVain E sizes h0 name ∧ (r = 0 → Unchanged h0 h) ∨
        OpensInVain E sizes h0 name ∧ r = 0 ∧ h.names =
          Function.update h0.names (formatted nameSize shareMemNamePattern name) none := by
  unfold skyShareMemoryOpen
  dsimp only
  rw [if_neg (Nat.not_lt.2 hlen)]
  refine named_printed hgrant hfit ?_
  intro p n h hp hh
  refine hostRequest_ends (hostShmOpen_ends hh) ?_
  intro file h1 hh1
  obtain ⟨hfile, hh1⟩ := hh1
  rw [if_neg (by simp)] at hh1
  have hvain : OpensInVain E sizes h0 name ↔ file ≠ none ∧
      (sizes (h0.process.log.length + 1) = none ∨ sizes (h0.process.log.length + 1) = some 0 ∨
        E.mmap (h0.process.log.length + 2) = none ∨ ¬ Registers E h0.process) := by
    rw [hfile]
    cases hbound : h0.names (formatted nameSize shareMemNamePattern name) <;>
      simp [OpensInVain, hgrant, hfit, hbound]
  cases file with
  | none =>
    refine Ends.mono (cleanUp_clean hh1.has (unmapped_none (.inr rfl)) (zero_add _)
      (if_pos rfl)) ?_
    exact fun r h2 hend => .inl ⟨by simp [hvain], hend⟩
  | some fd =>
    refine hostRequest_ends (hostFstat_ends hh1) ?_
    intro stSize h2 hh2
    obtain ⟨hsize, hh2⟩ := hh2
    rw [← hsize] at hvain
    cases stSize with
    | none =>
      refine (hostCleanUp_ends hh2.has).mono ?_
      exact fun r h3 hend => .inr ⟨by simp [hvain], hend.1, hend.2.names⟩
    | some stSize =>
      refine hostRequest_ends (hostMmap_ends hh2) ?_
      intro ptr h3 hh3
      obtain ⟨hptr, hh3⟩ := hh3
      cases ptr with
      | none =>
        rw [if_pos rfl]
        refine (hostCleanUp_ends hh3.has).mono ?_
        refine fun r h4 hend => .inr ⟨?_, hend.1, hend.2.names⟩
        by_cases hz : stSize = 0
        · simp [hvain, hz]
        · rw [if_neg hz] at hptr
          simp [hvain, ← hptr]
      | some a =>
        rw [if_neg (by simp)]
        have hz : stSize ≠ 0 := by
          intro hc
          rw [if_pos hc] at hptr
          cases hptr
        rw [if_neg hz] at hptr
        refine (hostRegister_ends hlist hh3).mono ?_
        intro r h4 hend
        rcases hend with ⟨rfl, hroom⟩ | ⟨hr, hfull, hend⟩
        · exact .inl ⟨by simp [hvain, ← hptr, hz, hroom], fun hr => absurd hr hp⟩
        · exact .inr ⟨by simp [hvain, hfull], hr, hend.names⟩

theorem open_clean (hlist : Listed h0.process) (hlen : (skyStrLen name).toNat ≤ nameMax - 1)
    (hgrant : E.blocks.grants h0.process.blocks.time = true) (hfit : name.length < intMax)
    (hvain : ¬ OpensInVain E sizes h0 name) :
    FailsClean E sizes b (skyShareMemoryOpen nameMax (some name)) h0 := by
  refine (hostOpen_ends hlist hlen hgrant hfit).mono ?_
  intro r h1 hend
  rcases hend with ⟨-, hclean⟩ | ⟨hc, -⟩
  · exact hclean
  · exact absurd hc hvain

theorem open_unclean (hlist : Listed h0.process) (hlen : (skyStrLen name).toNat ≤ nameMax - 1)
    (hvain : OpensInVain E sizes h0 name) :
    ¬ FailsClean E sizes b (skyShareMemoryOpen nameMax (some name)) h0 := by
  have hends : EndsOn E sizes b (skyShareMemoryOpen nameMax (some name)) h0 _ :=
    hostOpen_ends hlist hlen hvain.1 hvain.2.1
  obtain ⟨r, h1, hrun, hend⟩ := hends
  obtain ⟨-, hr, hnames⟩ := hend.resolve_left fun hc => hc.1 hvain
  rw [FailsClean, ends_of_eq hrun]
  intro hclean
  refine hvain.2.2.1 ?_
  rw [← (hclean hr).names, hnames, Function.update_self]

/-- A call whose name cannot be formatted closes descriptor 0 and removes a name, if they are
there. -/
theorem named_long_iff {f : Addr → Int × List UInt8 → ShmM Addr}
    (hgrant : E.blocks.grants h0.process.blocks.time = true) (hlong : intMax ≤ name.length) :
    FailsClean E sizes b (named name f) h0 ↔ ¬ TouchesOther E h0 name := by
  have hends : EndsOn E sizes b (named name f) h0 _ := named_unprinted hgrant hlong
  obtain ⟨r, h1, hrun, hr, hend⟩ := hends
  rw [FailsClean, ends_of_eq hrun]
  constructor
  · intro hclean htouch
    have hunchanged := hclean hr
    rcases htouch.2.2 with hfile | hname
    · have hcount := congrArg (Multiset.count 0) (hend.files.symm.trans hunchanged.files)
      rw [Multiset.count_erase_self] at hcount
      have hpos := Multiset.count_pos.2 hfile
      omega
    · refine hname ?_
      rw [← hunchanged.names, hend.names, Function.update_self]
  · intro hno _
    have hfile : 0 ∉ h0.process.files := fun hc => hno ⟨hgrant, hlong, .inl hc⟩
    have hname : h0.names (E.left h0.process.log.length) = none := by
      by_contra hc
      exact hno ⟨hgrant, hlong, .inr hc⟩
    rw [Multiset.erase_of_notMem hfile, ← hname, Function.update_eq_self] at hend
    exact hend.unchanged

theorem create_eq_named (size : UInt32) (hlen : (skyStrLen name).toNat ≤ nameMax - 1) :
    ∃ f, skyShareMemoryCreate nameMax (some name) size = named name f :=
  ⟨_, if_neg (Nat.not_lt.2 hlen)⟩

theorem open_eq_named (hlen : (skyStrLen name).toNat ≤ nameMax - 1) :
    ∃ f, skyShareMemoryOpen nameMax (some name) = named name f :=
  ⟨_, if_neg (Nat.not_lt.2 hlen)⟩

/-- A failing call leaves everything as it was: a `create` unless its name cannot be formatted, when
there is a descriptor 0 or a name that it hits, and an `open` unless it has opened its name, too. -/
theorem failsClean_iff (hlist : Listed h0.process) (hlen : (skyStrLen name).toNat ≤ nameMax - 1) :
    (FailsClean E sizes b (skyShareMemoryCreate nameMax (some name) size) h0 ↔
      ¬ TouchesOther E h0 name) ∧
    (FailsClean E sizes b (skyShareMemoryOpen nameMax (some name)) h0 ↔
      ¬ TouchesOther E h0 name ∧ ¬ OpensInVain E sizes h0 name) := by
  obtain ⟨f, hcreate⟩ := create_eq_named size hlen
  obtain ⟨g, hopen⟩ := open_eq_named hlen
  by_cases hgrant : E.blocks.grants h0.process.blocks.time = true
  · rcases Nat.lt_or_ge name.length intMax with hfit | hlong
    · have hno : ¬ TouchesOther E h0 name := fun htouch => Nat.not_le.2 hfit htouch.2.1
      refine ⟨iff_of_true (create_clean hlist hlen hgrant hfit) hno, ?_⟩
      by_cases hvain : OpensInVain E sizes h0 name
      · exact iff_of_false (open_unclean hlist hlen hvain) fun hc => hc.2 hvain
      · exact iff_of_true (open_clean hlist hlen hgrant hfit hvain) ⟨hno, hvain⟩
    · have hno : ¬ OpensInVain E sizes h0 name :=
        fun hvain => Nat.not_lt.2 hlong hvain.2.1
      rw [hcreate, hopen, and_iff_left hno]
      exact ⟨named_long_iff hgrant hlong, named_long_iff hgrant hlong⟩
  · have htouch : ¬ TouchesOther E h0 name := fun htouch => hgrant htouch.1
    have hvain : ¬ OpensInVain E sizes h0 name := fun hvain => hgrant hvain.1
    rw [hcreate, hopen]
    exact ⟨iff_of_true (named_refused hgrant) htouch,
      iff_of_true (named_refused hgrant) ⟨htouch, hvain⟩⟩

end

/-! ## Failing calls -/

/-- After `sky_share_memory_init` and any calls. -/
theorem At.listed {G : Ledger LinkedList.Block} {l : Addr} {fit : Prop} {s : Process}
    {R : Resources} {ys : List Addr} (h' : At G l fit s R ys) : Listed s := by
  obtain ⟨ns, ps, S, -⟩ := h'.shape
  exact ⟨G, ns, ps, h'.list ▸ S⟩

theorem exists_listed (b : Build) : ∃ s1,
    skyShareMemoryInit willing b newProcess = .ok (true, s1) ∧ Listed s1 := by
  obtain ⟨s1, hinit⟩ := exists_init b
  obtain ⟨G, l, xs, hxs, -, hat⟩ := init_holding True rfl hinit
  exact ⟨s1, hinit, hat.listed⟩

/-- Neither a size nor a mapping can be had. -/
def unmappable : Env := { willing with ftruncate := fun _ => false, mmap := fun _ => none }

/-- The process, on a machine with these names. -/
def hostOf (s : Process) (names : List UInt8 → Option Nat) : Host := ⟨s, names, 1⟩

/-- A `create` and an `open` that fail cleanly: there is no such name yet. -/
theorem failsClean_unbound : ∃ s1,
    skyShareMemoryInit willing LinkedList.plainBuild newProcess = .ok (true, s1) ∧
      FailsClean unmappable (fun _ => some 4096) LinkedList.plainBuild
        (skyShareMemoryCreate 256 (some oneLetter) 8) (hostOf s1 fun _ => none) ∧
      FailsClean unmappable (fun _ => some 4096) LinkedList.plainBuild
        (skyShareMemoryOpen 256 (some oneLetter)) (hostOf s1 fun _ => none) := by
  obtain ⟨s1, hinit, hlist⟩ := exists_listed LinkedList.plainBuild
  have hno : ¬ TouchesOther unmappable (hostOf s1 fun _ => none) oneLetter :=
    fun htouch => absurd htouch.2.1 (by decide)
  have hiff : (FailsClean unmappable (fun _ => some 4096) LinkedList.plainBuild
        (skyShareMemoryCreate 256 (some oneLetter) 8) (hostOf s1 fun _ => none) ↔ _) ∧
      (FailsClean unmappable (fun _ => some 4096) LinkedList.plainBuild
        (skyShareMemoryOpen 256 (some oneLetter)) (hostOf s1 fun _ => none) ↔ _) :=
    failsClean_iff hlist (by decide)
  exact ⟨s1, hinit, hiff.1.2 hno, hiff.2.2 ⟨hno, fun hvain => hvain.2.2.1 rfl⟩⟩

/-- As long as an `int` can count. -/
def endlessName : CStr := ⟨.replicate intMax 97, CStr.noNul_replicate intMax⟩

theorem length_endlessName : endlessName.length = intMax := List.length_replicate

theorem skyStrLen_endlessName : (skyStrLen endlessName).toNat ≤ 4294967295 - 1 := by
  rw [skyStrLen, length_endlessName]
  decide

/-- An `open` of a name that is bound, which cannot be mapped, removes the name; a `create` with a
name that is too long to be formatted closes descriptor 0. -/
theorem not_failsClean : ∃ s1,
    skyShareMemoryInit willing LinkedList.plainBuild newProcess = .ok (true, s1) ∧
      ¬ FailsClean unmappable (fun _ => some 4096) LinkedList.plainBuild
        (skyShareMemoryOpen 256 (some oneLetter)) (hostOf s1 fun _ => some 0) ∧
      ¬ FailsClean willing (fun _ => some 4096) LinkedList.plainBuild
        (skyShareMemoryCreate 4294967295 (some endlessName) 8)
        (hostOf { s1 with files := {0} } fun _ => none) := by
  obtain ⟨s1, hinit, hlist⟩ := exists_listed LinkedList.plainBuild
  refine ⟨s1, hinit, open_unclean hlist (by decide) ?_, ?_⟩
  · exact ⟨rfl, by decide, by simp [hostOf], by simp [unmappable, willing],
      .inr (.inr (.inl rfl))⟩
  · have hlong : intMax ≤ endlessName.length := by simp [endlessName, CStr.length]
    obtain ⟨f, hcreate⟩ := create_eq_named 8 skyStrLen_endlessName
    rw [hcreate, named_long_iff rfl hlong]
    exact fun hno => hno ⟨rfl, hlong, .inl (Multiset.mem_singleton_self 0)⟩

end Sky.Shm
