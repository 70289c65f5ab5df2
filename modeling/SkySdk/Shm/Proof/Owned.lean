import SkySdk.Shm.Proof.Stages
import SkySdk.Shm.World

/-!
# Whose name it is

A name that a `create` has made belongs to one block of one process, from `shm_open` on: to the
block the call is filling in, then to the handle on the registry, then to the block a `destroy` has
taken from it. `Owned` says what the registries, the callers and the calls own, given the owner of
each name; each of its rules is about one thing that a request does.
-/

set_option autoImplicit false

namespace Sky.Shm

open Base

variable {ι : Type} {w w' : World ι} {i j : ι} {p q : Addr} {sm : SkyHandleShareMem}
  {name : List UInt8}

/-! ## What the stages own -/

/-- The block `p` of process `i` owns the name, and the name is bound to the object of the
descriptor. -/
structure Title (w : World ι) (own : List UInt8 → Option (ι × Addr)) (i : ι) (p : Addr)
    (name : List UInt8) (file : Option Nat) : Prop where
  mine : own name = some (i, p)
  bound : ∃ object, w.objectOf file = some object ∧ w.names name = some object

/-- The struct in a block, with the name of one made by `create`. -/
structure Filled (w : World ι) (own : List UInt8 → Option (ι × Addr)) (i : ι) (p : Addr)
    (sm : SkyHandleShareMem) : Prop where
  block : w.blocks i p = some sm
  title : sm.isCreator = true → Title w own i p sm.name sm.file

def Known (w : World ι) (own : List UInt8 → Option (ι × Addr)) (i : ι) : Stage → Prop
  | .idle => True
  | .removing p => w.handed i p = none
  | .holds p => p ∉ w.registry i
  | .owns p name fd => p ∉ w.registry i ∧ Title w own i p name (some fd)
  | .stored p sm => p ∉ w.registry i ∧ Filled w own i p sm
  | .taken p => p ∉ w.registry i ∧ ∃ sm, Filled w own i p sm
  | .made p sm => p ∈ w.registry i ∧ sm.isCreator = true ∧ w.blocks i p = some sm

/-- What the registries, the callers and the calls own, when `own` says whose each name is. -/
structure Owned (own : List UInt8 → Option (ι × Addr)) (w : World ι) (gs : ι → Stage) : Prop where
  known : ∀ i, Known w own i (gs i)
  filled : ∀ i, ∀ p ∈ w.registry i, ∃ sm, Filled w own i p sm
  nodup : ∀ i, (w.registry i).Nodup
  handed : ∀ i p name object, w.handed i p = some (name, object) →
    p ∈ w.registry i ∧ ∃ sm, w.blocks i p = some sm ∧ sm.isCreator = true ∧ sm.name = name ∧
      w.objectOf sm.file = some object

theorem Owned.namesBound {own : List UInt8 → Option (ι × Addr)} {gs : ι → Stage}
    (h : Owned own w gs) : NamesBound w := by
  intro i p name object hh
  obtain ⟨hp, sm, hb, hc, rfl, hobj⟩ := h.handed i p name object hh
  obtain ⟨sm', hf⟩ := h.filled i p hp
  have hsm : sm' = sm := Option.some.inj (hf.block.symm.trans hb)
  subst hsm
  obtain ⟨object', hobj', hbound⟩ := (hf.title hc).bound
  rw [hobj] at hobj'
  cases hobj'
  exact hbound

/-- A block that the process may write to is off its registry. -/
theorem Owned.notMem_registry {own : List UInt8 → Option (ι × Addr)} {gs : ι → Stage}
    (h : Owned own w gs) (hp : (gs i).Has p) : p ∉ w.registry i := by
  have hk := h.known i
  rcases hp with ⟨name, fd, hs⟩ | ⟨sm, hs⟩ | hs
  · rw [hs] at hk
    exact hk.1
  · rw [hs] at hk
    exact hk.1
  · rw [hs] at hk
    exact hk

/-! ## What a step keeps -/

section
variable {own own' : List UInt8 → Option (ι × Addr)} {gs : ι → Stage} {g : Stage}
  {file : Option Nat}

theorem objectOf_mono (ho : w.opened <+: w'.opened) {object : Nat}
    (h : w.objectOf file = some object) : w'.objectOf file = some object := by
  obtain ⟨fd, hfd, hobj⟩ := Option.bind_eq_some_iff.1 h
  obtain ⟨rest, hrest⟩ := ho
  refine Option.bind_eq_some_iff.2 ⟨fd, hfd, ?_⟩
  rw [← hrest, List.getElem?_append_left (List.getElem?_eq_some_iff.1 hobj).1, hobj]

theorem Title.names_ne_none (h : Title w own i p name file) : w.names name ≠ none := by
  obtain ⟨object, -, hn⟩ := h.bound
  rw [hn]
  exact Option.some_ne_none object

theorem Title.keep (h : Title w own i p name file) (ho : w.opened <+: w'.opened)
    (hn : w'.names name = w.names name) (hown : own' name = own name) :
    Title w' own' i p name file := by
  obtain ⟨object, hobj, hbound⟩ := h.bound
  exact ⟨hown.trans h.mine, object, objectOf_mono ho hobj, hn.trans hbound⟩

/-- Titles do not depend on the registries and the callers. -/
theorem Title.same (h : Title w own i p name file) (ho : w'.opened = w.opened)
    (hn : w'.names = w.names) : Title w' own i p name file :=
  h.keep (ho ▸ List.prefix_refl _) (congrFun hn name) rfl

theorem Filled.keep (h : Filled w own i p sm) (hb : w'.blocks i p = w.blocks i p)
    (ht : ∀ name file, Title w own i p name file → Title w' own' i p name file) :
    Filled w' own' i p sm :=
  ⟨hb.trans h.block, fun hc => ht _ _ (h.title hc)⟩

theorem Known.keep (h : Known w own i g) (hr : w'.registry i = w.registry i)
    (hh : w'.handed i = w.handed i) (hb : ∀ q, w'.blocks i q = w.blocks i q)
    (ht : ∀ q name file, Title w own i q name file → Title w' own' i q name file) :
    Known w' own' i g := by
  cases g with
  | idle => trivial
  | removing q => exact (congrFun hh q).trans h
  | holds q => exact fun hq => h (hr ▸ hq)
  | owns q name fd =>
    obtain ⟨hq, htitle⟩ := h
    exact ⟨fun hq' => hq (hr ▸ hq'), ht q _ _ htitle⟩
  | stored q sm =>
    obtain ⟨hq, hf⟩ := h
    exact ⟨fun hq' => hq (hr ▸ hq'), hf.keep (hb q) (ht q)⟩
  | taken q =>
    obtain ⟨hq, sm, hf⟩ := h
    exact ⟨fun hq' => hq (hr ▸ hq'), sm, hf.keep (hb q) (ht q)⟩
  | made q sm =>
    obtain ⟨hq, hc, hblock⟩ := h
    exact ⟨hr ▸ hq, hc, (hb q).trans hblock⟩

variable [DecidableEq ι]

/-- A step of process `i` that changes only blocks `M` off its registry, and names that these own or
that are not bound. -/
theorem Owned.step (h : Owned own w gs) (M : Addr → Prop) (hM : ∀ p, M p → p ∉ w.registry i)
    (ho : w.opened <+: w'.opened) (hr : w'.registry = w.registry) (hh : w'.handed = w.handed)
    (hb : ∀ j q, (j = i → ¬ M q) → w'.blocks j q = w.blocks j q)
    (hn : ∀ name j q, own name = some (j, q) → (j = i → ¬ M q) → w.names name ≠ none →
      w'.names name = w.names name ∧ own' name = own name)
    (hg : Known w' own' i g) : Owned own' w' (Function.update gs i g) := by
  have htitle : ∀ j q, (j = i → ¬ M q) → ∀ name file, Title w own j q name file →
      Title w' own' j q name file := by
    intro j q hq name file ht
    obtain ⟨hname, hown⟩ := hn name j q ht.mine hq ht.names_ne_none
    exact ht.keep ho hname hown
  have hreg : ∀ j, ∀ q ∈ w.registry j, j = i → ¬ M q := by
    intro j q hq hj hm
    subst hj
    exact hM q hm hq
  refine ⟨?_, ?_, ?_, ?_⟩
  · intro j
    by_cases hj : j = i
    · subst hj
      rw [Function.update_self]
      exact hg
    · rw [Function.update_of_ne hj]
      have hother : ∀ q, j = i → ¬ M q := fun _ hc => absurd hc hj
      exact (h.known j).keep (congrFun hr j) (congrFun hh j) (fun q => hb j q (hother q))
        fun q => htitle j q (hother q)
  · intro j q hq
    rw [hr] at hq
    obtain ⟨sm, hf⟩ := h.filled j q hq
    exact ⟨sm, hf.keep (hb j q (hreg j q hq)) (htitle j q (hreg j q hq))⟩
  · intro j
    rw [hr]
    exact h.nodup j
  · intro j q name object hq
    rw [hh] at hq
    obtain ⟨hmem, sm, hblock, hc, hname, hobj⟩ := h.handed j q name object hq
    refine ⟨hr ▸ hmem, sm, ?_, hc, hname, objectOf_mono ho hobj⟩
    exact (hb j q (hreg j q hmem)).trans hblock

/-- A step that changes nothing but what the process knows. -/
theorem Owned.learn (h : Owned own w gs) (hg : Known w own i g) :
    Owned own w (Function.update gs i g) :=
  h.step (fun _ => False) (fun _ hf => hf.elim) (List.prefix_refl _) rfl rfl (fun _ _ _ => rfl)
    (fun _ _ _ _ _ _ => ⟨rfl, rfl⟩) hg

theorem Owned.kernel (h : Owned own w gs) (v : World ι) (ho : w.opened <+: v.opened)
    (hn : v.names = w.names) (hb : v.blocks = w.blocks) (hr : v.registry = w.registry)
    (hh : v.handed = w.handed) (i : ι) : Owned own v (Function.update gs i (gs i)) := by
  refine h.step (fun _ => False) (fun _ hf => hf.elim) ho hr hh ?_ ?_ ?_
  · intro j q _
    rw [hb]
  · intro name j q _ _ _
    exact ⟨congrFun hn name, rfl⟩
  · refine (h.known i).keep (congrFun hr i) (congrFun hh i) (fun q => by rw [hb]) ?_
    intro q name file ht
    exact ht.keep ho (congrFun hn name) rfl

theorem Owned.setBlock {v : Option SkyHandleShareMem} (h : Owned own w gs)
    (hp : p ∉ w.registry i) (hg : Known (w.setBlock i p v) own i g) :
    Owned own (w.setBlock i p v) (Function.update gs i g) := by
  refine h.step (fun q => q = p) ?_ (List.prefix_refl _) rfl rfl ?_
    (fun _ _ _ _ _ _ => ⟨rfl, rfl⟩) hg
  · intro q hq
    rw [hq]
    exact hp
  · intro j q hq
    unfold World.setBlock
    by_cases hj : j = i
    · subst hj
      dsimp only
      rw [Function.update_self, Function.update_of_ne (hq rfl)]
    · dsimp only
      rw [Function.update_of_ne hj]

theorem Owned.makeName (h : Owned own w gs) (hp : p ∉ w.registry i) (hfree : w.names name = none) :
    Owned (Function.update own name (some (i, p)))
      ((w.makeObject name).openObject w.objects)
      (Function.update gs i (.owns p name w.opened.length)) := by
  refine h.step (fun q => q = p) ?_ (List.prefix_append _ _) rfl rfl (fun _ _ _ => rfl) ?_ ?_
  · intro q hq
    rw [hq]
    exact hp
  · intro name' j q _ _ hbound
    have hne : name' ≠ name := by
      intro hc
      exact hbound (hc ▸ hfree)
    refine ⟨?_, Function.update_of_ne hne _ _⟩
    exact Function.update_of_ne hne _ _
  · refine ⟨hp, Function.update_self _ _ _, w.objects, ?_, Function.update_self _ _ _⟩
    simp [World.objectOf, World.openObject, World.makeObject, World.setName]

theorem Owned.removeName (h : Owned own w gs) (hp : p ∉ w.registry i)
    (hmine : own name = some (i, p)) :
    Owned own (w.setName name none) (Function.update gs i (.holds p)) := by
  refine h.step (fun q => q = p) ?_ (List.prefix_refl _) rfl rfl (fun _ _ _ => rfl) ?_ hp
  · intro q hq
    rw [hq]
    exact hp
  · intro name' j q hown hq _
    have hne : name' ≠ name := by
      intro hc
      rw [hc, hmine] at hown
      cases hown
      exact hq rfl rfl
    exact ⟨Function.update_of_ne hne _ _, rfl⟩

theorem Owned.pushBack (h : Owned own w gs) (hs : gs i = .stored p sm) :
    Owned own (w.setRegistry i (w.registry i ++ [p]))
      (Function.update gs i (if sm.isCreator then .made p sm else .idle)) := by
  have hk := h.known i
  rw [hs] at hk
  obtain ⟨hp, hf⟩ := hk
  have hself : (w.setRegistry i (w.registry i ++ [p])).registry i = w.registry i ++ [p] :=
    Function.update_self _ _ _
  have hother : ∀ j, j ≠ i →
      (w.setRegistry i (w.registry i ++ [p])).registry j = w.registry j :=
    fun j hj => Function.update_of_ne hj _ _
  refine ⟨?_, ?_, ?_, ?_⟩
  · intro j
    by_cases hj : j = i
    · subst hj
      rw [Function.update_self]
      cases hc : sm.isCreator with
      | true => exact ⟨by rw [hself]; simp, hc, hf.block⟩
      | false => trivial
    · rw [Function.update_of_ne hj]
      exact (h.known j).keep (hother j hj) rfl (fun _ => rfl) fun _ _ _ ht => ht.same rfl rfl
  · intro j q hq
    have hkeep : ∀ q sm, Filled w own j q sm →
        Filled (w.setRegistry i (w.registry i ++ [p])) own j q sm :=
      fun q sm hf => hf.keep rfl fun _ _ ht => ht.same rfl rfl
    by_cases hj : j = i
    · subst hj
      rw [hself, List.mem_append, List.mem_singleton] at hq
      cases hq with
      | inl hq =>
        obtain ⟨sm', hf'⟩ := h.filled j q hq
        exact ⟨sm', hkeep q sm' hf'⟩
      | inr hq =>
        subst hq
        exact ⟨sm, hkeep q sm hf⟩
    · rw [hother j hj] at hq
      obtain ⟨sm', hf'⟩ := h.filled j q hq
      exact ⟨sm', hkeep q sm' hf'⟩
  · intro j
    by_cases hj : j = i
    · subst hj
      rw [hself]
      refine List.nodup_append.2 ⟨h.nodup j, List.nodup_singleton p, ?_⟩
      intro q hq q' hq' he
      rw [List.mem_singleton] at hq'
      exact hp (hq' ▸ he ▸ hq)
    · rw [hother j hj]
      exact h.nodup j
  · intro j q name object hq
    obtain ⟨hmem, hrest⟩ := h.handed j q name object hq
    refine ⟨?_, hrest⟩
    by_cases hj : j = i
    · subst hj
      rw [hself]
      exact List.mem_append_left _ hmem
    · rw [hother j hj]
      exact hmem

theorem Owned.remove (h : Owned own w gs) (hs : gs i = .removing p) (hp : p ∈ w.registry i) :
    Owned own (w.setRegistry i ((w.registry i).erase p)) (Function.update gs i (.taken p)) := by
  have hk := h.known i
  rw [hs] at hk
  have hself : (w.setRegistry i ((w.registry i).erase p)).registry i = (w.registry i).erase p :=
    Function.update_self _ _ _
  have hother : ∀ j, j ≠ i →
      (w.setRegistry i ((w.registry i).erase p)).registry j = w.registry j :=
    fun j hj => Function.update_of_ne hj _ _
  have hkeep : ∀ j q sm, Filled w own j q sm →
      Filled (w.setRegistry i ((w.registry i).erase p)) own j q sm :=
    fun j q sm hf => hf.keep rfl fun _ _ ht => ht.same rfl rfl
  refine ⟨?_, ?_, ?_, ?_⟩
  · intro j
    by_cases hj : j = i
    · subst hj
      rw [Function.update_self]
      obtain ⟨sm, hf⟩ := h.filled j p hp
      refine ⟨?_, sm, hkeep j p sm hf⟩
      rw [hself]
      exact (h.nodup j).not_mem_erase
    · rw [Function.update_of_ne hj]
      exact (h.known j).keep (hother j hj) rfl (fun _ => rfl) fun _ _ _ ht => ht.same rfl rfl
  · intro j q hq
    have hmem : q ∈ w.registry j := by
      by_cases hj : j = i
      · subst hj
        rw [hself] at hq
        exact List.mem_of_mem_erase hq
      · rwa [hother j hj] at hq
    obtain ⟨sm, hf⟩ := h.filled j q hmem
    exact ⟨sm, hkeep j q sm hf⟩
  · intro j
    by_cases hj : j = i
    · subst hj
      rw [hself]
      exact (h.nodup j).erase p
    · rw [hother j hj]
      exact h.nodup j
  · intro j q name object hq
    obtain ⟨hmem, hrest⟩ := h.handed j q name object hq
    refine ⟨?_, hrest⟩
    by_cases hj : j = i
    · subst hj
      have hne : q ≠ p := by
        intro hc
        have hnone : w.handed j q = none := hc ▸ hk
        exact Option.some_ne_none _ (hq.symm.trans hnone)
      rw [hself, (h.nodup j).mem_erase_iff]
      exact ⟨hne, hmem⟩
    · rw [hother j hj]
      exact hmem

theorem Owned.setHanded {v : Option (List UInt8 × Nat)} (h : Owned own w gs)
    (hv : ∀ name object, v = some (name, object) → p ∈ w.registry i ∧
      ∃ sm, w.blocks i p = some sm ∧ sm.isCreator = true ∧ sm.name = name ∧
        w.objectOf sm.file = some object)
    (hg : Known (w.setHanded i p v) own i g) :
    Owned own (w.setHanded i p v) (Function.update gs i g) := by
  refine ⟨?_, ?_, h.nodup, ?_⟩
  · intro j
    by_cases hj : j = i
    · subst hj
      rw [Function.update_self]
      exact hg
    · rw [Function.update_of_ne hj]
      exact (h.known j).keep rfl (Function.update_of_ne hj _ _) (fun _ => rfl)
        fun _ _ _ ht => ht.same rfl rfl
  · intro j q hq
    obtain ⟨sm, hf⟩ := h.filled j q hq
    exact ⟨sm, hf.keep rfl fun _ _ ht => ht.same rfl rfl⟩
  · intro j q name object hq
    by_cases hj : j = i
    · subst hj
      by_cases hqp : q = p
      · subst hqp
        refine hv name object ?_
        simpa [World.setHanded] using hq
      · refine h.handed j q name object ?_
        simpa [World.setHanded, hqp] using hq
    · refine h.handed j q name object ?_
      simpa [World.setHanded, hj] using hq

end

end Sky.Shm
