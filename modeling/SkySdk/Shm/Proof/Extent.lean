import SkySdk.Shm.Buffer
import SkySdk.Shm.Proof.Names
import SkySdk.Shm.Proof.Span

/-!
# Sizes in any interleaving

An object gets its size once, from the `create` that made it, and a call that sees the size 0 before
that maps nothing. So what a handle says of its size is the size of its object, whoever asks, and
stays so after the name is gone (`sizes_exact`): memory up to `sky_share_memory_size` never lies
beyond the end of the object.
-/

set_option autoImplicit false

namespace Sky.Shm.Extent

open Base

variable {ι : Type} {b : Build} {nameMax : Nat} {w w' : World ι} {i j : ι} {p q : Addr}
  {fd size : Nat} {sm : SkyHandleShareMem} {name : List UInt8} {g : Span} {gs : ι → Span}
  {x : Choice}

/-- The descriptor is of an object of this size. -/
def Sized (w : World ι) (fd size : Nat) : Prop :=
  ∃ object, w.opened[fd]? = some object ∧ w.sizes object = size

/-- A struct whose mapping is exactly its object. -/
def Covers (w : World ι) (sm : SkyHandleShareMem) : Prop :=
  sm.ptr ≠ none ∧ sm.size.toNat ≠ 0 ∧ ∃ fd, sm.file = some fd ∧ Sized w fd sm.size.toNat

/-- The block is off the registry of its process. -/
def Off (w : World ι) (i : ι) (p : Addr) : Prop := p ≠ 0 ∧ p ∉ w.registry i

def Known (w : World ι) (i : ι) : Span → Prop
  | .idle => True
  | .block p => Off w i p
  | .empty p fd => Off w i p ∧ Sized w fd 0
  | .sized p fd size => Off w i p ∧ (size = 0 ∨ Sized w fd size)
  | .mapped p fd size => Off w i p ∧ size ≠ 0 ∧ Sized w fd size
  | .stored p sm => Off w i p ∧ w.blocks i p = some sm ∧ Covers w sm

/-- The kernel's tables. -/
structure Tables (w : World ι) : Prop where
  names : ∀ name object, w.names name = some object → object < w.objects
  opened : ∀ object ∈ w.opened, object < w.objects
  fresh : ∀ object, w.objects ≤ object → w.sizes object = 0
  bounded : ∀ object, w.sizes object < 2 ^ 32

/-- The handles of a process. -/
structure Registered (w : World ι) (i : ι) : Prop where
  nodup : (w.registry i).Nodup
  covers : ∀ p ∈ w.registry i, p ≠ 0 ∧ ∃ sm, w.blocks i p = some sm ∧ Covers w sm

structure Exact (w : World ι) (gs : ι → Span) : Prop where
  tables : Tables w
  known : ∀ i, Known w i (gs i)
  registered : ∀ i, Registered w i
  /-- Two calls do not set the size of one object. -/
  apart : ∀ i j p q fd fd', gs i = .empty p fd → gs j = .empty q fd' →
    w.opened[fd]? = w.opened[fd']? → i = j

/-! ## What a step keeps -/

/-- Descriptors stay open and sizes stay what they are, but for those that have not been set. -/
structure Grows (w w' : World ι) : Prop where
  opened : w.opened <+: w'.opened
  sizes : ∀ object, w.sizes object ≠ 0 → w'.sizes object = w.sizes object

theorem Grows.refl (w : World ι) : Grows w w := ⟨List.prefix_refl _, fun _ _ => rfl⟩

theorem Grows.trans {v : World ι} (h : Grows w v) (h' : Grows v w') : Grows w w' := by
  refine ⟨h.opened.trans h'.opened, ?_⟩
  intro object ho
  rw [h'.sizes object (h.sizes object ho ▸ ho), h.sizes object ho]

theorem Grows.lookup (h : Grows w w') {object : Nat} (ho : w.opened[fd]? = some object) :
    w'.opened[fd]? = some object := by
  obtain ⟨rest, hrest⟩ := h.opened
  rw [← hrest, List.getElem?_append_left (List.getElem?_eq_some_iff.1 ho).1, ho]

theorem Sized.grows (h : Sized w fd size) (hz : size ≠ 0) (hg : Grows w w') : Sized w' fd size := by
  obtain ⟨object, ho, rfl⟩ := h
  exact ⟨object, hg.lookup ho, hg.sizes object hz⟩

theorem Covers.grows (h : Covers w sm) (hg : Grows w w') : Covers w' sm := by
  obtain ⟨hptr, hz, fd, hfd, hs⟩ := h
  exact ⟨hptr, hz, fd, hfd, hs.grows hz hg⟩

/-- What is not the process's own changes nothing that it knows, if the size it is to set stays
0. -/
theorem Known.keep (h : Known w i g) (hg : Grows w w') (hb : w'.blocks i = w.blocks i)
    (hr : w'.registry i = w.registry i)
    (hz : ∀ p fd, g = .empty p fd → Sized w fd 0 → Sized w' fd 0) : Known w' i g := by
  have hoff : ∀ {p}, Off w i p → Off w' i p := fun hp => ⟨hp.1, hr ▸ hp.2⟩
  cases g with
  | idle => trivial
  | block p => exact hoff h
  | empty p fd => exact ⟨hoff h.1, hz p fd rfl h.2⟩
  | sized p fd size =>
    refine ⟨hoff h.1, ?_⟩
    by_cases hs : size = 0
    · exact .inl hs
    · exact .inr ((h.2.resolve_left hs).grows hs hg)
  | mapped p fd size => exact ⟨hoff h.1, h.2.1, h.2.2.grows h.2.1 hg⟩
  | stored p sm => exact ⟨hoff h.1, (congrFun hb p).trans h.2.1, h.2.2.grows hg⟩

theorem Registered.keep (h : Registered w i) (hg : Grows w w')
    (hb : ∀ p ∈ w.registry i, w'.blocks i p = w.blocks i p)
    (hr : w'.registry i = w.registry i) : Registered w' i := by
  refine ⟨hr ▸ h.nodup, ?_⟩
  intro p hp
  rw [hr] at hp
  obtain ⟨hz, sm, hsm, hc⟩ := h.covers p hp
  exact ⟨hz, sm, (hb p hp).trans hsm, hc.grows hg⟩

/-- The sizes that other calls are to set stay 0. -/
def Spared (w w' : World ι) (gs : ι → Span) (i : ι) : Prop :=
  ∀ j p fd, j ≠ i → gs j = .empty p fd → Sized w fd 0 → Sized w' fd 0

/-- The call of process `i` is not to set the size that another call is to set. -/
def Alone (w : World ι) (gs : ι → Span) (i : ι) (g : Span) : Prop :=
  ∀ j p q fd fd', j ≠ i → g = .empty p fd → gs j = .empty q fd' → w.opened[fd]? ≠ w.opened[fd']?

theorem Exact.lookup (h : Exact w gs) (hg : Grows w w') (hgi : gs i = .empty p fd) :
    w'.opened[fd]? = w.opened[fd]? := by
  have hk := h.known i
  rw [hgi] at hk
  obtain ⟨-, object, ho, -⟩ := hk
  rw [ho, hg.lookup ho]

theorem Exact.alone (h : Exact w gs) (hgrow : Grows w w')
    (hg : g = gs i ∨ g.SetsNone) : Alone w' gs i g := by
  intro j p q fd fd' hj hgi hgj hfd
  cases hg with
  | inl hg =>
    rw [h.lookup hgrow (hg.symm.trans hgi), h.lookup hgrow hgj] at hfd
    exact hj (h.apart i j p q fd fd' (hg.symm.trans hgi) hgj hfd).symm
  | inr hg => exact hg p fd hgi

variable [DecidableEq ι]

/-- A step of process `i`, which leaves the blocks and the registries of the others. -/
theorem Exact.step (h : Exact w gs) (ht : Tables w') (hg : Grows w w')
    (hb : ∀ j, j ≠ i → w'.blocks j = w.blocks j)
    (hr : ∀ j, j ≠ i → w'.registry j = w.registry j)
    (hz : Spared w w' gs i) (ha : Alone w' gs i g) (hreg : Registered w' i)
    (hk : Known w' i g) : Exact w' (Function.update gs i g) := by
  refine ⟨ht, ?_, ?_, ?_⟩
  · intro j
    by_cases hj : j = i
    · subst hj
      rw [Function.update_self]
      exact hk
    · rw [Function.update_of_ne hj]
      exact (h.known j).keep hg (hb j hj) (hr j hj) fun p fd hgj => hz j p fd hj hgj
  · intro j
    by_cases hj : j = i
    · exact hj ▸ hreg
    · exact (h.registered j).keep hg (fun p _ => congrFun (hb j hj) p) (hr j hj)
  · intro j k p q fd fd' hgj hgk hfd
    by_cases hj : j = i
    · subst hj
      by_cases hk : k = j
      · exact hk.symm
      · rw [Function.update_self] at hgj
        rw [Function.update_of_ne hk] at hgk
        exact absurd hfd (ha k p q fd fd' hk hgj hgk)
    · by_cases hk : k = i
      · subst hk
        rw [Function.update_of_ne hj] at hgj
        rw [Function.update_self] at hgk
        exact absurd hfd.symm (ha j q p fd' fd hj hgk hgj)
      · rw [Function.update_of_ne hj] at hgj
        rw [Function.update_of_ne hk] at hgk
        rw [h.lookup hg hgj, h.lookup hg hgk] at hfd
        exact h.apart j k p q fd fd' hgj hgk hfd

/-- A step that leaves the kernel's tables. -/
theorem Exact.own (h : Exact w gs) (ht : Tables w') (ho : w'.opened = w.opened)
    (hs : w'.sizes = w.sizes) (hb : ∀ j, j ≠ i → w'.blocks j = w.blocks j)
    (hr : ∀ j, j ≠ i → w'.registry j = w.registry j) (hg : g = gs i ∨ g.SetsNone)
    (hreg : Registered w' i) (hk : Known w' i g) : Exact w' (Function.update gs i g) := by
  have hgrow : Grows w w' := ⟨ho ▸ List.prefix_refl _, fun _ _ => by rw [hs]⟩
  refine h.step ht hgrow hb hr ?_ (h.alone hgrow hg) hreg hk
  intro j p fd _ _ hz
  rwa [Sized, ho, hs]

/-- A step that changes nothing but what the call knows. -/
theorem Exact.learn (h : Exact w gs) (hg : g = gs i ∨ g.SetsNone)
    (hk : Known w i g) : Exact w (Function.update gs i g) :=
  h.own h.tables rfl rfl (fun _ _ => rfl) (fun _ _ => rfl) hg (h.registered i) hk

theorem Exact.setBlock {v : Option SkyHandleShareMem} (h : Exact w gs) (hp : p ∉ w.registry i)
    (hg : g.SetsNone) (hk : Known (w.setBlock i p v) i g) :
    Exact (w.setBlock i p v) (Function.update gs i g) := by
  have ht := h.tables
  refine h.own ⟨ht.names, ht.opened, ht.fresh, ht.bounded⟩ rfl rfl ?_ (fun _ _ => rfl) (.inr hg) ?_
    hk
  · intro j hj
    exact Function.update_of_ne hj _ _
  · refine (h.registered i).keep ⟨List.prefix_refl _, fun _ _ => rfl⟩ ?_ rfl
    intro q hq
    have hne : q ≠ p := by
      intro hc
      exact hp (hc ▸ hq)
    simp [World.setBlock, hne]

/-! ## Requests -/

/-- A reply tells the call how far it has come, and nothing known is lost. -/
def Replied (gs : ι → Span) (i : ι) (o : Request) (r : o.Reply) (w w' : World ι) : Prop :=
  ∃ g, next (gs i) o r g ∧ Exact w' (Function.update gs i g) ∧ Grows w w'

theorem Exact.replied (h : Exact w gs) {o : Request} {r : o.Reply}
    (hn : next (gs i) o r (gs i)) : Replied gs i o r w w :=
  ⟨gs i, hn, h.learn (.inl rfl) (h.known i), Grows.refl w⟩

theorem Exact.told (h : Exact w gs) {o : Request} {r : o.Reply} (hn : next (gs i) o r g)
    (hg : g.SetsNone) (hk : Known w i g) : Replied gs i o r w w :=
  ⟨g, hn, h.learn (.inr hg) hk, Grows.refl w⟩

omit [DecidableEq ι] in
theorem Exact.off (h : Exact w gs) (hp : (gs i).Has p) : Off w i p := by
  have hk := h.known i
  rcases hp with hg | ⟨sm, hg⟩
  · rw [hg] at hk
    exact hk
  · rw [hg] at hk
    exact hk.1

theorem Exact.reply_alloc (h : Exact w gs) {r : Addr}
    (he : exec b i .alloc x w = some (w', some r)) : Replied gs i .alloc r w w' := by
  have hrefuse : some (w, some (0 : Addr)) = some (w', some r) → Replied gs i .alloc r w w' := by
    intro he
    cases he
    exact h.told (g := .idle) (if_pos rfl).symm idle_setsNone trivial
  cases x with
  | place p =>
    by_cases hp : p ≠ 0 ∧ w.blocks i p = none
    · simp only [exec, if_pos hp] at he
      cases he
      have hnew : r ∉ w.registry i := by
        intro hmem
        obtain ⟨-, sm, hsm, -⟩ := (h.registered i).covers r hmem
        exact Option.some_ne_none _ (hsm.symm.trans hp.2)
      have hexact := h.setBlock (v := some zeroShareMem) hnew (g := .block r)
        block_setsNone ⟨hp.1, hnew⟩
      exact ⟨.block r, (if_neg hp.1).symm, hexact, List.prefix_refl _, fun _ _ => rfl⟩
    · simp only [exec, if_neg hp] at he
      cases he
  | succeed => exact hrefuse he
  | fail => exact hrefuse he
  | text left => exact hrefuse he

theorem Exact.reply_free (h : Exact w gs) (hp : (gs i).Has p) :
    Replied gs i (.free p) () w (w.setBlock i p none) := by
  have hexact := h.setBlock (v := none) (h.off hp).2 (g := .idle) idle_setsNone trivial
  exact ⟨.idle, rfl, hexact, List.prefix_refl _, fun _ _ => rfl⟩

theorem Exact.reply_store (h : Exact w gs) (hm : may (gs i) (.store p sm)) :
    Replied gs i (.store p sm) () w (w.setBlock i p (some sm)) := by
  obtain ⟨fd, hg, hfile, hptr⟩ := hm
  have hk := h.known i
  rw [hg] at hk
  obtain ⟨hoff, hz, hs⟩ := hk
  have hblock : (w.setBlock i p (some sm)).blocks i p = some sm := by simp [World.setBlock]
  have hexact := h.setBlock (v := some sm) hoff.2 (g := .stored p sm) stored_setsNone
    ⟨hoff, hblock, hptr, hz, fd, hfile, hs⟩
  exact ⟨.stored p sm, rfl, hexact, List.prefix_refl _, fun _ _ => rfl⟩

theorem Exact.reply_load (h : Exact w gs) {r : SkyHandleShareMem}
    (he : exec b i (.load p) x w = some (w', some r)) : Replied gs i (.load p) r w w' := by
  obtain ⟨sm, -, he⟩ := Option.map_eq_some_iff.1 he
  cases he
  exact h.replied rfl

theorem Exact.reply_print (h : Exact w gs) {size : Nat} {before : List UInt8} {n : CStr}
    {r : Int × List UInt8} (he : exec b i (.print size before n) x w = some (w', some r)) :
    Replied gs i (.print size before n) r w w' := by
  cases x <;>
  · cases he
    exact h.replied rfl

omit [DecidableEq ι] in
theorem names_update {names : List UInt8 → Option Nat} {n : List UInt8} {v : Option Nat}
    {object : Nat} (h : Function.update names name v n = some object) :
    v = some object ∨ names n = some object := by
  by_cases hc : n = name
  · subst hc
    rw [Function.update_self] at h
    exact .inl h
  · rw [Function.update_of_ne hc] at h
    exact .inr h

/-- A name that is made gets an object of its own. -/
theorem Exact.makeObject (h : Exact w gs) (hg : gs i = .block p) :
    Exact ((w.makeObject name).openObject w.objects)
        (Function.update gs i (.empty p w.opened.length)) ∧
      Grows w ((w.makeObject name).openObject w.objects) := by
  have ht := h.tables
  have hsizes : Function.update w.sizes w.objects 0 = w.sizes := by
    rw [← ht.fresh w.objects (le_refl _), Function.update_eq_self]
  have hgrow : Grows w ((w.makeObject name).openObject w.objects) :=
    ⟨List.prefix_append _ _, fun object _ => congrFun hsizes object⟩
  have hlast : ((w.makeObject name).openObject w.objects).opened[w.opened.length]? =
      some w.objects := List.getElem?_concat_length
  have htables : Tables ((w.makeObject name).openObject w.objects) := by
    refine ⟨?_, ?_, ?_, ?_⟩
    · intro n object hn
      cases names_update hn with
      | inl hn =>
        cases hn
        exact Nat.lt_succ_self w.objects
      | inr hn => exact Nat.lt_succ_of_lt (ht.names n object hn)
    · intro object ho
      cases List.mem_append.1 ho with
      | inl ho => exact Nat.lt_succ_of_lt (ht.opened object ho)
      | inr ho =>
        rw [List.mem_singleton.1 ho]
        exact Nat.lt_succ_self w.objects
    · intro object ho
      exact (congrFun hsizes object).trans (ht.fresh object (Nat.le_of_succ_le ho))
    · intro object
      exact lt_of_eq_of_lt (congrFun hsizes object) (ht.bounded object)
  have hk := h.known i
  rw [hg] at hk
  refine ⟨h.step htables hgrow (fun _ _ => rfl) (fun _ _ => rfl) ?_ ?_ ?_ ⟨hk, ?_⟩, hgrow⟩
  · intro j q fd _ _ hz
    obtain ⟨object, ho, hz⟩ := hz
    exact ⟨object, hgrow.lookup ho, (congrFun hsizes object).trans hz⟩
  · intro j q q' fd fd' hj hgi hgj hfd
    cases hgi
    have hkj := h.known j
    rw [hgj] at hkj
    obtain ⟨-, object, ho, -⟩ := hkj
    rw [hlast, hgrow.lookup ho] at hfd
    have hlt := ht.opened object (List.mem_of_getElem? ho)
    rw [← Option.some.inj hfd] at hlt
    exact Nat.lt_irrefl _ hlt
  · exact (h.registered i).keep hgrow (fun _ _ => rfl) rfl
  · exact ⟨w.objects, hlast, Function.update_self _ _ _⟩

theorem Exact.openObject (h : Exact w gs) {object : Nat} (hn : w.names name = some object) (i : ι) :
    Exact (w.openObject object) (Function.update gs i (gs i)) ∧ Grows w (w.openObject object) := by
  have ht := h.tables
  have hgrow : Grows w (w.openObject object) := ⟨List.prefix_append _ _, fun _ _ => rfl⟩
  have hkeep : ∀ fd, Sized w fd 0 → Sized (w.openObject object) fd 0 := by
    intro fd hz
    obtain ⟨object', ho, hz⟩ := hz
    exact ⟨object', hgrow.lookup ho, hz⟩
  have htables : Tables (w.openObject object) := by
    refine ⟨ht.names, ?_, ht.fresh, ht.bounded⟩
    intro object' ho
    cases List.mem_append.1 ho with
    | inl ho => exact ht.opened object' ho
    | inr ho => exact List.mem_singleton.1 ho ▸ ht.names name object hn
  refine ⟨h.step htables hgrow (fun _ _ => rfl) (fun _ _ => rfl) (fun _ _ fd _ _ => hkeep fd)
    (h.alone hgrow (.inl rfl)) ((h.registered i).keep hgrow (fun _ _ => rfl) rfl) ?_, hgrow⟩
  exact (h.known i).keep hgrow rfl rfl fun _ fd _ => hkeep fd

theorem Exact.reply_shmOpen (h : Exact w gs) {create : Bool} {r : Option Nat}
    (hm : may (gs i) (.shmOpen name create))
    (he : exec b i (.shmOpen name create) x w = some (w', some r)) :
    Replied gs i (.shmOpen name create) r w w' := by
  by_cases hx : x = .fail
  · simp only [exec, if_pos hx] at he
    cases he
    exact h.replied (by cases create <;> rfl)
  simp only [exec, if_neg hx] at he
  cases hn : w.names name with
  | none =>
    simp only [World.shmOpen, hn] at he
    cases create with
    | true =>
      cases he
      obtain ⟨p, hg⟩ := hm
      exact ⟨.empty p w.opened.length, ⟨p, hg, rfl⟩, h.makeObject hg⟩
    | false =>
      cases he
      exact h.replied rfl
  | some object =>
    simp only [World.shmOpen, hn] at he
    cases create with
    | true =>
      cases he
      exact h.replied rfl
    | false =>
      cases he
      exact ⟨gs i, rfl, h.openObject hn i⟩

theorem Exact.setSize (h : Exact w gs) {file object : Nat} (size : UInt32)
    (hg : gs i = .empty p file) (ho : w.opened[file]? = some object) :
    Exact { w with sizes := Function.update w.sizes object size.toNat }
        (Function.update gs i (.sized p file size.toNat)) ∧
      Grows w { w with sizes := Function.update w.sizes object size.toNat } := by
  have ht := h.tables
  have hk := h.known i
  rw [hg] at hk
  obtain ⟨hoff, object', ho', hz⟩ := hk
  cases ho.symm.trans ho'
  have hgrow : Grows w { w with sizes := Function.update w.sizes object size.toNat } := by
    refine ⟨List.prefix_refl _, ?_⟩
    intro object' hne
    refine Function.update_of_ne ?_ _ _
    intro hc
    exact hne (hc ▸ hz)
  refine ⟨h.step ⟨ht.names, ht.opened, ?_, ?_⟩ hgrow (fun _ _ => rfl) (fun _ _ => rfl) ?_ ?_
    ((h.registered i).keep hgrow (fun _ _ => rfl) rfl) ⟨hoff, .inr ⟨object, ho, ?_⟩⟩, hgrow⟩
  · intro object' hle
    have hlt := ht.opened object (List.mem_of_getElem? ho)
    have hne : object' ≠ object := fun hc => Nat.not_lt.2 hle (hc ▸ hlt)
    exact (Function.update_of_ne hne _ _).trans (ht.fresh object' hle)
  · intro object'
    by_cases hc : object' = object
    · subst hc
      show Function.update w.sizes object' size.toNat object' < 2 ^ 32
      rw [Function.update_self]
      exact size.toNat_lt
    · show Function.update w.sizes object size.toNat object' < 2 ^ 32
      rw [Function.update_of_ne hc]
      exact ht.bounded object'
  · intro j q fd hj hgj hz'
    obtain ⟨object', ho', hz'⟩ := hz'
    have hne : object' ≠ object := by
      intro hc
      exact hj (h.apart j i q p fd file hgj hg (by rw [ho, ho', hc]))
    exact ⟨object', ho', (Function.update_of_ne hne _ _).trans hz'⟩
  · exact h.alone hgrow (.inr sized_setsNone)
  · exact Function.update_self _ _ _

theorem Exact.reply_ftruncate (h : Exact w gs) {file : Nat} {size : UInt32} {r : Bool}
    (hm : may (gs i) (.ftruncate file size))
    (he : exec b i (.ftruncate file size) x w = some (w', some r)) :
    Replied gs i (.ftruncate file size) r w w' := by
  obtain ⟨p, hg⟩ := hm
  have hk := h.known i
  rw [hg] at hk
  obtain ⟨hoff, object, ho, -⟩ := hk
  by_cases hx : x = .fail
  · simp only [exec, if_pos hx] at he
    cases he
    exact h.told (g := .block p) ⟨p, hg, rfl⟩ block_setsNone hoff
  · simp only [exec, if_neg hx, World.ftruncate, ho] at he
    cases he
    exact ⟨.sized p file size.toNat, ⟨p, hg, rfl⟩, h.setSize size hg ho⟩

theorem Exact.reply_fstat (h : Exact w gs) {file : Nat} {r : Option Nat}
    (hm : may (gs i) (.fstat file)) (he : exec b i (.fstat file) x w = some (w', some r)) :
    Replied gs i (.fstat file) r w w' := by
  obtain ⟨p, hg⟩ := hm
  have hk := h.known i
  rw [hg] at hk
  by_cases hx : x = .fail
  · simp only [exec, if_pos hx] at he
    cases he
    exact h.replied rfl
  simp only [exec, if_neg hx, World.fstat] at he
  cases ho : w.opened[file]? with
  | none =>
    rw [ho] at he
    cases he
    exact h.replied rfl
  | some object =>
    rw [ho] at he
    cases he
    exact h.told (g := .sized p file (w.sizes object)) ⟨h.tables.bounded object, p, hg, rfl⟩
      sized_setsNone ⟨hk, .inr ⟨object, ho, rfl⟩⟩

theorem Exact.reply_mmap (h : Exact w gs) {length file : Nat} {r : Option Addr}
    (hm : may (gs i) (.mmap length file))
    (he : exec b i (.mmap length file) x w = some (w', some r)) :
    Replied gs i (.mmap length file) r w w' := by
  obtain ⟨p, hg⟩ := hm
  have hk := h.known i
  rw [hg] at hk
  obtain ⟨hoff, hsized⟩ := hk
  have hfail : some (w, some (none : Option Addr)) = some (w', some r) →
      Replied gs i (.mmap length file) r w w' := by
    intro he
    cases he
    exact h.told (g := .block p) ⟨p, hg, rfl⟩ block_setsNone hoff
  cases x with
  | place a =>
    by_cases hc : length = 0 ∨ w.opened[file]? = none
    · simp only [exec, if_pos hc] at he
      exact hfail he
    · simp only [exec, if_neg hc] at he
      cases he
      rw [not_or] at hc
      exact h.told (g := .mapped p file length) ⟨p, hg, rfl⟩ mapped_setsNone
        ⟨hoff, hc.1, hsized.resolve_left hc.1⟩
  | succeed => exact hfail he
  | fail => exact hfail he
  | text left => exact hfail he

theorem Exact.reply_shmUnlink (h : Exact w gs)
    (he : exec b i (.shmUnlink name) x w = some (w', some ())) :
    Replied gs i (.shmUnlink name) () w w' := by
  by_cases hx : x = .fail
  · simp only [exec, if_pos hx] at he
    cases he
    exact h.replied rfl
  simp only [exec, if_neg hx] at he
  cases he
  have ht := h.tables
  have hgrow : Grows w (w.setName name none) := ⟨List.prefix_refl _, fun _ _ => rfl⟩
  have hexact : Exact (w.setName name none) (Function.update gs i (gs i)) := by
    refine h.own ⟨?_, ht.opened, ht.fresh, ht.bounded⟩ rfl rfl (fun _ _ => rfl) (fun _ _ => rfl)
      (.inl rfl) ((h.registered i).keep hgrow (fun _ _ => rfl) rfl)
      ((h.known i).keep hgrow rfl rfl fun _ _ _ hz => hz)
    intro n object hn
    cases names_update hn with
    | inl hn => cases hn
    | inr hn => exact ht.names n object hn
  exact ⟨gs i, rfl, hexact, hgrow⟩

theorem Exact.setRegistry (h : Exact w gs) {ps : List Addr} (hg : g.SetsNone)
    (hnodup : ps.Nodup) (hcovers : ∀ p ∈ ps, p ≠ 0 ∧ ∃ sm, w.blocks i p = some sm ∧ Covers w sm)
    (hk : Known (w.setRegistry i ps) i g) :
    Exact (w.setRegistry i ps) (Function.update gs i g) ∧ Grows w (w.setRegistry i ps) := by
  have ht := h.tables
  have hgrow : Grows w (w.setRegistry i ps) := ⟨List.prefix_refl _, fun _ _ => rfl⟩
  have hself : (w.setRegistry i ps).registry i = ps := Function.update_self _ _ _
  refine ⟨h.own ⟨ht.names, ht.opened, ht.fresh, ht.bounded⟩ rfl rfl (fun _ _ => rfl)
    (fun _ hj => Function.update_of_ne hj _ _) (.inr hg) ⟨hself.symm ▸ hnodup, ?_⟩ hk, hgrow⟩
  intro p hp
  rw [hself] at hp
  obtain ⟨hz, sm, hsm, hc⟩ := hcovers p hp
  exact ⟨hz, sm, hsm, hc.grows hgrow⟩

theorem Exact.reply_pushBack (h : Exact w gs) {r : Bool} (hm : may (gs i) (.pushBack p))
    (he : exec b i (.pushBack p) x w = some (w', some r)) :
    Replied gs i (.pushBack p) r w w' := by
  obtain ⟨sm, hg⟩ := hm
  by_cases hc : (w.registry i).length < maxShareMemCount ∧ x ≠ .fail
  · simp only [exec, if_pos hc] at he
    cases he
    have hk := h.known i
    rw [hg] at hk
    obtain ⟨hoff, hsm, hcov⟩ := hk
    have hr := h.registered i
    refine ⟨.idle, ⟨sm, hg, rfl⟩, h.setRegistry idle_setsNone ?_ ?_ trivial⟩
    · refine List.nodup_append.2 ⟨hr.nodup, List.nodup_singleton p, ?_⟩
      intro q hq q' hq' heq
      rw [List.mem_singleton] at hq'
      exact hoff.2 (hq' ▸ heq ▸ hq)
    · intro q hq
      cases List.mem_append.1 hq with
      | inl hq => exact hr.covers q hq
      | inr hq =>
        rw [List.mem_singleton.1 hq]
        exact ⟨hoff.1, sm, hsm, hcov⟩
  · simp only [exec, if_neg hc] at he
    cases he
    exact h.replied ⟨sm, hg, rfl⟩

theorem Exact.reply_remove (h : Exact w gs) {r : Addr}
    (he : exec b i (.remove p) x w = some (w', some r)) : Replied gs i (.remove p) r w w' := by
  have hr := h.registered i
  by_cases hp : p ∈ w.registry i
  · simp only [exec, if_pos hp] at he
    cases he
    have hz : p ≠ 0 := (hr.covers p hp).1
    have hoff : Off (w.setRegistry i ((w.registry i).erase p)) i p := by
      have hself : (w.setRegistry i ((w.registry i).erase p)).registry i = (w.registry i).erase p :=
        Function.update_self _ _ _
      refine ⟨hz, ?_⟩
      rw [hself]
      exact hr.nodup.not_mem_erase
    exact ⟨.block p, (if_neg hz).symm, h.setRegistry block_setsNone
      (hr.nodup.erase p) (fun q hq => hr.covers q (List.mem_of_mem_erase hq)) hoff⟩
  · simp only [exec, if_neg hp] at he
    cases he
    exact h.told (g := .idle) (if_pos rfl).symm idle_setsNone trivial

theorem Exact.reply (h : Exact w gs) {o : Request} {r : o.Reply} (hm : may (gs i) o)
    (he : exec b i o x w = some (w', some r)) : Replied gs i o r w w' := by
  cases o with
  | alloc => exact h.reply_alloc he
  | free p =>
    cases he
    exact h.reply_free hm
  | store p sm =>
    cases he
    exact h.reply_store hm
  | load p => exact h.reply_load he
  | print size before n => exact h.reply_print he
  | shmOpen name create => exact h.reply_shmOpen hm he
  | ftruncate file size => exact h.reply_ftruncate hm he
  | fstat file => exact h.reply_fstat hm he
  | mmap length file => exact h.reply_mmap hm he
  | shmUnlink name => exact h.reply_shmUnlink he
  | pushBack p => exact h.reply_pushBack hm he
  | remove p => exact h.reply_remove he
  | munmap ptr length =>
    cases he
    exact h.replied rfl
  | close file =>
    cases he
    exact h.replied rfl
  | enter =>
    cases he
    exact h.replied rfl
  | leave =>
    cases he
    exact h.replied rfl
  | validate p =>
    rw [exec_quiet (o := .validate p) trivial he]
    exact h.replied rfl
  | assertFalse =>
    rw [exec_quiet (o := .assertFalse) trivial he]
    exact h.replied rfl

/-! ## Runs -/

theorem Exact.setHanded (h : Exact w gs) (v : Option (List UInt8 × Nat)) :
    Exact (w.setHanded i p v) gs := by
  have hgrow : Grows w (w.setHanded i p v) := ⟨List.prefix_refl _, fun _ _ => rfl⟩
  have ht := h.tables
  refine ⟨⟨ht.names, ht.opened, ht.fresh, ht.bounded⟩, ?_, ?_, h.apart⟩
  · exact fun j => (h.known j).keep hgrow rfl rfl fun _ _ _ hz => hz
  · exact fun j => (h.registered j).keep hgrow (fun _ _ => rfl) rfl

theorem handOut_eq (i : ι) (c : Call) (r : Resp) (w : World ι) :
    handOut i c r w = w ∨ ∃ p v, handOut i c r w = w.setHanded i p v := by
  unfold handOut
  split
  · split
    · exact .inl rfl
    · exact .inr ⟨_, _, rfl⟩
  · exact .inl rfl

/-- The rules from any state on: what the kernel has, stays. -/
theorem discipline (v : World ι) : (processes ι b nameMax).Discipline (fun _ _ _ => True)
    (fun _ _ _ _ => True) (fun w gs => Exact w gs ∧ Grows v w) .idle (fun _ _ => .idle)
    (fun _ _ => may) (fun _ _ => next) (fun _ _ _ _ => True) where
  safe _ c _ _ := call_safe c
  enter i c w gs _ hg h := by
    have hsame : Function.update gs i .idle = gs := by
      rw [← hg, Function.update_eq_self]
    rw [hsame]
    cases c with
    | create name size => exact h
    | «open» name => exact h
    | destroy p => exact ⟨h.1.setHanded none, h.2.trans ⟨List.prefix_refl _, fun _ _ => rfl⟩⟩
  reply i c o x w gs w' r _ hm h he := by
    obtain ⟨g, hn, hexact, hgrow⟩ := h.1.reply hm he
    exact ⟨g, hn, hexact, h.2.trans hgrow⟩
  wait i c o x w gs w' _ _ _ he := absurd rfl (exec_replies he)
  leave i c r w gs _ h := by
    have hidle : Exact w (Function.update gs i .idle) :=
      h.1.learn (.inr idle_setsNone) trivial
    show Exact (handOut i c r w) _ ∧ Grows v (handOut i c r w)
    rcases handOut_eq i c r w with hw | ⟨p, v', hw⟩
    · rw [hw]
      exact ⟨hidle, h.2⟩
    · rw [hw]
      exact ⟨hidle.setHanded v', h.2.trans ⟨List.prefix_refl _, fun _ _ => rfl⟩⟩

omit [DecidableEq ι] in
theorem exact_start : Exact (World.start ι) fun _ => .idle := by
  refine ⟨⟨?_, ?_, fun _ _ => rfl, fun _ => Nat.zero_lt_succ _⟩, fun _ => trivial, ?_, ?_⟩
  · intro name object h
    cases h
  · intro object h
    cases h
  · intro i
    refine ⟨List.nodup_nil, ?_⟩
    intro p hp
    cases hp
  · intro i j p q fd fd' h
    cases h

/-- What the two functions return for a handle. -/
theorem answers (hz : p ≠ 0) (hsm : w.blocks i p = some sm) :
    (skyShareMemorySize p).run (answer b i) w = .ok (sm.size, w) ∧
      (skyShareMemoryGetBuffer p).run (answer b i) w = .ok (sm.ptr, w) := by
  have hvalid : answer b i (.validate p) w = .ok ((), w) := by
    have hc : ¬ (b.assertAborts = true ∧ (p = 0 ∨ w.blocks i p = none)) := by
      rw [hsm]
      simp [hz]
    simp only [answer, exec, if_neg hc]
  have hload : answer b i (.load p) w = .ok (sm, w) := by
    simp only [answer, exec, hsm, Option.map_some]
  constructor
  · simp only [skyShareMemorySize, request, Proc.call_bind, Proc.run_req, bind_apply, hvalid, hload,
      Proc.pure_def, Proc.run_done, pure_apply]
  · simp only [skyShareMemoryGetBuffer, request, Proc.call_bind, Proc.run_req, bind_apply, hvalid,
      hload, Proc.pure_def, Proc.run_done, pure_apply]

/-- What holds after a run, from a state `v` on. -/
abbrev HoldsFrom (v : World ι) (t : Conf ι (World ι) Request Request.Reply Call Resp) : Prop :=
  System.Discipline.Holds (fun w gs => Exact w gs ∧ Grows v w) Span.idle (fun _ _ => may)
    (fun _ _ => next) (fun _ _ _ _ => True) t

theorem holds_of_run {v : World ι} {as : List (Act ι Call Choice)}
    {t t' : Conf ι (World ι) Request Request.Reply Call Resp}
    (hr : (processes ι b nameMax).run t as = some t') (h : HoldsFrom v t) : HoldsFrom v t' :=
  (discipline v).runs
    (System.runs_of_run (fun _ _ _ => trivial) (fun _ _ _ _ => trivial) as t t' hr) h

omit [DecidableEq ι] in
/-- The object of a handle, and its size. -/
theorem Covers.behind (h : Covers w sm) (hsm : w.blocks i p = some sm) :
    ∃ object, w.behind i p = some object ∧ w.sizes object = sm.size.toNat := by
  obtain ⟨-, -, fd, hfd, object, ho, hs⟩ := h
  refine ⟨object, ?_, hs⟩
  rw [World.behind, hsm, Option.bind_some, hfd, World.objectOf, Option.bind_some, ho]

/-- In every run a handle on a registry says the size of its object, which is not 0, and stays the
size of the object in every later state: of whatever handles then lead to it, and when none does. -/
theorem sizes_exact {as as' : List (Act ι Call Choice)}
    {t t' : Conf ι (World ι) Request Request.Reply Call Resp}
    (hr : (processes ι b nameMax).run (System.idle (World.start ι)) as = some t)
    (hr' : (processes ι b nameMax).run t as' = some t') (hp : p ∈ t.shared.registry i) :
    ∃ object size buffer, t.shared.behind i p = some object ∧ size ≠ 0 ∧
      (skyShareMemorySize p).run (answer b i) t.shared = .ok (size, t.shared) ∧
      (skyShareMemoryGetBuffer p).run (answer b i) t.shared = .ok (some buffer, t.shared) ∧
      t'.shared.sizes object = size.toNat ∧
      ∀ j, ∀ q ∈ t'.shared.registry j, t'.shared.behind j q = some object →
        (skyShareMemorySize q).run (answer b j) t'.shared = .ok (size, t'.shared) := by
  obtain ⟨gs, ⟨hexact, -⟩, hknows⟩ := holds_of_run hr
    ⟨fun _ => .idle, ⟨exact_start, Grows.refl _⟩, fun _ => rfl⟩
  obtain ⟨gs', ⟨hexact', hgrow⟩, -⟩ := holds_of_run hr' ⟨gs, ⟨hexact, Grows.refl _⟩, hknows⟩
  obtain ⟨hz, sm, hsm, hc⟩ := (hexact.registered i).covers p hp
  obtain ⟨object, hbehind, hs⟩ := hc.behind hsm
  obtain ⟨buffer, hptr⟩ := Option.ne_none_iff_exists'.1 hc.1
  obtain ⟨hsize, hbuffer⟩ := answers (b := b) (i := i) hz hsm
  have hlater : t'.shared.sizes object = sm.size.toNat := by
    rw [hgrow.sizes object (by rw [hs]; exact hc.2.1), hs]
  refine ⟨object, sm.size, buffer, hbehind, ?_, hsize, hptr ▸ hbuffer, hlater, ?_⟩
  · intro hzero
    exact hc.2.1 (by rw [hzero]; rfl)
  · intro j q hq hbehind'
    obtain ⟨hz', sm', hsm', hc'⟩ := (hexact'.registered j).covers q hq
    obtain ⟨object', hobj, hs'⟩ := hc'.behind hsm'
    cases hbehind'.symm.trans hobj
    have heq : sm'.size = sm.size := UInt32.toNat_inj.1 (hs'.symm.trans hlater)
    rw [← heq]
    exact (answers hz' hsm').1

/-- A process has created `"a"`, and another one opens it. -/
theorem sizes_exact_opened :
    ∃ t t', (processes Bool ⟨0, false⟩ 256).run (System.idle (World.start Bool))
        (.start false (.create (some nameA) 8) :: ([.place 8, .succeed, .succeed, .succeed,
          .place 16, .succeed, .succeed, .succeed, .succeed] : List Choice).map (Act.run false) ++
          [.finish false]) = some t ∧
      (processes Bool ⟨0, false⟩ 256).run t
        (.start true (.open (some nameA)) :: ([.place 8, .succeed, .succeed, .succeed,
          .place 16, .succeed, .succeed, .succeed, .succeed] : List Choice).map (Act.run true) ++
          [.finish true]) = some t' ∧
      8 ∈ t.shared.registry false ∧ 8 ∈ t'.shared.registry true ∧
      t'.shared.behind true 8 = some 0 ∧
      ∃ object size buffer, t.shared.behind false 8 = some object ∧ size ≠ 0 ∧
        (skyShareMemorySize 8).run (answer ⟨0, false⟩ false) t.shared = .ok (size, t.shared) ∧
        (skyShareMemoryGetBuffer 8).run (answer ⟨0, false⟩ false) t.shared =
          .ok (some buffer, t.shared) ∧
        t'.shared.sizes object = size.toNat ∧
        ∀ j, ∀ q ∈ t'.shared.registry j, t'.shared.behind j q = some object →
          (skyShareMemorySize q).run (answer ⟨0, false⟩ j) t'.shared = .ok (size, t'.shared) := by
  obtain ⟨t, hr, t', hr', hp, hq, hobj⟩ :
      ∃ t, (processes Bool ⟨0, false⟩ 256).run (System.idle (World.start Bool))
        (.start false (.create (some nameA) 8) :: ([.place 8, .succeed, .succeed, .succeed,
          .place 16, .succeed, .succeed, .succeed, .succeed] : List Choice).map (Act.run false) ++
          [.finish false]) = some t ∧
      ∃ t', (processes Bool ⟨0, false⟩ 256).run t
        (.start true (.open (some nameA)) :: ([.place 8, .succeed, .succeed, .succeed,
          .place 16, .succeed, .succeed, .succeed, .succeed] : List Choice).map (Act.run true) ++
          [.finish true]) = some t' ∧
      8 ∈ t.shared.registry false ∧ 8 ∈ t'.shared.registry true ∧
      t'.shared.behind true 8 = some 0 :=
    ⟨_, rfl, _, rfl, List.mem_singleton.2 rfl, List.mem_singleton.2 rfl, rfl⟩
  exact ⟨t, t', hr, hr', hp, hq, hobj, sizes_exact hr hr' hp⟩

end Sky.Shm.Extent
