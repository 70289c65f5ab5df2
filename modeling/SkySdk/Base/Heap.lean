import SkySdk.Base.Prog
import Mathlib.Data.Finmap
import Mathlib.Order.Lattice.Nat

/-!
# A heap of typed blocks, and an allocator that may refuse

`Heap β`: the live blocks, each a value of `β` at a nonzero address, and the log of the allocator
calls made so far. `Allocator` decides, from the number of calls made so far and the live
addresses, whether a call is granted and where the block is put; it never hands out NULL or a live
address. A theorem over every `Allocator` is one over every pattern of failures and every address
the C allocator may choose, addresses of freed blocks included.

`load`, `store`, `malloc`, `realloc`, `free` are the programs; an access to a dead address or a
`free` of one is a fault, so a program that `Ends` never touches freed memory and frees no block
twice. `Heap.entries` is the ledger: the multiset of live blocks. The `Ends.*` rules move blocks in
and out of it, whatever the rest of the ledger (the frame) is.
-/

set_option autoImplicit false

namespace Base

/-- An address; `0` is NULL. -/
abbrev Addr := Nat

/-- A call of the allocator with its result (`0`: refused). -/
inductive Event
  | malloc (res : Addr)
  | realloc (old res : Addr)
  | free (old : Addr)
deriving DecidableEq, Repr

/-- The environment's decisions, by the number of calls made so far and the live addresses. -/
structure Allocator where
  grants : Nat → Bool
  place : Nat → Finset Addr → Addr
  place_ne : ∀ t s, place t s ≠ 0
  place_fresh : ∀ t s, place t s ∉ s
  move : Nat → Addr → Finset Addr → Addr
  move_spec : ∀ t p s, move t p s = p ∨ move t p s ≠ 0 ∧ move t p s ∉ s

/-- The allocator that decides each call by `grants` and puts a block above every live one;
`realloc` stays in place. -/
def Allocator.bump (grants : Nat → Bool) : Allocator where
  grants := grants
  place _ s := s.sup id + 1
  place_ne _ _ := Nat.succ_ne_zero _
  place_fresh _ _ h := Nat.not_succ_le_self _ (Finset.le_sup (f := id) h)
  move _ p _ := p
  move_spec _ _ _ := .inl rfl

/-- A collection of blocks, each at its address. -/
abbrev Ledger (β : Type) := Multiset (Σ _ : Addr, β)

/-- The block `b` at `p`. -/
def cell {β : Type} (p : Addr) (b : β) : Ledger β := {⟨p, b⟩}

/-- The live blocks and the log of allocator calls, newest first. -/
structure Heap (β : Type) where
  blocks : Finmap fun _ : Addr => β
  log : List Event
  null_dead : 0 ∉ blocks

namespace Heap

variable {β : Type}

/-- The heap without blocks, before the first call. -/
def empty : Heap β := ⟨∅, [], Finmap.notMem_empty⟩

/-- The number of allocator calls made so far. -/
def time (h : Heap β) : Nat := h.log.length

/-- The number of live blocks. -/
def size (h : Heap β) : Nat := h.blocks.keys.card

/-- The ledger of live blocks. -/
def entries (h : Heap β) : Ledger β := h.blocks.entries

def get? (h : Heap β) (a : Addr) : Option β := h.blocks.lookup a

def note (h : Heap β) (e : Event) : Heap β := ⟨h.blocks, e :: h.log, h.null_dead⟩

/-- Overwrite a live block. -/
def set (h : Heap β) (a : Addr) (b : β) : Heap β :=
  if ha : a ∈ h.blocks then
    ⟨h.blocks.insert a b, h.log, fun h0 => by
      rcases Finmap.mem_insert.1 h0 with rfl | h0
      · exact h.null_dead ha
      · exact h.null_dead h0⟩
  else h

/-- Add a block. -/
def alloc (h : Heap β) (a : Addr) (b : β) : Heap β :=
  if ha : a = 0 then h
  else ⟨h.blocks.insert a b, h.log, fun h0 => by
    rcases Finmap.mem_insert.1 h0 with h0 | h0
    · exact ha h0.symm
    · exact h.null_dead h0⟩

/-- Remove a block. -/
def erase (h : Heap β) (a : Addr) : Heap β :=
  ⟨h.blocks.erase a, h.log, fun h0 => h.null_dead (Finmap.mem_erase.1 h0).2⟩

/-! ## Lookups -/

variable {h : Heap β} {a c : Addr} {b : β}

@[simp] theorem get?_note (h : Heap β) (e : Event) (c : Addr) : (h.note e).get? c = h.get? c := rfl

@[simp] theorem blocks_note (h : Heap β) (e : Event) : (h.note e).blocks = h.blocks := rfl

@[simp] theorem log_note (h : Heap β) (e : Event) : (h.note e).log = e :: h.log := rfl

@[simp] theorem time_note (h : Heap β) (e : Event) : (h.note e).time = h.time + 1 := rfl

@[simp] theorem entries_note (h : Heap β) (e : Event) : (h.note e).entries = h.entries := rfl

@[simp] theorem size_note (h : Heap β) (e : Event) : (h.note e).size = h.size := rfl

theorem mem_blocks : a ∈ h.blocks ↔ ∃ b, h.get? a = some b := Finmap.mem_iff

theorem mem_of_get? (hb : h.get? a = some b) : a ∈ h.blocks := mem_blocks.2 ⟨b, hb⟩

theorem ne_zero_of_mem (ha : a ∈ h.blocks) : a ≠ 0 := fun h0 => h.null_dead (h0 ▸ ha)

@[simp] theorem log_set (h : Heap β) (a : Addr) (b : β) : (h.set a b).log = h.log := by
  unfold set; split <;> rfl

theorem time_add_of_log {h' : Heap β} {e : Event} (hl : h'.log = e :: h.log) (t : Nat) :
    h'.time + t = h.time + (t + 1) := by
  rw [time, hl, List.length_cons, Nat.add_assoc, Nat.add_comm 1]
  rfl

@[simp] theorem time_set (h : Heap β) (a : Addr) (b : β) : (h.set a b).time = h.time := by
  simp [time]

@[simp] theorem log_alloc (h : Heap β) (a : Addr) (b : β) : (h.alloc a b).log = h.log := by
  unfold alloc; split <;> rfl

@[simp] theorem log_erase (h : Heap β) (a : Addr) : (h.erase a).log = h.log := rfl

@[simp] theorem time_erase (h : Heap β) (a : Addr) : (h.erase a).time = h.time := rfl

@[simp] theorem time_alloc (h : Heap β) (a : Addr) (b : β) : (h.alloc a b).time = h.time := by
  simp [time]

theorem get?_set (ha : a ∈ h.blocks) (c : Addr) :
    (h.set a b).get? c = if c = a then some b else h.get? c := by
  simp only [set, ha, dite_true, get?]
  split
  · subst c; exact Finmap.lookup_insert _
  · exact Finmap.lookup_insert_of_ne _ ‹_›

theorem get?_alloc (ha : a ≠ 0) (c : Addr) :
    (h.alloc a b).get? c = if c = a then some b else h.get? c := by
  simp only [alloc, ha, dite_false, get?]
  split
  · subst c; exact Finmap.lookup_insert _
  · exact Finmap.lookup_insert_of_ne _ ‹_›

theorem get?_erase (c : Addr) : (h.erase a).get? c = if c = a then none else h.get? c := by
  simp only [erase, get?]
  split
  · subst c; exact Finmap.lookup_erase _ _
  · exact Finmap.lookup_erase_ne ‹_›

/-! ## The ledger -/

variable {F : Ledger β} {b' : β}

theorem mem_entries : (⟨a, b⟩ : Σ _ : Addr, β) ∈ h.entries ↔ h.get? a = some b :=
  Finmap.lookup_eq_some_iff.symm

theorem get?_of_entries (he : h.entries = cell a b + F) : h.get? a = some b :=
  mem_entries.1 (by rw [he]; simp [cell])

theorem mem_of_entries (he : h.entries = cell a b + F) : a ∈ h.blocks :=
  mem_of_get? (get?_of_entries he)

theorem entries_nodup (h : Heap β) : h.entries.Nodup := h.blocks.nodup_entries

theorem keys_nodup (h : Heap β) : (h.entries.map Sigma.fst).Nodup :=
  Multiset.nodup_keys.2 h.blocks.nodupKeys

/-- The rest of the ledger does not mention the address of a block split off. -/
theorem notMem_frame (he : h.entries = cell a b + F) : a ∉ F.map Sigma.fst := by
  have hn := h.keys_nodup
  rw [he, cell, Multiset.singleton_add, Multiset.map_cons, Multiset.nodup_cons] at hn
  exact hn.1

/-- A part of the ledger has no more blocks than the heap. -/
theorem length_le_size {as : List Addr} {P : Ledger β} (he : h.entries = P + F)
    (hP : P.map Sigma.fst = (↑as : Multiset Addr)) : as.length ≤ h.size := by
  have hs : h.size = Multiset.card (h.entries.map Sigma.fst) := by
    rw [Multiset.card_map]
    exact Multiset.card_map Sigma.fst h.entries
  rw [hs, he, Multiset.map_add, hP, Multiset.card_add, Multiset.coe_card]
  exact Nat.le_add_right _ _

theorem mem_blocks_iff_entries : a ∈ h.blocks ↔ a ∈ h.entries.map Sigma.fst := Finmap.mem_def

theorem entries_alloc (h0 : a ≠ 0) (ha : a ∉ h.blocks) :
    (h.alloc a b).entries = cell a b + h.entries := by
  simp only [alloc, h0, dite_false, entries]
  exact Finmap.entries_insert_of_notMem ha

theorem entries_erase (he : h.entries = cell a b + F) : (h.erase a).entries = F := by
  have hF : F.Nodup := by
    have := h.entries_nodup
    rw [he, cell, Multiset.singleton_add] at this
    exact (Multiset.nodup_cons.1 this).2
  have ha := notMem_frame he
  refine ((h.erase a).entries_nodup.ext hF).2 fun ⟨c, d⟩ => ?_
  rw [mem_entries, get?_erase]
  by_cases hc : c = a
  · subst c
    simp only [if_true, reduceCtorEq, false_iff]
    exact fun hm => ha (Multiset.mem_map_of_mem Sigma.fst hm)
  · rw [if_neg hc, ← mem_entries, he, cell, Multiset.singleton_add, Multiset.mem_cons]
    simp [hc]

theorem entries_set (he : h.entries = cell a b + F) : (h.set a b').entries = cell a b' + F := by
  have hm := mem_of_entries he
  have h0 := ne_zero_of_mem hm
  have hs : (h.set a b').blocks = ((h.erase a).alloc a b').blocks := by
    refine Finmap.ext_lookup fun c => ?_
    change (h.set a b').get? c = ((h.erase a).alloc a b').get? c
    rw [get?_set hm, get?_alloc h0, get?_erase]
    split <;> simp_all
  have ha : a ∉ (h.erase a).blocks := Finmap.notMem_erase_self
  rw [entries, hs, ← entries, entries_alloc h0 ha, entries_erase he]

end Heap

/-! ## The programs -/

section
variable {β : Type}

def load (p : Addr) : Prog (Heap β) β := fun h =>
  match h.get? p with
  | some b => .ok (b, h)
  | none => .error .badAccess

def store (p : Addr) (b : β) : Prog (Heap β) Unit := fun h =>
  if p ∈ h.blocks then .ok ((), h.set p b) else .error .badAccess

/-- `malloc` of a block whose content is `b`. -/
def malloc (A : Allocator) (b : β) : Prog (Heap β) Addr := fun h =>
  if A.grants h.time then
    let a := A.place h.time h.blocks.keys
    .ok (a, (h.alloc a b).note (.malloc a))
  else .ok (0, h.note (.malloc 0))

/-- `realloc`: `resize` gives the content of the block at its new size, `fresh` that of a block
made for NULL. -/
def realloc (A : Allocator) (p : Addr) (resize : β → Except Fault β) (fresh : β) :
    Prog (Heap β) Addr :=
  if p = 0 then malloc A fresh
  else fun h =>
    match h.get? p with
    | none => .error .badFree
    | some b =>
      if A.grants h.time then
        match resize b with
        | .error e => .error e
        | .ok b' =>
          let q := A.move h.time p h.blocks.keys
          .ok (q, ((h.erase p).alloc q b').note (.realloc p q))
      else .ok (0, h.note (.realloc p 0))

/-- `free`; of NULL it does nothing. -/
def free (p : Addr) : Prog (Heap β) Unit := fun h =>
  if p = 0 then .ok ((), h)
  else if p ∈ h.blocks then .ok ((), (h.erase p).note (.free p))
  else .error .badFree

variable {h : Heap β} {p : Addr} {b : β} {F : Ledger β}

@[simp] theorem ends_load {Q : β → Heap β → Prop} :
    Ends (load p) h Q ↔ ∃ b, h.get? p = some b ∧ Q b h := by
  cases hb : h.get? p with
  | none => rw [ends_of_error (e := .badAccess) (by simp [load, hb])]; simp
  | some b => rw [ends_of_eq (by simp [load, hb] : load p h = .ok (b, h))]; simp

@[simp] theorem ends_store {Q : Unit → Heap β → Prop} :
    Ends (store p b) h Q ↔ p ∈ h.blocks ∧ Q () (h.set p b) := by
  by_cases hp : p ∈ h.blocks
  · rw [ends_of_eq (by simp [store, hp] : store p b h = .ok ((), h.set p b))]; simp [hp]
  · rw [ends_of_error (e := .badAccess) (by simp [store, hp])]; simp [hp]

theorem ends_free {Q : Unit → Heap β → Prop} :
    Ends (free p) h Q ↔
      (p = 0 → Q () h) ∧ (p ≠ 0 → p ∈ h.blocks ∧ Q () ((h.erase p).note (.free p))) := by
  by_cases h0 : p = 0
  · rw [ends_of_eq (by simp [free, h0] : free p h = .ok ((), h))]; simp [h0]
  · by_cases hm : p ∈ h.blocks
    · rw [ends_of_eq (by simp [free, h0, hm] :
        free p h = .ok ((), (h.erase p).note (.free p)))]; simp [h0, hm]
    · rw [ends_of_error (e := .badFree) (by simp [free, h0, hm])]; simp [h0, hm]

theorem ends_malloc {A : Allocator} {Q : Addr → Heap β → Prop} :
    Ends (malloc A b) h Q ↔
      if A.grants h.time then
        Q (A.place h.time h.blocks.keys)
          ((h.alloc (A.place h.time h.blocks.keys) b).note (.malloc (A.place h.time h.blocks.keys)))
      else Q 0 (h.note (.malloc 0)) := by
  by_cases hg : A.grants h.time = true
  · simp only [hg, if_true]
    exact ends_of_eq (by simp [malloc, hg])
  · simp only [hg]
    exact ends_of_eq (by simp [malloc, hg])

/-! ## Rules over the ledger -/

theorem returns_load : Returns (load p) h fun _ h' => h' = h := by
  intro b h' hx
  unfold load at hx
  cases hg : h.get? p with
  | none =>
    rw [hg] at hx
    cases hx
  | some b' =>
    rw [hg] at hx
    cases hx
    rfl

theorem Ends.load {Q : β → Heap β → Prop} (he : h.entries = cell p b + F) (hq : Q b h) :
    Ends (load p) h Q :=
  ends_load.2 ⟨b, Heap.get?_of_entries he, hq⟩

theorem Ends.store_log {b' : β} {Q : Unit → Heap β → Prop} (he : h.entries = cell p b + F)
    (hq : ∀ h' : Heap β, h'.entries = cell p b' + F → h'.log = h.log → Q () h') :
    Ends (store p b') h Q :=
  ends_store.2 ⟨Heap.mem_of_entries he, hq _ (Heap.entries_set he) (Heap.log_set _ _ _)⟩

theorem Ends.store {b' : β} {Q : Unit → Heap β → Prop} (he : h.entries = cell p b + F)
    (hq : ∀ h' : Heap β, h'.entries = cell p b' + F → h'.time = h.time → Q () h') :
    Ends (store p b') h Q :=
  Ends.store_log he fun h' e hl => hq h' e (congrArg List.length hl)

theorem Ends.free_log {Q : Unit → Heap β → Prop} (he : h.entries = cell p b + F)
    (hq : ∀ h' : Heap β, h'.entries = F → h'.log = .free p :: h.log → Q () h') :
    Ends (free p) h Q := by
  have hm := Heap.mem_of_entries he
  exact ends_free.2 ⟨fun h0 => absurd h0 (Heap.ne_zero_of_mem hm),
    fun _ => ⟨hm, hq _ (Heap.entries_erase he) rfl⟩⟩

theorem Ends.free {Q : Unit → Heap β → Prop} (he : h.entries = cell p b + F)
    (hq : ∀ h' : Heap β, h'.entries = F → h'.time = h.time + 1 → Q () h') :
    Ends (free p) h Q :=
  Ends.free_log he fun h' e hl => hq h' e (congrArg List.length hl)

theorem Ends.free_null {Q : Unit → Heap β → Prop} (hq : Q () h) : Ends (Base.free 0) h Q :=
  ends_free.2 ⟨fun _ => hq, fun h0 => absurd rfl h0⟩

theorem Ends.malloc_log {A : Allocator} {Q : Addr → Heap β → Prop}
    (h0 : ∀ h' : Heap β, A.grants h.time = false → h'.entries = h.entries →
      h'.log = .malloc 0 :: h.log → Q 0 h')
    (h1 : ∀ a (h' : Heap β), A.grants h.time = true → a ≠ 0 → h'.entries = cell a b + h.entries →
      h'.log = .malloc a :: h.log → Q a h') :
    Ends (malloc A b) h Q := by
  rw [ends_malloc]
  split
  · have hn : A.place h.time h.blocks.keys ∉ h.blocks :=
      fun hm => A.place_fresh h.time h.blocks.keys (Finmap.mem_keys.2 hm)
    exact h1 _ _ ‹_› (A.place_ne _ _) (Heap.entries_alloc (A.place_ne _ _) hn) (by simp)
  · rename_i hg
    exact h0 _ (by simpa using hg) rfl rfl

theorem Ends.malloc {A : Allocator} {Q : Addr → Heap β → Prop}
    (h0 : ∀ h' : Heap β, A.grants h.time = false → h'.entries = h.entries →
      h'.time = h.time + 1 → Q 0 h')
    (h1 : ∀ a (h' : Heap β), A.grants h.time = true → a ≠ 0 → h'.entries = cell a b + h.entries →
      h'.time = h.time + 1 → Q a h') :
    Ends (malloc A b) h Q :=
  Ends.malloc_log (fun h' hg e hl => h0 h' hg e (congrArg List.length hl))
    fun a h' hg ha e hl => h1 a h' hg ha e (congrArg List.length hl)

theorem Ends.realloc {A : Allocator} {resize : β → Except Fault β} {fresh b' : β}
    {Q : Addr → Heap β → Prop} (he : h.entries = cell p b + F) (hr : resize b = .ok b')
    (h0 : ∀ h' : Heap β, A.grants h.time = false → h'.entries = cell p b + F →
      h'.time = h.time + 1 → Q 0 h')
    (h1 : ∀ q (h' : Heap β), A.grants h.time = true → q ≠ 0 → h'.entries = cell q b' + F →
      h'.time = h.time + 1 → Q q h') :
    Ends (realloc A p resize fresh) h Q := by
  have hm := Heap.mem_of_entries he
  have hp := Heap.ne_zero_of_mem hm
  unfold Ends Base.realloc
  simp only [hp, if_false, Heap.get?_of_entries he]
  by_cases hg : A.grants h.time = true
  · have hq : A.move h.time p h.blocks.keys ≠ 0 ∧
        A.move h.time p h.blocks.keys ∉ (h.erase p).blocks := by
      rcases A.move_spec h.time p h.blocks.keys with hq | ⟨hq0, hq⟩
      · rw [hq]
        exact ⟨hp, Finmap.notMem_erase_self⟩
      · exact ⟨hq0, fun hx => hq (Finmap.mem_keys.2 (Finmap.mem_erase.1 hx).2)⟩
    simp only [hg, if_true, hr]
    refine ⟨_, _, rfl, h1 _ _ hg hq.1 ?_ (by simp)⟩
    rw [Heap.entries_note, Heap.entries_alloc hq.1 hq.2, Heap.entries_erase he]
  · simp only [hg]
    exact ⟨_, _, rfl, h0 _ (by simpa using hg) he rfl⟩

theorem realloc_null (A : Allocator) (resize : β → Except Fault β) (fresh : β) :
    realloc A 0 resize fresh = malloc A fresh := by
  simp [realloc]

end

end Base
