import SkySdk.Map.Defs

/-!
# What one map owns

`Holds h F m d rows`: the ledger of `h` is exactly the blocks of the map `m` with struct `d` and
pairs `rows`, plus the frame `F`. The arrays may have slack behind their first `count` cells (a
shrinking `realloc` that failed leaves it). The rules below are `Base`'s rules for the typed
accesses of `sky_map.c`.
-/

set_option autoImplicit false

namespace Sky.Map

open Base
open Block (map ptrs chars)

variable {h : Heap Block} {F : Ledger Block} {p a : Addr} {i n : Nat} {d : SkyHandleMap}
  {v : List (Option Addr)} {x : List (Option UInt8)} {s : CStr}

/-! ## Reads -/

theorem loadMap_ends {Q : SkyHandleMap → Heap Block → Prop} (hg : h.get? p = some (map d))
    (hq : Q d h) : Ends (loadMap p) h Q := by
  simp [loadMap, hg, hq]

theorem loadPtrs_ends {Q : List (Option Addr) → Heap Block → Prop}
    (hg : h.get? p = some (ptrs v)) (hq : Q v h) : Ends (loadPtrs p) h Q := by
  simp [loadPtrs, hg, hq]

theorem loadSlot_ends {Q : Addr → Heap Block → Prop} (hg : h.get? p = some (ptrs v))
    (hi : v[i]? = some (some a)) (hq : Q a h) : Ends (loadSlot p i) h Q := by
  simp [loadSlot, loadPtrs, hg, hi, hq]

theorem loadStr_ends {Q : CStr → Heap Block → Prop} (hg : h.get? p = some (chars s.cells))
    (hq : Q s h) : Ends (loadStr p) h Q := by
  simp [loadStr, hg, hq]

theorem loadArg_ends {Q : Option CStr → Heap Block → Prop} (hg : h.get? p = some (chars s.cells))
    (hq : Q (some s) h) : Ends (loadArg p) h Q := by
  have hp := Heap.ne_zero_of_mem (Heap.mem_of_get? hg)
  simp [loadArg, loadStr, hp, hg, hq]

/-! ## Writes -/

theorem modifyMap_ends {f : SkyHandleMap → SkyHandleMap} {Q : Unit → Heap Block → Prop}
    (he : h.entries = cell p (map d) + F)
    (hq : ∀ h' : Heap Block, h'.entries = cell p (map (f d)) + F → h'.time = h.time → Q () h') :
    Ends (modifyMap p f) h Q := by
  unfold modifyMap
  rw [ends_bind]
  refine loadMap_ends (Heap.get?_of_entries he) ?_
  exact Ends.store he hq

theorem storeSlot_ends {Q : Unit → Heap Block → Prop} (he : h.entries = cell p (ptrs v) + F)
    (hi : i < v.length)
    (hq : ∀ h' : Heap Block, h'.entries = cell p (ptrs (v.set i (some a))) + F →
      h'.time = h.time → Q () h') :
    Ends (storeSlot p i a) h Q := by
  unfold storeSlot
  rw [ends_bind]
  refine loadPtrs_ends (Heap.get?_of_entries he) ?_
  rw [if_pos hi]
  exact Ends.store he hq

theorem storeChars_ends {src : List (Option UInt8)} {Q : Unit → Heap Block → Prop}
    (he : h.entries = cell p (chars x) + F) (hl : src.length ≤ x.length)
    (hq : ∀ h' : Heap Block, h'.entries = cell p (chars (src ++ x.drop src.length)) + F →
      h'.time = h.time → Q () h') :
    Ends (storeChars p src) h Q := by
  unfold storeChars
  rw [ends_bind]
  refine Ends.load he ?_
  simp only [if_pos hl]
  exact Ends.store he hq

theorem movePtrs_ends {dst src : Nat} {Q : Unit → Heap Block → Prop}
    (he : h.entries = cell p (ptrs v) + F) (hd : dst + n ≤ v.length) (hs : src + n ≤ v.length)
    (hq : ∀ h' : Heap Block,
      h'.entries = cell p (ptrs (v.take dst ++ (v.drop src).take n ++ v.drop (dst + n))) + F →
      h'.time = h.time → Q () h') :
    Ends (movePtrs p dst src n) h Q := by
  unfold movePtrs
  rw [ends_bind]
  refine loadPtrs_ends (Heap.get?_of_entries he) ?_
  rw [if_pos ⟨hd, hs⟩]
  exact Ends.store he hq

/-! ## Allocation -/

theorem reallocPtrs_ends {A : Allocator} {Q : Addr → Heap Block → Prop}
    (he : h.entries = cell p (ptrs v) + F)
    (h0 : ∀ h' : Heap Block, A.grants h.time = false → h'.entries = cell p (ptrs v) + F →
      h'.time = h.time + 1 → Q 0 h')
    (h1 : ∀ q (h' : Heap Block), A.grants h.time = true → q ≠ 0 →
      h'.entries = cell q (ptrs (resize n v)) + F → h'.time = h.time + 1 → Q q h') :
    Ends (reallocPtrs A p n) h Q :=
  Ends.realloc he rfl h0 h1

theorem reallocPtrs_null_ends {A : Allocator} {Q : Addr → Heap Block → Prop}
    (h0 : ∀ h' : Heap Block, A.grants h.time = false → h'.entries = h.entries →
      h'.time = h.time + 1 → Q 0 h')
    (h1 : ∀ q (h' : Heap Block), A.grants h.time = true → q ≠ 0 →
      h'.entries = cell q (ptrs (List.replicate n none)) + h.entries → h'.time = h.time + 1 →
      Q q h') :
    Ends (reallocPtrs A 0 n) h Q := by
  unfold reallocPtrs
  rw [realloc_null]
  exact Ends.malloc h0 h1

theorem reallocChars_ends {A : Allocator} {Q : Addr → Heap Block → Prop}
    (he : h.entries = cell p (chars x) + F)
    (h0 : ∀ h' : Heap Block, A.grants h.time = false → h'.entries = cell p (chars x) + F →
      h'.time = h.time + 1 → Q 0 h')
    (h1 : ∀ q (h' : Heap Block), A.grants h.time = true → q ≠ 0 →
      h'.entries = cell q (chars (resize n x)) + F → h'.time = h.time + 1 → Q q h') :
    Ends (reallocChars A p n) h Q :=
  Ends.realloc he rfl h0 h1

/-! ## Array cells -/

theorem length_resize {α : Type} (n : Nat) (l : List (Option α)) : (resize n l).length = n := by
  simp [resize]; omega

theorem resize_set {pre v : List (Option Addr)} (hp : pre <+: v) (hn : pre.length = n) (a : Addr) :
    (resize (n + 1) v).set n (some a) = pre ++ [some a] := by
  obtain ⟨rest, rfl⟩ := hp
  subst hn
  cases rest with
  | nil => simp [resize, List.take_of_length_le]
  | cons x rest => simp [resize, List.take_append]

theorem prefix_resize {pre v : List (Option Addr)} (hp : pre <+: v) (hn : pre.length = n) :
    pre <+: resize n v := by
  obtain ⟨rest, rfl⟩ := hp
  subst hn
  simp [resize]

theorem set_last {α : Type} {pre : List α} (hn : pre.length = n) (y z : α) :
    (pre ++ [y]).set n z = pre ++ [z] := by
  subst hn
  simp

theorem prefix_getElem? {α : Type} {pre v : List α} (hp : pre <+: v) {x : α}
    (hx : pre[i]? = some x) : v[i]? = some x := by
  obtain ⟨rest, rfl⟩ := hp
  rw [List.getElem?_append_left (List.getElem?_eq_some_iff.1 hx).1, hx]

/-! ## The map's own blocks -/

/-- A pair with the addresses of its two strings. -/
structure Row where
  kaddr : Addr
  vaddr : Addr
  key : CStr
  value : CStr

def Row.pair (r : Row) : CStr × CStr := (r.key, r.value)

def kslots (rows : List Row) : List (Option Addr) := rows.map fun r => some r.kaddr

def vslots (rows : List Row) : List (Option Addr) := rows.map fun r => some r.vaddr

/-- The string blocks of the pairs. -/
def strings (rows : List Row) : Ledger Block :=
  (rows.map fun r => cell r.kaddr (chars r.key.cells) + cell r.vaddr (chars r.value.cells)).sum

@[simp] theorem strings_nil : strings [] = 0 := rfl

@[simp] theorem strings_cons (r : Row) (rows : List Row) :
    strings (r :: rows) =
      cell r.kaddr (chars r.key.cells) + cell r.vaddr (chars r.value.cells) + strings rows := by
  simp [strings]

@[simp] theorem strings_append (rows rows' : List Row) :
    strings (rows ++ rows') = strings rows + strings rows' := by
  simp [strings]

@[simp] theorem length_kslots (rows : List Row) : (kslots rows).length = rows.length := by
  simp [kslots]

@[simp] theorem length_vslots (rows : List Row) : (vslots rows).length = rows.length := by
  simp [vslots]

theorem kslots_append (rows rows' : List Row) :
    kslots (rows ++ rows') = kslots rows ++ kslots rows' :=
  List.map_append

theorem vslots_append (rows rows' : List Row) :
    vslots (rows ++ rows') = vslots rows ++ vslots rows' :=
  List.map_append

theorem mem_strings_key {rows : List Row} {r : Row} (hr : r ∈ rows) :
    (⟨r.kaddr, .chars r.key.cells⟩ : Σ _ : Addr, Block) ∈ strings rows := by
  induction rows with
  | nil => cases hr
  | cons x rows ih =>
    rcases List.mem_cons.1 hr with rfl | hr
    · simp [cell]
    · simp [ih hr]

theorem mem_strings_value {rows : List Row} {r : Row} (hr : r ∈ rows) :
    (⟨r.vaddr, .chars r.value.cells⟩ : Σ _ : Addr, Block) ∈ strings rows := by
  induction rows with
  | nil => cases hr
  | cons x rows ih =>
    rcases List.mem_cons.1 hr with rfl | hr
    · simp [cell]
    · simp [ih hr]

/-- The ledger of `h` is the map `m`'s blocks and the frame `F` (module doc). -/
structure Holds (h : Heap Block) (F : Ledger Block) (m : Addr) (d : SkyHandleMap)
    (rows : List Row) : Prop where
  count : d.count = rows.length
  ledger : (rows = [] ∧ d.keys = 0 ∧ d.values = 0 ∧ h.entries = cell m (map d) + F) ∨
    ∃ ks vs, rows ≠ [] ∧ kslots rows <+: ks ∧ vslots rows <+: vs ∧
      h.entries = cell m (map d) + cell d.keys (ptrs ks) + cell d.values (ptrs vs) +
        strings rows + F

namespace Holds

variable {m : Addr} {rows : List Row}

theorem get (H : Holds h F m d rows) : h.get? m = some (map d) := by
  refine Heap.mem_entries.1 ?_
  rcases H.ledger with ⟨-, -, -, he⟩ | ⟨ks, vs, -, -, -, he⟩ <;> simp [he, cell]

theorem ne_zero (H : Holds h F m d rows) : m ≠ 0 :=
  Heap.ne_zero_of_mem (Heap.mem_of_get? H.get)

theorem get_key (H : Holds h F m d rows) {r : Row} (hr : r ∈ rows) :
    h.get? r.kaddr = some (chars r.key.cells) := by
  refine Heap.mem_entries.1 ?_
  rcases H.ledger with ⟨rfl, -⟩ | ⟨ks, vs, -, -, -, he⟩
  · cases hr
  · simp [he, mem_strings_key hr]

theorem get_value (H : Holds h F m d rows) {r : Row} (hr : r ∈ rows) :
    h.get? r.vaddr = some (chars r.value.cells) := by
  refine Heap.mem_entries.1 ?_
  rcases H.ledger with ⟨rfl, -⟩ | ⟨ks, vs, -, -, -, he⟩
  · cases hr
  · simp [he, mem_strings_value hr]

/-- With pairs, `keys` and `values` are arrays whose first cells are the pairs' strings. -/
theorem arrays (H : Holds h F m d rows) (hr : rows ≠ []) : ∃ ks vs,
    kslots rows <+: ks ∧ vslots rows <+: vs ∧
    h.get? d.keys = some (ptrs ks) ∧ h.get? d.values = some (ptrs vs) := by
  rcases H.ledger with ⟨hn, -⟩ | ⟨ks, vs, -, hk, hv, he⟩
  · exact absurd hn hr
  · exact ⟨ks, vs, hk, hv, Heap.mem_entries.1 (by simp [he, cell]),
      Heap.mem_entries.1 (by simp [he, cell])⟩

end Holds

/-- The ledger `O` is the blocks of the map `m`. -/
structure Owns (O : Ledger Block) (m : Addr) (d : SkyHandleMap) (rows : List Row) : Prop where
  count : d.count = rows.length
  ledger : (rows = [] ∧ d.keys = 0 ∧ d.values = 0 ∧ O = cell m (map d)) ∨
    ∃ ks vs, rows ≠ [] ∧ kslots rows <+: ks ∧ vslots rows <+: vs ∧
      O = cell m (map d) + cell d.keys (ptrs ks) + cell d.values (ptrs vs) + strings rows

theorem Owns.holds {O : Ledger Block} {m : Addr} {rows : List Row} (ho : Owns O m d rows)
    (he : h.entries = O + F) : Holds h F m d rows := by
  refine ⟨ho.count, ?_⟩
  rcases ho.ledger with ⟨hr, hk, hv, rfl⟩ | ⟨ks, vs, hr, hk, hv, rfl⟩
  · exact .inl ⟨hr, hk, hv, he⟩
  · exact .inr ⟨ks, vs, hr, hk, hv, he⟩

theorem Holds.owns {m : Addr} {rows : List Row} (H : Holds h F m d rows) :
    ∃ O, Owns O m d rows ∧ h.entries = O + F := by
  rcases H.ledger with ⟨hr, hk, hv, he⟩ | ⟨ks, vs, hr, hk, hv, he⟩
  · exact ⟨_, ⟨H.count, .inl ⟨hr, hk, hv, rfl⟩⟩, he⟩
  · exact ⟨_, ⟨H.count, .inr ⟨ks, vs, hr, hk, hv, rfl⟩⟩, he⟩

end Sky.Map
