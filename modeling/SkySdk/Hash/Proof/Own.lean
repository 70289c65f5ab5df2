import SkySdk.Hash.Defs

/-!
# What one hash owns

`Shape h F p n rows`: the ledger of `h` is the struct at `p`, the node and the string of each of
`rows`, and the frame `F`. The rows are in the order of the table, which is the `key_array` read
backwards.
-/

set_option autoImplicit false

namespace Sky.Hash

open Base Base.Dll
open Block (hash keyString chars)

variable {h : Heap Block} {F : Ledger Block} {p a : Addr} {d : SkyHandleHash} {k : KeyString}
  {s : CStr} {b : Build}

/-! ## Rules for the accesses -/

theorem loadHash_ends {Q : SkyHandleHash → Heap Block → Prop}
    (he : h.entries = cell p (hash d) + F) (hq : Q d h) : Ends (loadHash p) h Q := by
  unfold loadHash
  rw [ends_bind]
  exact Ends.load he ((ends_pure d).2 hq)

theorem modifyHash_ends {f : SkyHandleHash → SkyHandleHash} {Q : Unit → Heap Block → Prop}
    (he : h.entries = cell p (hash d) + F)
    (hq : ∀ h' : Heap Block, h'.entries = cell p (hash (f d)) + F → h'.log = h.log → Q () h') :
    Ends (modifyHash p f) h Q := by
  unfold modifyHash
  rw [ends_bind]
  exact loadHash_ends he (Ends.store_log he hq)

theorem loadKeyString_ends {Q : KeyString → Heap Block → Prop}
    (he : h.entries = cell a (keyString k) + F) (hq : Q k h) : Ends (loadKeyString a) h Q := by
  unfold loadKeyString
  rw [ends_bind]
  exact Ends.load he ((ends_pure k).2 hq)

theorem modifyKeyString_ends {f : KeyString → KeyString} {Q : Unit → Heap Block → Prop}
    (he : h.entries = cell a (keyString k) + F)
    (hq : ∀ h' : Heap Block, h'.entries = cell a (keyString (f k)) + F → h'.log = h.log →
      Q () h') :
    Ends (modifyKeyString a f) h Q := by
  unfold modifyKeyString
  rw [ends_bind]
  exact loadKeyString_ends he (Ends.store_log he hq)

/-- The characters of a string and its NUL. -/
def text (s : CStr) : List UInt8 := s.bytes ++ [0]

theorem read_text (s : CStr) : CStr.read ((text s).map some) = .ok s := by
  have hcells : (text s).map some = s.cells := by simp [text, CStr.cells]
  rw [hcells, CStr.read_cells]

theorem loadStr_ends {Q : CStr → Heap Block → Prop} (hg : h.get? a = some (chars (text s)))
    (hq : Q s h) : Ends (loadStr a) h Q := by
  simp [loadStr, hg, read_text, hq]

/-- The copy of a string into a block made for it. -/
theorem skyStrCpy_ends {Q : Unit → Heap Block → Prop}
    (he : h.entries = cell a (chars (List.replicate (s.length + 1) 0)) + F)
    (hq : ∀ h' : Heap Block, h'.entries = cell a (chars (text s)) + F → h'.log = h.log → Q () h') :
    Ends (skyStrCpy a s (s.length + 1)) h Q := by
  have htext : (s.bytes ++ List.replicate (s.length + 1) 0).take (s.length + 1) ++
      (List.replicate (s.length + 1) 0).drop (s.length + 1) = text s := by
    simp [CStr.length, text, List.take_append, List.take_of_length_le]
  unfold skyStrCpy
  rw [ends_bind]
  apply Ends.load he
  rw [ends_ite]
  constructor
  · intro _
    rw [htext]
    exact Ends.store_log he hq
  · intro hlen
    simp at hlen

theorem validate_ends {Q : Unit → Heap Block → Prop} (he : h.entries = cell p (hash d) + F)
    (ht : d.handleType = SkyHandleType.hash.code) (hq : Q () h) :
    Ends (skyValidateHandle b p) h Q := by
  have hp := Heap.ne_zero_of_mem (Heap.mem_of_entries he)
  unfold skyValidateHandle skyAssert
  rw [if_neg hp, ends_ite]
  constructor
  · intro _
    rw [ends_bind, ends_bind]
    apply loadHash_ends he
    rw [ends_pure, ends_ite]
    exact ⟨fun _ => (ends_pure _).2 hq, fun hc => absurd (by simp [ht]) hc⟩
  · intro _
    exact (ends_pure _).2 hq

/-! ## The blocks of a hash -/

/-- A key with its value, the node that holds it and the address of its string. -/
structure Row where
  node : Addr
  str : Addr
  key : CStr
  value : Addr
deriving DecidableEq, Repr

def Row.entry (r : Row) : Entry := ⟨r.str, r.value⟩

def Row.link (r : Row) : Addr × Addr := (r.node, r.str)

def Row.pair (r : Row) : CStr × Addr := (r.key, r.value)

/-- The block of a node: its string, then what comes after it. -/
def nodeBlock (str next : Addr) : Block := keyString ⟨str, next⟩

/-- The nodes of the `key_array`, in its order. -/
def nodes (links : List (Addr × Addr)) : Ledger Block := chain id nodeBlock links 0

/-- The strings of the rows. -/
def strings (rows : List Row) : Ledger Block :=
  (rows.map fun r => cell r.str (chars (text r.key))).sum

/-- The struct of a hash with room for `n` keys. -/
def struct (n : Nat) (rows : List Row) : SkyHandleHash :=
  { cb := 32
    handleType := SkyHandleType.hash.code
    htab := ⟨rows.map Row.entry, n⟩
    keyArray := first id (rows.map Row.link).reverse 0 }

/-- All the blocks of the hash at `p`. -/
def owned (p : Addr) (n : Nat) (rows : List Row) : Ledger Block :=
  cell p (hash (struct n rows)) + nodes (rows.map Row.link).reverse + strings rows

/-- The addresses of all these blocks. -/
def addrs (p : Addr) (rows : List Row) : List Addr :=
  p :: (rows.map Row.node ++ rows.map Row.str)

@[simp] theorem strings_nil : strings [] = 0 := rfl

@[simp] theorem strings_cons (r : Row) (rows : List Row) :
    strings (r :: rows) = cell r.str (chars (text r.key)) + strings rows := by
  simp [strings]

@[simp] theorem strings_append (rows rows' : List Row) :
    strings (rows ++ rows') = strings rows + strings rows' := by
  simp [strings]

theorem strings_reverse (rows : List Row) : strings rows.reverse = strings rows := by
  induction rows with
  | nil => rfl
  | cons r rows ih =>
    rw [List.reverse_cons, strings_append, ih, strings_cons, strings_cons, strings_nil, add_zero]
    exact add_comm _ _

theorem keys_strings (rows : List Row) :
    (strings rows).map Sigma.fst = (↑(rows.map Row.str) : Multiset Addr) := by
  induction rows with
  | nil => rfl
  | cons r rows ih =>
    rw [strings_cons, Multiset.map_add, ih, cell, Multiset.map_singleton, Multiset.singleton_add,
      Multiset.cons_coe, List.map_cons]

theorem keys_owned (p : Addr) (n : Nat) (rows : List Row) :
    (owned p n rows).map Sigma.fst = (↑(addrs p rows) : Multiset Addr) := by
  have hnodes : ((rows.map Row.link).reverse.map Prod.fst : Multiset Addr) =
      ↑(rows.map Row.node) := by
    rw [← List.map_reverse, List.map_map]
    exact Multiset.coe_eq_coe.2 ((List.reverse_perm rows).map _)
  unfold owned nodes
  rw [Multiset.map_add, Multiset.map_add, keys_chain, keys_strings, hnodes, cell,
    Multiset.map_singleton, Multiset.singleton_add, Multiset.cons_add, Multiset.coe_add,
    Multiset.cons_coe]
  rfl

/-- The ledger of `h` is the hash at `p` and the frame `F`: its keys are distinct and not empty,
and the table has room for them. -/
structure Shape (h : Heap Block) (F : Ledger Block) (p : Addr) (n : Nat) (rows : List Row) :
    Prop where
  ledger : h.entries = owned p n rows + F
  room : rows.length ≤ n
  nodup : (rows.map Row.key).Nodup
  filled : ∀ r ∈ rows, r.key.bytes ≠ []

namespace Shape

variable {n : Nat} {rows : List Row}

theorem struct_eq (S : Shape h F p n rows) :
    h.entries = cell p (hash (struct n rows)) +
      (nodes (rows.map Row.link).reverse + strings rows + F) := by
  rw [S.ledger, owned]
  ac_rfl

theorem get_str (S : Shape h F p n rows) {r : Row} (hr : r ∈ rows) :
    h.get? r.str = some (chars (text r.key)) := by
  obtain ⟨pre, post, rfl⟩ := List.append_of_mem hr
  refine Heap.mem_entries.1 ?_
  rw [S.ledger, owned, strings_append, strings_cons]
  simp [cell]

theorem addrs_nodup (S : Shape h F p n rows) : (addrs p rows).Nodup := by
  have hk := h.keys_nodup
  rw [S.ledger, Multiset.map_add, keys_owned] at hk
  exact Multiset.coe_nodup.1 (Multiset.nodup_of_le (Multiset.le_add_right _ _) hk)

theorem validate (S : Shape h F p n rows) {Q : Unit → Heap Block → Prop} (hq : Q () h) :
    Ends (skyValidateHandle b p) h Q :=
  validate_ends S.struct_eq rfl hq

end Shape

end Sky.Hash
