import SkySdk.Base.Dll
import SkySdk.Regex.Scan

/-!
# What one handle owns

`Owns h p rows F`: the ledger of `h` is the struct of the handle at `p`, the node and the string of
each of `rows`, in the order of its list, and the frame `F`.
-/

set_option autoImplicit false

namespace Sky.Regex

open Base Base.Dll
open Block (regex substr chars)

variable {h : Heap Block} {F G : Ledger Block} {p a : Addr} {r : SkyHandleRegex}
  {x : SkyRegexSubstr} {bytes : List UInt8} {b : Build}

/-! ## Rules for the accesses -/

theorem loadRegex_ends {Q : SkyHandleRegex → Heap Block → Prop}
    (he : h.entries = cell p (regex r) + F) (hq : Q r h) : Ends (loadRegex p) h Q := by
  unfold loadRegex
  rw [ends_bind]
  exact Ends.load he ((ends_pure r).2 hq)

theorem modifyRegex_ends {f : SkyHandleRegex → SkyHandleRegex} {Q : Unit → Heap Block → Prop}
    (he : h.entries = cell p (regex r) + F)
    (hq : ∀ h' : Heap Block, h'.entries = cell p (regex (f r)) + F → h'.log = h.log → Q () h') :
    Ends (modifyRegex p f) h Q := by
  unfold modifyRegex
  rw [ends_bind]
  exact loadRegex_ends he (Ends.store_log he hq)

theorem loadSubstr_ends {Q : SkyRegexSubstr → Heap Block → Prop}
    (he : h.entries = cell a (substr x) + F) (hq : Q x h) : Ends (loadSubstr a) h Q := by
  unfold loadSubstr
  rw [ends_bind]
  exact Ends.load he ((ends_pure x).2 hq)

theorem modifySubstr_ends {f : SkyRegexSubstr → SkyRegexSubstr} {Q : Unit → Heap Block → Prop}
    (he : h.entries = cell a (substr x) + F)
    (hq : ∀ h' : Heap Block, h'.entries = cell a (substr (f x)) + F → h'.log = h.log → Q () h') :
    Ends (modifySubstr a f) h Q := by
  unfold modifySubstr
  rw [ends_bind]
  exact loadSubstr_ends he (Ends.store_log he hq)

theorem loadChars_ends {Q : List UInt8 → Heap Block → Prop}
    (he : h.entries = cell a (chars bytes) + F) (hq : Q bytes h) : Ends (loadChars a) h Q := by
  unfold loadChars
  rw [ends_bind]
  exact Ends.load he ((ends_pure bytes).2 hq)

theorem skyMemCopy_outcome {src : List UInt8} (he : h.entries = cell a (chars bytes) + F) :
    Outcome (skyMemCopy a src) h
      (fun _ h' => src.length ≤ bytes.length ∧ h'.log = h.log ∧
        h'.entries = cell a (chars (src ++ bytes.drop src.length)) + F)
      (fun e => e = .outOfBounds ∧ ¬ src.length ≤ bytes.length) := by
  unfold skyMemCopy
  apply Outcome.after
  apply loadChars_ends he
  by_cases hlen : src.length ≤ bytes.length
  · rw [if_pos hlen]
    exact (Ends.store_log he fun h' e hl => ⟨hlen, hl, e⟩).outcome
  · rw [if_neg hlen]
    exact Outcome.fault ⟨rfl, hlen⟩

theorem setNul_outcome {i : Int} (he : h.entries = cell a (chars bytes) + F) :
    Outcome (setNul a i) h
      (fun _ h' => 0 ≤ i ∧ h'.log = h.log ∧
        h'.entries = cell a (chars (bytes.set i.toNat 0)) + F)
      (fun e => e = .outOfBounds ∧ ¬ (0 ≤ i ∧ i.toNat < bytes.length)) := by
  unfold setNul
  apply Outcome.after
  apply loadChars_ends he
  by_cases h0 : 0 ≤ i
  · rw [if_pos h0]
    refine Outcome.bind (Q := fun b h' => b = bytes.set i.toNat 0 ∧ h' = h)
      (Outcome.ofResult ?_ ?_) ?_
    · intro b hb
      unfold writeAt at hb
      split at hb
      · cases hb
        exact ⟨rfl, rfl⟩
      · cases hb
    · intro e hx
      unfold writeAt at hx
      split at hx
      · cases hx
      · cases hx
        exact ⟨rfl, fun hc => absurd hc.2 ‹_›⟩
    · intro b h' hb
      obtain ⟨rfl, rfl⟩ := hb
      exact (Ends.store_log he fun h' e hl => ⟨h0, hl, e⟩).outcome
  · rw [if_neg h0]
    exact Outcome.fault ⟨rfl, fun hc => h0 hc.1⟩

theorem validate_ends {Q : Unit → Heap Block → Prop} (he : h.entries = cell p (regex r) + F)
    (ht : r.handleType = SkyHandleType.regex.code) (hq : Q () h) :
    Ends (skyValidateHandle b p) h Q := by
  have hp := Heap.ne_zero_of_mem (Heap.mem_of_entries he)
  unfold skyValidateHandle skyAssert
  rw [if_neg hp, ends_ite]
  constructor
  · intro _
    rw [ends_bind, ends_bind]
    apply loadRegex_ends he
    rw [ends_pure, ends_ite]
    exact ⟨fun _ => (ends_pure _).2 hq, fun hc => absurd (by simp [ht]) hc⟩
  · intro _
    exact (ends_pure _).2 hq

/-! ## The blocks of a handle -/

/-- A node of the list with its string. -/
structure Row where
  node : Addr
  str : Addr
  text : List UInt8
deriving DecidableEq, Repr

def Row.link (x : Row) : Addr × Addr := (x.node, x.str)

/-- The block of a node: its string, then what comes after it. -/
def nodeBlock (str next : Addr) : Block := substr ⟨str, next⟩

/-- The nodes of a list, the last one linked to `e`. -/
def nodes (rows : List Row) (e : Addr) : Ledger Block := chain id nodeBlock (rows.map Row.link) e

/-- The strings of the nodes. -/
def strings (rows : List Row) : Ledger Block :=
  (rows.map fun x => cell x.str (chars (x.text ++ [0]))).sum

/-- The first node. -/
def head (rows : List Row) : Addr := first id (rows.map Row.link) 0

/-- The struct of a handle with this list. -/
def struct (subStr : Addr) : SkyHandleRegex :=
  { cb := 80, handleType := SkyHandleType.regex.code, subStr := subStr }

/-- All the blocks of the handle at `p`. -/
def owned (p : Addr) (rows : List Row) : Ledger Block :=
  cell p (regex (struct (head rows))) + (nodes rows 0 + strings rows)

/-- The ledger is the handle at `p` with the list `rows`, and the frame. -/
def Owns (h : Heap Block) (p : Addr) (rows : List Row) (F : Ledger Block) : Prop :=
  h.entries = owned p rows + F

/-- The addresses of all these blocks. -/
def addrs (p : Addr) (rows : List Row) : List Addr :=
  p :: (rows.map Row.node ++ rows.map Row.str)

variable {rows ys : List Row} {y : Row} {e : Addr}

@[simp] theorem nodes_nil (e : Addr) : nodes [] e = 0 := rfl

@[simp] theorem nodes_cons (y : Row) (ys : List Row) (e : Addr) : nodes (y :: ys) e =
    cell y.node (nodeBlock y.str (first id (ys.map Row.link) e)) + nodes ys e := rfl

theorem nodes_append (rows ys : List Row) (e : Addr) : nodes (rows ++ ys) e =
    nodes rows (first id (ys.map Row.link) e) + nodes ys e := by
  unfold nodes
  rw [List.map_append, chain_append]

@[simp] theorem strings_nil : strings [] = 0 := rfl

@[simp] theorem strings_cons (y : Row) (ys : List Row) :
    strings (y :: ys) = cell y.str (chars (y.text ++ [0])) + strings ys := by
  simp [strings]

theorem strings_append (rows ys : List Row) : strings (rows ++ ys) = strings rows + strings ys := by
  simp [strings]

theorem keys_strings (rows : List Row) :
    (strings rows).map Sigma.fst = (↑(rows.map Row.str) : Multiset Addr) := by
  induction rows with
  | nil => rfl
  | cons y rows ih =>
    rw [strings_cons, Multiset.map_add, ih, cell, Multiset.map_singleton, Multiset.singleton_add,
      Multiset.cons_coe, List.map_cons]

theorem keys_nodes (rows : List Row) (e : Addr) :
    (nodes rows e).map Sigma.fst = (↑(rows.map Row.node) : Multiset Addr) := by
  unfold nodes
  rw [keys_chain, List.map_map]
  rfl

theorem keys_owned (p : Addr) (rows : List Row) :
    (owned p rows).map Sigma.fst = (↑(addrs p rows) : Multiset Addr) := by
  unfold owned
  rw [Multiset.map_add, Multiset.map_add, keys_nodes, keys_strings, cell, Multiset.map_singleton,
    Multiset.coe_add, Multiset.singleton_add, Multiset.cons_coe]
  rfl

namespace Owns

theorem struct_eq (S : Owns h p rows F) : h.entries =
    cell p (regex (struct (head rows))) + (nodes rows 0 + strings rows + F) := by
  rw [S, owned, add_assoc]

theorem addrs_nodup (S : Owns h p rows F) : (addrs p rows).Nodup := by
  have hk := h.keys_nodup
  rw [S, Multiset.map_add, keys_owned] at hk
  exact Multiset.coe_nodup.1 (Multiset.nodup_of_le (Multiset.le_add_right _ _) hk)

theorem validate (S : Owns h p rows F) {Q : Unit → Heap Block → Prop} (hq : Q () h) :
    Ends (skyValidateHandle b p) h Q :=
  validate_ends S.struct_eq rfl hq

end Owns

theorem node_ne_zero (he : h.entries = nodes (y :: rows) e + G) : y.node ≠ 0 := by
  rw [nodes_cons, add_assoc] at he
  exact Heap.ne_zero_of_mem (Heap.mem_of_entries he)

theorem length_lt_rounds (he : h.entries = nodes rows e + G) : rows.length < h.size + 1 := by
  have hle := Heap.length_le_size he (keys_nodes rows e)
  rw [List.length_map] at hle
  exact Nat.lt_succ_of_le hle

end Sky.Regex
