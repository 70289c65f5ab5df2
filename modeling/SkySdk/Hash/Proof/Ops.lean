import SkySdk.Base.Assoc
import SkySdk.Hash.Proof.Own

/-!
# The functions of `sky_hash.c` on a hash in shape

What each function does to the ledger and to the rows, whichever allocation is refused.
-/

set_option autoImplicit false

namespace Sky.Hash

open Base Base.Dll
open Block (hash keyString chars)

variable {A : Allocator} {b : Build} {h : Heap Block} {F : Ledger Block} {p : Addr} {n : Nat}
  {rows : List Row} {key : CStr} {value : Addr}

/-! ## `hsearch_r` -/

/-- Where the search for `key` from index `i` ends. -/
def Located (key : CStr) (i : Nat) (rows : List Row) : Option Nat → Prop
  | none => key ∉ rows.map Row.key
  | some j => ∃ pre x post, rows = pre ++ x :: post ∧ x.key = key ∧ j = i + pre.length

theorem findEntry_ends : ∀ (rows : List Row) (i : Nat),
    (∀ r ∈ rows, h.get? r.str = some (chars (text r.key))) →
    Ends (findEntry key i (rows.map Row.entry)) h fun o h' => h' = h ∧ Located key i rows o
  | [], i, _ => (ends_pure _).2 ⟨rfl, List.not_mem_nil⟩
  | r :: rows, i, hr => by
    have ih := findEntry_ends rows (i + 1) fun x hx => hr x (List.mem_cons_of_mem _ hx)
    rw [List.map_cons, findEntry, ends_bind]
    apply loadStr_ends (hr r List.mem_cons_self)
    rw [ends_ite]
    constructor
    · intro hk
      exact (ends_pure _).2 ⟨rfl, [], r, rows, rfl, hk, rfl⟩
    · intro hk
      apply ih.mono
      intro o h' ho
      obtain ⟨hh, hl⟩ := ho
      refine ⟨hh, ?_⟩
      cases o with
      | none =>
        intro hm
        rw [List.map_cons, List.mem_cons] at hm
        cases hm with
        | inl hm => exact hk hm.symm
        | inr hm => exact hl hm
      | some j =>
        obtain ⟨pre, x, post, rfl, hx, rfl⟩ := hl
        exact ⟨r :: pre, x, post, rfl, hx, by rw [List.length_cons]; omega⟩

theorem hsearchFind_ends (S : Shape h F p n rows) (key : CStr) :
    Ends (hsearchFind p key) h fun r h' => h' = h ∧
      ((r = (0, none) ∧ key ∉ rows.map Row.key) ∨
        ∃ pre x post, rows = pre ++ x :: post ∧ x.key = key ∧ r = (1, some pre.length)) := by
  unfold hsearchFind
  rw [ends_bind]
  apply loadHash_ends S.struct_eq
  rw [ends_bind]
  apply (findEntry_ends rows 0 fun r hr => S.get_str hr).mono
  intro o h' ho
  obtain ⟨rfl, hl⟩ := ho
  cases o with
  | none => exact (ends_pure _).2 ⟨rfl, .inl ⟨rfl, hl⟩⟩
  | some j =>
    obtain ⟨pre, x, post, hrows, hx, hj⟩ := hl
    rw [Nat.zero_add] at hj
    subst hj
    exact (ends_pure _).2 ⟨rfl, .inr ⟨pre, x, post, hrows, hx, rfl⟩⟩

/-- The struct with one more entry in the table, its node not yet on the `key_array`. -/
def entered (n : Nat) (rows : List Row) (e : Entry) : SkyHandleHash :=
  { struct n rows with htab := ⟨rows.map Row.entry ++ [e], n⟩ }

/-- A new key is entered exactly if there is room. -/
theorem hsearchEnter_ends {str : Addr} (S : Shape h F p n rows)
    (hg : h.get? str = some (chars (text key))) (hk : key ∉ rows.map Row.key) :
    Ends (hsearchEnter p str value) h fun r h' =>
      (r = (0, none) ∧ h' = h) ∨
      (rows.length < n ∧ r = (1, some rows.length) ∧ h'.log = h.log ∧
        h'.entries = cell p (hash (entered n rows ⟨str, value⟩)) +
          (nodes (rows.map Row.link).reverse + strings rows + F)) := by
  unfold hsearchEnter
  rw [ends_bind]
  apply loadHash_ends S.struct_eq
  rw [ends_bind]
  apply loadStr_ends hg
  rw [ends_bind]
  apply (findEntry_ends rows 0 fun r hr => S.get_str hr).mono
  intro o h' ho
  obtain ⟨rfl, hl⟩ := ho
  cases o with
  | some j =>
    obtain ⟨pre, x, post, rfl, hx, -⟩ := hl
    exact absurd (by simp [hx]) hk
  | none =>
    have hlen : (rows.map Row.entry).length = rows.length := List.length_map _
    simp only [struct, hlen]
    rw [ends_ite]
    constructor
    · intro hroom
      rw [ends_bind]
      apply modifyHash_ends S.struct_eq
      intro h2 e2 hl2
      exact (ends_pure _).2 (.inr ⟨hroom, rfl, hl2, e2⟩)
    · intro _
      exact (ends_pure _).2 (.inl ⟨rfl, rfl⟩)

theorem setEntryData_ends {pre post : List Row} {x : Row} (S : Shape h F p n (pre ++ x :: post))
    (value : Addr) :
    Ends (setEntryData p pre.length value) h fun _ h' =>
      Shape h' F p n (pre ++ { x with value := value } :: post) ∧ h'.log = h.log := by
  have htable : (struct n (pre ++ x :: post)).htab.table[pre.length]? = some x.entry := by
    simp [struct]
  unfold setEntryData
  rw [ends_bind]
  apply loadHash_ends S.struct_eq
  dsimp only
  rw [htable]
  apply modifyHash_ends S.struct_eq
  intro h' e hl
  refine ⟨⟨?_, ?_, ?_, ?_⟩, hl⟩
  · have hstruct : struct n (pre ++ { x with value := value } :: post) =
        { struct n (pre ++ x :: post) with
          htab := ⟨((pre ++ x :: post).map Row.entry).set pre.length ⟨x.str, value⟩, n⟩ } := by
      simp [struct, Row.entry, Row.link]
    rw [e, owned]
    simp only [List.map_append, List.map_cons, Row.link, strings_append, strings_cons, add_assoc]
    rw [hstruct]
    rfl
  · simpa using S.room
  · simpa using S.nodup
  · intro r hr
    rw [List.mem_append, List.mem_cons] at hr
    rcases hr with hr | rfl | hr
    · exact S.filled r (by simp [hr])
    · exact S.filled x (by simp)
    · exact S.filled r (by simp [hr])

/-! ## `sky_hash_add` -/

theorem intSucc_ends {i : Int} {Q : Int → Heap Block → Prop} (hi : i < 2147483647)
    (hq : Q (i + 1) h) : Ends (intSucc i) h Q := by
  unfold intSucc
  rw [if_pos hi]
  exact (ends_pure _).2 hq

/-- A row at the end of the table is one in front of the `key_array`. -/
theorem owned_snoc (p : Addr) (n : Nat) (rows : List Row) (r : Row) :
    owned p n (rows ++ [r]) =
      cell p (hash (struct n (rows ++ [r]))) +
        (cell r.node (nodeBlock r.str (first id (rows.map Row.link).reverse 0)) +
          (cell r.str (chars (text r.key)) +
            (nodes (rows.map Row.link).reverse + strings rows))) := by
  unfold owned nodes
  rw [List.map_append, List.map_singleton, List.reverse_append, List.reverse_singleton,
    List.singleton_append, chain_cons, strings_append, strings_cons, strings_nil, add_zero]
  simp only [Row.link]
  ac_rfl

/-- What `sky_hash_add` makes of the rows, and what it returns. -/
inductive Added (n : Nat) (rows : List Row) (key : CStr) (value : Addr) :
    Option Nat → List Row → Prop
  | refused (hk : key ∉ rows.map Row.key) : Added n rows key value none rows
  | updated (pre : List Row) (x : Row) (post : List Row) (hr : rows = pre ++ x :: post)
      (hx : x.key = key) :
      Added n rows key value (some pre.length) (pre ++ { x with value := value } :: post)
  | entered (x : Row) (hk : key ∉ rows.map Row.key) (hroom : rows.length < n) (hx : x.key = key)
      (hv : x.value = value) : Added n rows key value (some rows.length) (rows ++ [x])

theorem Shape.snoc {h' : Heap Block} {r : Row} (S : Shape h F p n rows)
    (hk : r.key ∉ rows.map Row.key) (hne : r.key.bytes ≠ []) (hroom : rows.length < n)
    (he : h'.entries = owned p n (rows ++ [r]) + F) : Shape h' F p n (rows ++ [r]) := by
  have hnew : ∀ x ∈ rows.map Row.key, ∀ y ∈ [r.key], x ≠ y := by
    intro x hx y hy hxy
    rw [List.mem_singleton.1 hy] at hxy
    exact hk (hxy ▸ hx)
  refine ⟨he, ?_, ?_, ?_⟩
  · rw [List.length_append]
    exact hroom
  · rw [List.map_append, List.map_singleton]
    exact List.nodup_append.2 ⟨S.nodup, List.nodup_singleton r.key, hnew⟩
  · intro q hq
    rw [List.mem_append, List.mem_singleton] at hq
    cases hq with
    | inl hq => exact S.filled q hq
    | inr hq =>
      subst hq
      exact hne

theorem addNewKey_ends (S : Shape h F p n rows) (hk : key ∉ rows.map Row.key)
    (hne : key.bytes ≠ []) (hlen : key.length < 2 ^ 31 - 1) (value : Addr) :
    Ends (addNewKey A p key key.length value) h fun r h' =>
      ∃ rows', Added n rows key value r rows' ∧ Shape h' F p n rows' := by
  unfold addNewKey
  rw [ends_bind]
  apply Ends.malloc
  · intro h1 _ e1 _
    rw [if_pos rfl]
    exact (ends_pure _).2 ⟨rows, .refused hk, e1.trans S.ledger, S.room, S.nodup, S.filled⟩
  intro ks h1 _ hks e1 _
  rw [S.ledger] at e1
  rw [if_neg hks, ends_bind]
  apply intSucc_ends (by omega)
  rw [ends_bind]
  have hsize : ((key.length : Int) + 1).toNat = key.length + 1 := by omega
  rw [hsize]
  apply Ends.malloc
  · -- the string is refused: the node goes
    intro h2 _ e2 _
    rw [ends_bind]
    apply modifyKeyString_ends (e2.trans e1)
    intro h3 e3 _
    rw [if_pos rfl, ends_bind]
    apply Ends.free e3
    intro h4 e4 _
    exact (ends_pure _).2 ⟨rows, .refused hk, e4, S.room, S.nodup, S.filled⟩
  intro str h2 _ hstr e2 _
  rw [e1] at e2
  rw [ends_bind]
  apply modifyKeyString_ends (e2.trans (add_left_comm _ _ _))
  intro h3 e3 _
  rw [if_neg hstr, ends_bind]
  apply skyStrCpy_ends (e3.trans (add_left_comm _ _ _))
  intro h4 e4 _
  have S4 : Shape h4 (cell str (chars (text key)) + (cell ks (keyString ⟨str, 0⟩) + F)) p n rows :=
    ⟨by rw [e4]; ac_rfl, S.room, S.nodup, S.filled⟩
  rw [ends_bind]
  apply (hsearchEnter_ends S4 (Heap.get?_of_entries e4) hk).mono
  intro r h5 hr
  cases hr with
  | inl hr =>
    -- no room: the string and the node go
    obtain ⟨rfl, rfl⟩ := hr
    dsimp only
    rw [if_pos (.inl rfl), ends_bind]
    apply Ends.free e4
    intro h6 e6 _
    rw [ends_bind]
    apply Ends.free e6
    intro h7 e7 _
    exact (ends_pure _).2 ⟨rows, .refused hk, e7, S.room, S.nodup, S.filled⟩
  | inr hr =>
    obtain ⟨hroom, rfl, -, e5⟩ := hr
    dsimp only
    rw [if_neg (by simp), ends_bind]
    apply loadHash_ends e5
    rw [ends_bind]
    have e5' : h5.entries = cell ks (keyString ⟨str, 0⟩) +
        (cell p (hash (entered n rows ⟨str, value⟩)) + (cell str (chars (text key)) +
          (nodes (rows.map Row.link).reverse + strings rows) + F)) := by
      rw [e5]
      ac_rfl
    apply modifyKeyString_ends e5'
    intro h6 e6 _
    rw [ends_bind]
    apply modifyHash_ends (e6.trans (add_left_comm _ _ _))
    intro h7 e7 _
    have hstruct : struct n (rows ++ [⟨ks, str, key, value⟩]) =
        { entered n rows ⟨str, value⟩ with keyArray := ks } := by
      simp [struct, entered, Row.entry, Row.link]
    have hledger : h7.entries = owned p n (rows ++ [⟨ks, str, key, value⟩]) + F := by
      rw [owned_snoc, hstruct, e7]
      simp only [add_assoc]
      rfl
    exact (ends_pure _).2
      ⟨_, .entered ⟨ks, str, key, value⟩ hk hroom rfl rfl, S.snoc hk hne hroom hledger⟩

theorem skyStrLen_toInt (hlen : key.length < 2 ^ 31) :
    (skyStrLen key).toBitVec.toInt = key.length := by
  have hnat : (skyStrLen key).toBitVec.toNat = key.length := by
    rw [UInt32.toNat_toBitVec, skyStrLen, toNat_ofNat_of_lt (by omega)]
  rw [BitVec.toInt_eq_toNat_of_lt (by omega), hnat]

theorem length_pos_of_ne (hne : key.bytes ≠ []) : (key.length : Int) > 0 := by
  have hpos := List.length_pos_iff.2 hne
  unfold CStr.length
  omega

/-- The addition of a key that is there overwrites its value, and calls no allocator. -/
theorem skyHashAdd_update {pre post : List Row} {x : Row}
    (S : Shape h F p n (pre ++ x :: post)) (hlen : x.key.length < 2 ^ 31) (value : Addr) :
    Ends (skyHashAdd A b p (some x.key) value) h fun r h' => r = some pre.length ∧
      Shape h' F p n (pre ++ { x with value := value } :: post) ∧ h'.log = h.log := by
  have hne : x.key.bytes ≠ [] := S.filled x (by simp)
  unfold skyHashAdd
  rw [ends_bind]
  apply S.validate
  dsimp only
  rw [skyStrLen_toInt hlen, if_pos (length_pos_of_ne hne), ends_bind]
  apply (hsearchFind_ends S x.key).mono
  rintro r h1 ⟨rfl, ⟨-, hk⟩ | ⟨pre', x', post', hrows, hx', rfl⟩⟩
  · exact absurd (by simp) hk
  · -- the keys are distinct, so the row found is this one
    have hpre : pre'.length = pre.length := by
      have hn := S.nodup
      have h1 : ((pre ++ x :: post).map Row.key)[pre'.length]? = some x.key := by
        rw [hrows]
        simp [hx']
      have h2 : ((pre ++ x :: post).map Row.key)[pre.length]? = some x.key := by simp
      obtain ⟨hi, he1⟩ := List.getElem?_eq_some_iff.1 h1
      obtain ⟨hj, he2⟩ := List.getElem?_eq_some_iff.1 h2
      exact (List.Nodup.getElem_inj_iff hn).1 (he1.trans he2.symm)
    dsimp only
    rw [if_pos (by decide), ends_bind, hpre]
    apply (setEntryData_ends S value).mono
    intro _ h2 hs
    exact (ends_pure _).2 ⟨rfl, hs⟩

theorem skyHashAdd_ends (S : Shape h F p n rows) (hlen : key.length < 2 ^ 31 - 1)
    (value : Addr) :
    Ends (skyHashAdd A b p (some key) value) h fun r h' =>
      ∃ rows', Added n rows key value r rows' ∧ Shape h' F p n rows' := by
  by_cases hk : key ∈ rows.map Row.key
  · obtain ⟨x, hx, rfl⟩ := List.mem_map.1 hk
    obtain ⟨pre, post, rfl⟩ := List.append_of_mem hx
    apply (skyHashAdd_update S (by omega) value).mono
    intro r h' hp
    obtain ⟨rfl, S', -⟩ := hp
    exact ⟨_, .updated pre x post rfl rfl, S'⟩
  unfold skyHashAdd
  rw [ends_bind]
  apply S.validate
  dsimp only
  rw [skyStrLen_toInt (by omega)]
  by_cases hne : key.bytes = []
  · have hlen0 : ¬ (key.length : Int) > 0 := by simp [CStr.length, hne]
    rw [if_neg hlen0]
    exact (ends_pure _).2 ⟨rows, .refused hk, S⟩
  · rw [if_pos (length_pos_of_ne hne), ends_bind]
    apply (hsearchFind_ends S key).mono
    intro r h2 hr
    obtain ⟨rfl, hr⟩ := hr
    cases hr with
    | inl hr =>
      obtain ⟨rfl, -⟩ := hr
      exact addNewKey_ends S hk hne hlen value
    | inr hr =>
      obtain ⟨pre, x, post, rfl, rfl, -⟩ := hr
      exact absurd (by simp) hk

/-! ## `sky_hash_find` -/

/-- The value of a key. -/
def valueOf (rows : List Row) (key : CStr) : Option Addr := (rows.map Row.pair).lookup key

/-- What `sky_hash_find` returns for a key with this value, `none` for a key without one; `value` is
what is behind the caller's pointer. -/
def answer (found value : Option Addr) : Bool × Option Addr :=
  match found with
  | some v => (true, value.map fun _ => v)
  | none => (false, value)

theorem valueOf_none (hk : key ∉ rows.map Row.key) : valueOf rows key = none :=
  Assoc.lookup_none (by simpa [Row.pair] using hk)

theorem valueOf_split {pre post : List Row} {x : Row}
    (hn : ((pre ++ x :: post).map Row.key).Nodup) :
    valueOf (pre ++ x :: post) x.key = some x.value := by
  have hpre : x.key ∉ (pre.map Row.pair).map Prod.fst := by
    rw [List.map_append, List.map_cons, List.nodup_append] at hn
    intro hm
    obtain ⟨r, hr, hk⟩ := List.mem_map.1 (by simpa using hm)
    exact hn.2.2 r.key (List.mem_map_of_mem hr) x.key List.mem_cons_self hk
  unfold valueOf
  rw [List.map_append, List.map_cons]
  exact Assoc.lookup_split hpre

theorem skyHashFind_ends (S : Shape h F p n rows) (key : CStr) (value : Option Addr) :
    Ends (skyHashFind b p (some key) value) h fun r h' =>
      r = answer (valueOf rows key) value ∧ h' = h := by
  unfold skyHashFind
  rw [ends_bind]
  apply S.validate
  rw [ends_bind]
  apply (hsearchFind_ends S key).mono
  intro r h' hr
  obtain ⟨rfl, hr⟩ := hr
  cases hr with
  | inl hr =>
    obtain ⟨rfl, hk⟩ := hr
    rw [valueOf_none hk]
    exact (ends_pure _).2 ⟨rfl, rfl⟩
  | inr hr =>
    obtain ⟨pre, x, post, rfl, rfl, rfl⟩ := hr
    have htable : (struct n (pre ++ x :: post)).htab.table[pre.length]? = some x.entry := by
      simp [struct]
    rw [valueOf_split S.nodup]
    dsimp only
    rw [if_neg (by decide), ends_bind]
    apply loadHash_ends S.struct_eq
    rw [htable]
    exact (ends_pure _).2 ⟨rfl, rfl⟩

/-- The values after an addition. -/
theorem Added.valueOf {r : Option Nat} {rows' : List Row} (hadd : Added n rows key value r rows')
    (hn : (rows.map Row.key).Nodup) (k : CStr) :
    valueOf rows' k = if r.isSome ∧ k = key then some value else valueOf rows k := by
  cases hadd with
  | refused hk => simp
  | updated pre x post hr hx =>
    subst hr hx
    by_cases hk : k = x.key
    · subst hk
      rw [if_pos ⟨rfl, rfl⟩]
      exact valueOf_split (x := { x with value := value }) (by simpa using hn)
    · have hkx : (k == x.key) = false := beq_eq_false_iff_ne.2 hk
      rw [if_neg fun hc => hk hc.2]
      simp [Hash.valueOf, Row.pair, List.lookup_append, List.lookup_cons, hkx]
  | entered x hk hroom hx hv =>
    subst hx hv
    by_cases hkx : k = x.key
    · subst hkx
      rw [if_pos ⟨rfl, rfl⟩]
      have hnone := valueOf_none hk
      unfold Hash.valueOf at hnone ⊢
      simp [List.lookup_append, hnone, Row.pair]
    · have hkx' : (k == x.key) = false := beq_eq_false_iff_ne.2 hkx
      rw [if_neg fun hc => hkx hc.2]
      simp [Hash.valueOf, Row.pair, List.lookup_append, List.lookup_cons, hkx']

end Sky.Hash
