import SkySdk.Hash.Proof.Ops

/-!
# Runs of calls on one hash

A hash made by `skyHashCreate` stays in shape over every run of `skyHashAdd` and `skyHashFind` with
keys short enough for an `int`, and the values of its keys are those of the last successful
additions (`runCalls_ends`). `skyHashDestroy` frees each of its blocks once.
-/

set_option autoImplicit false

namespace Sky.Hash

open Base Base.Dll
open Block (hash keyString chars)

variable {A : Allocator} {b : Build} {h h0 : Heap Block} {F : Ledger Block} {p : Addr} {n : Nat}
  {rows : List Row} {hcreate : UInt32 → Option Nat} {size : UInt32}

/-! ## Create -/

theorem skyHashCreate_ends (A : Allocator) (hcreate : UInt32 → Option Nat) (size : UInt32)
    (h : Heap Block) :
    Ends (skyHashCreate A hcreate size) h fun p h' =>
      (p = 0 ∧ h'.entries = h.entries) ∨ p ≠ 0 ∧ ∃ n, Shape h' h.entries p n [] := by
  unfold skyHashCreate
  rw [ends_bind]
  apply Ends.malloc
  · intro h1 _ e1 _
    rw [if_pos rfl]
    exact (ends_pure _).2 (.inl ⟨rfl, e1⟩)
  · intro p h1 _ hp e1 _
    rw [if_neg hp, ends_bind]
    apply modifyHash_ends e1
    intro h2 e2 _
    cases hcreate (size + 10) with
    | none =>
      rw [ends_bind]
      apply Ends.free e2
      intro h3 e3 _
      exact (ends_pure _).2 (.inl ⟨rfl, e3⟩)
    | some n =>
      rw [ends_bind]
      apply modifyHash_ends e2
      intro h3 e3 _
      refine (ends_pure _).2 (.inr ⟨hp, n, ?_, Nat.zero_le _, List.nodup_nil, ?_⟩)
      · rw [e3, owned, nodes]
        simp only [List.map_nil, List.reverse_nil, chain_nil, strings_nil, add_zero]
        rfl
      · intro r hr
        cases hr

/-- The struct granted and the table made, a hash is created. -/
theorem exists_create (hn : hcreate (size + 10) = some n) (hg : A.grants h.time = true) :
    ∃ p h', skyHashCreate A hcreate size h = .ok (p, h') ∧ p ≠ 0 := by
  have hends : Ends (skyHashCreate A hcreate size) h fun p _ => p ≠ 0 := by
    unfold skyHashCreate
    rw [ends_bind]
    apply Ends.malloc
    · intro h1 hf _ _
      rw [hg] at hf
      cases hf
    · intro p h1 _ hp e1 _
      rw [if_neg hp, ends_bind]
      apply modifyHash_ends e1
      intro h2 e2 _
      rw [hn, ends_bind]
      apply modifyHash_ends e2
      intro h3 _ _
      exact (ends_pure _).2 hp
  exact hends

/-! ## Destroy -/

/-- The frees of one node, in order. -/
def freed (r : Row) : List Addr := [r.str, r.node]

theorem freed_perm (rows : List Row) :
    (rows.flatMap freed).Perm (rows.map Row.node ++ rows.map Row.str) := by
  have hperm := List.map_append_flatMap_perm rows Row.str fun r => [r.node]
  rw [← List.map_eq_flatMap] at hperm
  exact hperm.symm.trans List.perm_append_comm

theorem safeFreeStr_ends {r : Row} {next : Addr} {G : Ledger Block}
    {Q : Unit → Heap Block → Prop}
    (he : h.entries = cell r.node (nodeBlock r.str next) + (cell r.str (chars (text r.key)) + G))
    (hq : ∀ h' : Heap Block, h'.entries = cell r.node (nodeBlock 0 next) + G →
      h'.log = .free r.str :: h.log → Q () h') :
    Ends (safeFreeStr r.node) h Q := by
  have hstr := he.trans (add_left_comm _ _ _)
  have hne := Heap.ne_zero_of_mem (Heap.mem_of_entries hstr)
  unfold safeFreeStr
  rw [ends_bind]
  apply loadKeyString_ends he
  rw [if_pos hne, ends_bind]
  apply Ends.free_log hstr
  intro h1 e1 hl1
  apply modifyKeyString_ends e1
  intro h2 e2 hl2
  exact hq h2 e2 (hl2.trans hl1)

theorem freeKeys_ends : ∀ (m : Nat) (rows : List Row) (d : SkyHandleHash) (h : Heap Block),
    rows.length < m → d.keyArray = first id (rows.map Row.link) 0 →
    h.entries = cell p (hash d) + (nodes (rows.map Row.link) + strings rows + F) →
    Ends (freeKeys p m) h fun _ h' =>
      (∃ d', h'.entries = cell p (hash d') + F) ∧
        h'.log = ((rows.flatMap freed).map Event.free).reverse ++ h.log
  | 0, _, _, _, hm, _, _ => absurd hm (Nat.not_lt_zero _)
  | m + 1, [], d, h, _, hd, he => by
    rw [List.map_nil, first_nil] at hd
    unfold freeKeys
    rw [ends_bind]
    apply loadHash_ends he
    dsimp only
    rw [if_neg (not_not.2 hd)]
    refine (ends_pure _).2 ⟨⟨d, ?_⟩, rfl⟩
    rw [he, nodes, List.map_nil, chain_nil, strings_nil, zero_add, zero_add]
  | m + 1, r :: rows, d, h, hm, hd, he => by
    have hnode : h.entries = cell r.node (nodeBlock r.str (first id (rows.map Row.link) 0)) +
        (cell r.str (chars (text r.key)) +
          (cell p (hash d) + (nodes (rows.map Row.link) + strings rows + F))) := by
      rw [he, nodes, List.map_cons, chain_cons, strings_cons]
      simp only [nodes, Row.link]
      ac_rfl
    have hkey : d.keyArray = r.node := hd
    unfold freeKeys
    rw [ends_bind]
    apply loadHash_ends he
    dsimp only
    rw [hkey, if_pos (Heap.ne_zero_of_mem (Heap.mem_of_entries hnode)), ends_bind]
    apply loadKeyString_ends hnode
    rw [ends_bind]
    apply safeFreeStr_ends hnode
    intro h1 e1 hl1
    rw [ends_bind]
    apply Ends.free_log e1
    intro h2 e2 hl2
    rw [ends_bind]
    apply modifyHash_ends e2
    intro h3 e3 hl3
    apply (freeKeys_ends m rows _ h3 (Nat.lt_of_succ_lt_succ hm) rfl e3).mono
    intro _ h4 h
    obtain ⟨e4, hl4⟩ := h
    refine ⟨e4, ?_⟩
    rw [hl4, hl3, hl2, hl1]
    simp [freed]

theorem Shape.length_lt_rounds (S : Shape h F p n rows) : rows.length < h.size + 1 := by
  have hle := Heap.length_le_size S.ledger (keys_owned p n rows)
  simp only [addrs, List.length_cons, List.length_append, List.length_map] at hle
  omega

theorem skyHashDestroy_ends (S : Shape h F p n rows) :
    Ends (skyHashDestroy b p) h fun _ h' => h'.entries = F ∧
      ∃ fs : List Addr, fs.Perm (addrs p rows) ∧ h'.log = fs.map Event.free ++ h.log := by
  have hp := Heap.ne_zero_of_mem (Heap.mem_of_entries S.struct_eq)
  have he : h.entries = cell p (hash (struct n rows)) +
      (nodes (rows.reverse.map Row.link) + strings rows.reverse + F) := by
    rw [S.struct_eq, strings_reverse, List.map_reverse]
  have hd : (struct n rows).keyArray = first id (rows.reverse.map Row.link) 0 := by
    rw [List.map_reverse]
    rfl
  have hrounds : rows.reverse.length < h.size + 1 := by
    rw [List.length_reverse]
    exact S.length_lt_rounds
  unfold skyHashDestroy
  rw [ends_bind]
  apply S.validate
  rw [if_pos hp, ends_bind, ends_of_eq (rfl : walkRounds h = .ok (h.size + 1, h)), ends_bind]
  apply (freeKeys_ends (h.size + 1) rows.reverse _ h hrounds hd he).mono
  rintro _ h1 ⟨⟨d1, e1⟩, hl1⟩
  rw [ends_bind]
  apply modifyHash_ends e1
  intro h2 e2 hl2
  apply Ends.free_log e2
  intro h3 e3 hl3
  refine ⟨e3, p :: (rows.reverse.flatMap freed).reverse, ?_, ?_⟩
  · refine List.Perm.cons p ((List.reverse_perm _).trans ?_)
    exact (freed_perm rows.reverse).trans (((List.reverse_perm rows).map _).append
      ((List.reverse_perm rows).map _))
  · rw [hl3, hl2, hl1]
    simp

/-! ## Reading the `key_array` -/

theorem keysFrom_ends : ∀ (m : Nat) (links : List (Addr × Addr)) (G : Ledger Block),
    links.length < m → h.entries = nodes links + G →
    Ends (keysFrom (first id links 0) m) h fun strs h' => strs = links.map Prod.snd ∧ h' = h
  | 0, _, _, hm, _ => absurd hm (Nat.not_lt_zero _)
  | m + 1, [], G, _, _ => by
    rw [first_nil, keysFrom, if_pos rfl]
    exact (ends_pure _).2 ⟨rfl, rfl⟩
  | m + 1, x :: links, G, hm, he => by
    have hnode : h.entries = cell x.1 (nodeBlock x.2 (first id links 0)) + (nodes links + G) := by
      rw [he, nodes, chain_cons]
      exact add_assoc _ _ _
    rw [first_cons, id_eq, keysFrom]
    rw [if_neg (Heap.ne_zero_of_mem (Heap.mem_of_entries hnode)), ends_bind]
    apply loadKeyString_ends hnode
    have ih := keysFrom_ends m links _ (Nat.lt_of_succ_lt_succ hm)
      (hnode.trans (add_left_comm _ _ _))
    rw [ends_bind]
    apply ih.mono
    rintro strs h' ⟨rfl, rfl⟩
    exact (ends_pure _).2 ⟨rfl, rfl⟩

theorem keyArrayOf_eq (S : Shape h F p n rows) :
    keyArrayOf p h = .ok ((rows.map Row.str).reverse, h) := by
  have hlinks : (rows.map Row.link).reverse.length < h.size + 1 := by
    rw [List.length_reverse, List.length_map]
    exact S.length_lt_rounds
  have hends : Ends (keyArrayOf p) h fun strs h' =>
      strs = (rows.map Row.link).reverse.map Prod.snd ∧ h' = h := by
    unfold keyArrayOf
    rw [ends_bind]
    apply loadHash_ends S.struct_eq
    rw [ends_bind, ends_of_eq (rfl : walkRounds h = .ok (h.size + 1, h))]
    exact keysFrom_ends (h.size + 1) _ _ hlinks
      (S.struct_eq.trans (by rw [add_assoc]; exact add_left_comm _ _ _))
  rw [hends.apply, List.map_reverse, List.map_map]
  rfl

/-! ## Runs -/

/-- The key of an addition is short enough: its length plus one is an `int`. -/
def Call.Short : Call → Prop
  | .add (some key) _ => key.length < 2 ^ 31 - 1
  | _ => True

/-- The value that a call gives to `key`: a successful addition of it. -/
def valueGiven (key : CStr) : Call × Resp → Option Addr
  | (.add (some k) v, .entry (some _)) => if key = k then some v else none
  | _ => none

/-- The value of the last successful addition of `key`. -/
def lastAdded (key : CStr) (trace : List (Call × Resp)) : Option Addr :=
  (trace.filterMap (valueGiven key)).getLast?

theorem lastAdded_cons (key : CStr) (x : Call × Resp) (trace : List (Call × Resp)) :
    lastAdded key (x :: trace) = (lastAdded key trace).or (valueGiven key x) := by
  unfold lastAdded
  rw [List.filterMap_cons]
  cases valueGiven key x with
  | none => simp
  | some v => rw [List.getLast?_cons]; cases (List.filterMap _ trace).getLast? <;> simp

theorem call_ends (S : Shape h F p n rows) (c : Call) (hc : c.Short) :
    Ends (call A b p c) h fun r h' => ∃ rows', Shape h' F p n rows' ∧
      ∀ k, valueOf rows' k = (valueGiven k (c, r)).or (valueOf rows k) := by
  cases c with
  | add key value =>
    cases key with
    | none =>
      unfold call skyHashAdd
      rw [ends_bind, ends_bind]
      apply S.validate
      exact (ends_pure _).2 ((ends_pure _).2 ⟨rows, S, fun _ => rfl⟩)
    | some key =>
      unfold call
      rw [ends_bind]
      apply (skyHashAdd_ends S hc value).mono
      intro r h1 hp
      obtain ⟨rows', hadd, S'⟩ := hp
      refine (ends_pure _).2 ⟨rows', S', ?_⟩
      intro k
      rw [hadd.valueOf S.nodup]
      cases r with
      | none => simp [valueGiven]
      | some i => by_cases hk : k = key <;> simp [valueGiven, hk]
  | find key value =>
    cases key with
    | none =>
      unfold call skyHashFind
      rw [ends_bind, ends_bind]
      apply S.validate
      exact (ends_pure _).2 ((ends_pure _).2 ⟨rows, S, fun _ => rfl⟩)
    | some key =>
      unfold call
      rw [ends_bind]
      apply (skyHashFind_ends S key value).mono
      intro r h1 hp
      obtain ⟨-, rfl⟩ := hp
      exact (ends_pure _).2 ⟨rows, S, fun _ => rfl⟩

/-- The values after a run are those of the last additions. -/
theorem runCalls_ends : ∀ (cs : List Call) {h : Heap Block} {rows : List Row},
    Shape h F p n rows → (∀ c ∈ cs, c.Short) →
    Ends (runCalls A b p cs) h fun trace h' => ∃ rows', Shape h' F p n rows' ∧
      ∀ k, valueOf rows' k = (lastAdded k trace).or (valueOf rows k)
  | [], h, rows, S, _ => (ends_pure _).2 ⟨rows, S, fun _ => rfl⟩
  | c :: cs, h, rows, S, hcs => by
    unfold runCalls
    rw [ends_bind]
    apply (call_ends S c (hcs c List.mem_cons_self)).mono
    intro r h1 hp
    obtain ⟨rows1, S1, hv1⟩ := hp
    rw [ends_bind]
    apply (runCalls_ends cs S1 fun c hc => hcs c (List.mem_cons_of_mem _ hc)).mono
    intro trace h2 hp
    obtain ⟨rows2, S2, hv2⟩ := hp
    refine (ends_pure _).2 ⟨rows2, S2, ?_⟩
    intro k
    rw [hv2, hv1, lastAdded_cons, Option.or_assoc]

/-! ## What holds after a run -/

/-- `skyHashFind` answers every key by `f`. -/
def Answers (b : Build) (p : Addr) (f : CStr → Option Addr) (h : Heap Block) : Prop :=
  ∀ k o, skyHashFind b p (some k) o h = .ok (answer (f k) o, h)

theorem Shape.answers (S : Shape h F p n rows) {f : CStr → Option Addr}
    (hf : ∀ k, valueOf rows k = f k) : Answers b p f h := by
  intro k o
  have hfind := (skyHashFind_ends (b := b) S k o).apply
  rw [hfind, hf]

theorem mem_keys_iff (k : CStr) : k ∈ rows.map Row.key ↔ (valueOf rows k).isSome := by
  constructor
  · intro hk
    have hmem : k ∈ (rows.map Row.pair).map Prod.fst := by simpa [Row.pair] using hk
    obtain ⟨pre, x, post, hs, hn⟩ := Assoc.mem_split hmem
    rw [valueOf, hs, Assoc.lookup_split hn]
    rfl
  · intro hv
    by_contra hk
    rw [valueOf_none hk] at hv
    cases hv

/-- The strings on the `key_array` are those of the table, each a block of its own made after the
blocks `F`; their texts are the keys that have a value by `f`, each once. -/
def KeyStrings (F : Ledger Block) (p : Addr) (f : CStr → Option Addr) (h : Heap Block)
    (strs : List Addr) : Prop :=
  keyArrayOf p h = .ok (strs, h) ∧ strs.Nodup ∧ (∀ a ∈ strs, a ∉ F.map Sigma.fst) ∧
    (∃ d, loadHash p h = .ok (d, h) ∧ strs.Perm (d.htab.table.map Entry.key)) ∧
    ∃ keys : List CStr, strs.mapM loadStr h = .ok (keys, h) ∧ keys.Nodup ∧
      ∀ k, k ∈ keys ↔ (f k).isSome

theorem mapM_loadStr (hr : ∀ r ∈ rows, h.get? r.str = some (chars (text r.key))) :
    (rows.map Row.str).mapM loadStr h = .ok (rows.map Row.key, h) := by
  induction rows with
  | nil => rfl
  | cons r rows ih =>
    have hload : loadStr r.str h = .ok (r.key, h) :=
      (loadStr_ends (hr r List.mem_cons_self) ⟨rfl, rfl⟩ :
        Ends (loadStr r.str) h fun s h' => s = r.key ∧ h' = h).apply
    rw [List.map_cons, List.mapM_cons, bind_apply, hload]
    dsimp only
    rw [bind_apply, ih fun x hx => hr x (List.mem_cons_of_mem _ hx)]
    rfl

theorem Shape.keyStrings (S : Shape h F p n rows) {f : CStr → Option Addr}
    (hf : ∀ k, valueOf rows k = f k) : KeyStrings F p f h (rows.map Row.str).reverse := by
  have hd := S.addrs_nodup
  have hload : loadHash p h = .ok (struct n rows, h) :=
    (loadHash_ends S.struct_eq ⟨rfl, rfl⟩ :
      Ends (loadHash p) h fun d h' => d = struct n rows ∧ h' = h).apply
  have hframe : ∀ a ∈ (rows.map Row.str).reverse, a ∉ F.map Sigma.fst := by
    intro a ha
    have hk := h.keys_nodup
    rw [S.ledger, Multiset.map_add, keys_owned] at hk
    refine Multiset.disjoint_left.1 (Multiset.nodup_add.1 hk).2.2 ?_
    rw [List.mem_reverse] at ha
    exact Multiset.mem_coe.2 (List.mem_cons_of_mem p (List.mem_append_right _ ha))
  refine ⟨keyArrayOf_eq S, ?_, hframe, ⟨_, hload, ?_⟩, rows.reverse.map Row.key, ?_, ?_, ?_⟩
  · rw [List.nodup_reverse]
    exact (List.nodup_append.1 (List.nodup_cons.1 hd).2).2.1
  · have htable : (struct n rows).htab.table.map Entry.key = rows.map Row.str := by
      simp [struct, Row.entry, Function.comp_def]
    rw [htable]
    exact List.reverse_perm _
  · rw [← List.map_reverse]
    refine mapM_loadStr ?_
    intro r hr
    exact S.get_str (List.mem_reverse.1 hr)
  · rw [List.map_reverse, List.nodup_reverse]
    exact S.nodup
  · intro k
    rw [List.map_reverse, List.mem_reverse, mem_keys_iff, hf]

/-- What a caller of the hash at `p` sees and what the hash owns, after the calls `trace` and with
the blocks `F` of others. -/
structure RunSpec (A : Allocator) (b : Build) (F : Ledger Block) (p : Addr)
    (trace : List (Call × Resp)) (h : Heap Block) : Prop where
  finds : Answers b p (fun k => lastAdded k trace) h
  updates : ∀ k v, (lastAdded k trace).isSome → k.length < 2 ^ 31 - 1 →
    Ends (skyHashAdd A b p (some k) v) h fun r h' => r ≠ none ∧ h'.log = h.log ∧
      Answers b p (fun k' => if k' = k then some v else lastAdded k' trace) h'
  refuses : ∀ k v, (Call.add k v).Short →
    Ends (skyHashAdd A b p k v) h fun r h' => r = none →
      h'.entries = h.entries ∧ Answers b p (fun k' => lastAdded k' trace) h'
  destroys : ∃ strs, KeyStrings F p (fun k => lastAdded k trace) h strs ∧
    Ends (skyHashDestroy b p) h fun _ h' => h'.entries = F ∧
      ∃ fs : List Addr, fs.Nodup ∧ (∀ a ∈ strs, a ∈ fs) ∧ h'.log = fs.map Event.free ++ h.log

theorem Shape.runSpec (S : Shape h F p n rows) {trace : List (Call × Resp)}
    (hv : ∀ k, valueOf rows k = lastAdded k trace) : RunSpec A b F p trace h where
  finds := S.answers hv
  updates k v hk hlen := by
    rw [← hv, ← mem_keys_iff] at hk
    obtain ⟨x, hx, rfl⟩ := List.mem_map.1 hk
    obtain ⟨pre, post, rfl⟩ := List.append_of_mem hx
    apply (skyHashAdd_update S (by omega) v).mono
    intro r h' hp
    obtain ⟨rfl, S', hl⟩ := hp
    refine ⟨by simp, hl, S'.answers ?_⟩
    intro k
    have hadd : Added n (pre ++ x :: post) x.key v (some pre.length)
        (pre ++ { x with value := v } :: post) := .updated pre x post rfl rfl
    rw [hadd.valueOf S.nodup, hv]
    simp
  refuses k v hs := by
    cases k with
    | none =>
      unfold skyHashAdd
      rw [ends_bind]
      apply S.validate
      exact (ends_pure _).2 fun _ => ⟨rfl, S.answers hv⟩
    | some k =>
      apply (skyHashAdd_ends S hs v).mono
      intro r h' hp hr
      obtain ⟨rows', hadd, S'⟩ := hp
      subst hr
      cases hadd with
      | refused hk => exact ⟨S'.ledger.trans S.ledger.symm, S'.answers hv⟩
  destroys := by
    refine ⟨_, S.keyStrings hv, ?_⟩
    apply (skyHashDestroy_ends S).mono
    intro _ h' hp
    obtain ⟨he, fs, hperm, hl⟩ := hp
    refine ⟨he, fs, hperm.nodup_iff.2 S.addrs_nodup, ?_, hl⟩
    intro a ha
    rw [List.mem_reverse] at ha
    exact hperm.mem_iff.2 (List.mem_cons_of_mem p (List.mem_append_right _ ha))

/-- **A hash is a map from strings to values.** Every run of calls on a new hash ends, and what
`RunSpec` says holds after it. -/
theorem runCalls_spec {cs : List Call} (hc : skyHashCreate A hcreate size h0 = .ok (p, h))
    (hp : p ≠ 0) (hcs : ∀ c ∈ cs, c.Short) :
    Ends (runCalls A b p cs) h fun trace h1 => RunSpec A b h0.entries p trace h1 := by
  cases (skyHashCreate_ends A hcreate size h0).result hc with
  | inl hn => exact absurd hn.1 hp
  | inr hn =>
    obtain ⟨-, n, S⟩ := hn
    apply (runCalls_ends cs S hcs).mono
    intro trace h1 ht
    obtain ⟨rows, S1, hv⟩ := ht
    refine S1.runSpec ?_
    intro k
    rw [hv]
    exact Option.or_none

/-- `"a"` -/
def keyA : CStr := ⟨[97], CStr.noNul_a⟩

/-- A table for one key. -/
theorem exists_createOne : ∃ p h,
    skyHashCreate (Allocator.bump fun _ => true) (fun _ => some 1) 1 Heap.empty = .ok (p, h) ∧
      p ≠ 0 :=
  exists_create rfl rfl

/-- One key, added twice to a table for one. -/
theorem runCalls_spec_twice : ∃ p h,
    skyHashCreate (Allocator.bump fun _ => true) (fun _ => some 1) 1 Heap.empty = .ok (p, h) ∧
    Ends (runCalls (Allocator.bump fun _ => true) ⟨0, false⟩ p
        [.add (some keyA) 8, .add (some keyA) 16]) h fun trace h1 =>
      RunSpec (Allocator.bump fun _ => true) ⟨0, false⟩ Heap.empty.entries p trace h1 := by
  obtain ⟨p, h, hc, hp⟩ := exists_createOne
  refine ⟨p, h, hc, runCalls_spec hc hp ?_⟩
  have hshort : keyA.length < 2 ^ 31 - 1 := by decide
  intro c hc
  rw [List.mem_cons, List.mem_singleton] at hc
  cases hc with
  | inl hc => exact hc ▸ hshort
  | inr hc => exact hc ▸ hshort

/-! ## A key of `INT_MAX` characters -/

theorem skyHashAdd_overflow {key : CStr} (S : Shape h F p n []) (hlen : key.length = 2 ^ 31 - 1)
    (hg : A.grants h.time = true) (value : Addr) :
    skyHashAdd A b p (some key) value h = .error .overflow := by
  have hvalid : skyValidateHandle b p h = .ok ((), h) :=
    (S.validate ⟨rfl, rfl⟩ : Ends (skyValidateHandle b p) h fun u h' => u = () ∧ h' = h).apply
  have hfind : hsearchFind p key h = .ok ((0, none), h) := by
    obtain ⟨r, h', hx, rfl, hr⟩ := hsearchFind_ends S key
    cases hr with
    | inl hr => rw [hx, hr.1]
    | inr hr =>
      obtain ⟨pre, x, post, hn, -⟩ := hr
      simp at hn
  have hint : (skyStrLen key).toBitVec.toInt = 2147483647 := by
    rw [skyStrLen_toInt (by omega), hlen]
    rfl
  obtain ⟨ks, h1, hm, hks⟩ : ∃ ks h1, malloc A (keyString ⟨0, 0⟩) h = .ok (ks, h1) ∧ ks ≠ 0 := by
    apply Ends.malloc
    · intro h1 hf
      rw [hg] at hf
      cases hf
    · intro ks h1 _ hks _ _
      exact hks
  have hadd : addNewKey A p key 2147483647 value h = .error .overflow := by
    unfold addNewKey
    rw [bind_apply, hm]
    dsimp only
    rw [if_neg hks]
    rfl
  unfold skyHashAdd
  rw [bind_apply, hvalid]
  dsimp only
  rw [hint, if_pos (by decide), bind_apply, hfind]
  exact hadd

/-- With `key_len` at `INT_MAX` the size `key_len + 1` of the copy overflows. -/
theorem add_intMax_overflows : ∃ key : CStr, key.length < 2 ^ 31 ∧ ∃ p h,
    skyHashCreate (Allocator.bump fun _ => true) (fun _ => some 1) 1 Heap.empty = .ok (p, h) ∧
    p ≠ 0 ∧ skyHashAdd (Allocator.bump fun _ => true) ⟨0, false⟩ p (some key) 8 h =
      .error .overflow := by
  obtain ⟨key, hlen⟩ : ∃ key : CStr, key.length = 2 ^ 31 - 1 := by
    refine ⟨⟨List.replicate (2 ^ 31 - 1) 1, ?_⟩, List.length_replicate⟩
    intro hm
    exact absurd (List.eq_of_mem_replicate hm) (by decide)
  obtain ⟨p, h, hc, hp⟩ := exists_createOne
  refine ⟨key, by omega, p, h, hc, hp, ?_⟩
  cases (skyHashCreate_ends _ _ _ _).result hc with
  | inl hn => exact absurd hn.1 hp
  | inr hn =>
    obtain ⟨-, n, S⟩ := hn
    exact skyHashAdd_overflow S hlen rfl 8

end Sky.Hash
