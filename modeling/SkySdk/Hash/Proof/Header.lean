import SkySdk.Hash.Proof.Run

/-!
# The type in the header of a hash

No call writes the header of the struct at `p`, whatever the key and whichever allocation is
refused: an access to another kind of block is not one to `p`, and a new block is not at `p`. So a
handle that `skyHashCreate` has returned has the type of a hash after every run of calls
(`reach_typed`).
-/

set_option autoImplicit false

namespace Sky.Hash

open Base

variable {A : Allocator} {b : Build} {h h' : Heap Block} {p q : Addr} {α β : Type}

/-- The block at `p` is a hash by its header. -/
def Typed (p : Addr) (h : Heap Block) : Prop :=
  ∃ d, h.get? p = some (.hash d) ∧ d.handleType = SkyHandleType.hash.code

/-- If `x` returns, the type at `p` is there as before. -/
def KeepsType (p : Addr) (x : HashM α) : Prop :=
  ∀ h, Typed p h → Returns x h fun _ h' => Typed p h'

theorem KeepsType.bind {x : HashM α} {f : α → HashM β} (hx : KeepsType p x)
    (hf : ∀ a, KeepsType p (f a)) : KeepsType p (x >>= f) :=
  fun h ht => (hx h ht).bind fun a h' ht' => hf a h' ht'

theorem KeepsType.pure (a : α) : KeepsType p (pure a : HashM α) := by
  intro h ht a' h' hx
  cases hx
  exact ht

theorem KeepsType.fault (e : Fault) : KeepsType p (fault e : HashM α) :=
  fun _ _ => returns_of_error rfl

theorem KeepsType.ite {c : Prop} [Decidable c] {x y : HashM α} (hx : KeepsType p x)
    (hy : KeepsType p y) : KeepsType p (if c then x else y) := by
  split
  · exact hx
  · exact hy

/-! ## Accesses -/

theorem load_returns : Returns (load q) h fun blk h' => h.get? q = some blk ∧ h' = h := by
  intro blk h' hx
  unfold load at hx
  cases hg : h.get? q with
  | none =>
    rw [hg] at hx
    cases hx
  | some blk' =>
    rw [hg] at hx
    cases hx
    exact ⟨rfl, rfl⟩

theorem loadHash_returns :
    Returns (loadHash q) h fun d h' => h.get? q = some (.hash d) ∧ h' = h := by
  refine load_returns.bind fun blk h' hblk => ?_
  obtain ⟨hg, rfl⟩ := hblk
  cases blk with
  | hash d => exact ((ends_pure d).2 ⟨hg, rfl⟩).returns
  | keyString k => exact returns_of_error rfl
  | chars bytes => exact returns_of_error rfl

theorem loadKeyString_returns :
    Returns (loadKeyString q) h fun k h' => h.get? q = some (.keyString k) ∧ h' = h := by
  refine load_returns.bind fun blk h' hblk => ?_
  obtain ⟨hg, rfl⟩ := hblk
  cases blk with
  | hash d => exact returns_of_error rfl
  | keyString k => exact ((ends_pure k).2 ⟨hg, rfl⟩).returns
  | chars bytes => exact returns_of_error rfl

theorem loadStr_keepsType : KeepsType p (loadStr q) := by
  intro h ht
  refine load_returns.bind fun blk h' hblk => ?_
  obtain ⟨-, rfl⟩ := hblk
  cases blk with
  | hash d => exact returns_of_error rfl
  | keyString k => exact returns_of_error rfl
  | chars bytes =>
    cases hread : CStr.read (bytes.map some) with
    | ok s => simpa only [hread] using KeepsType.pure s h' ht
    | error e => simpa only [hread] using KeepsType.fault e h' ht

theorem loadHash_keepsType : KeepsType p (loadHash q) := by
  intro h ht d h' hx
  obtain ⟨-, rfl⟩ := loadHash_returns d h' hx
  exact ht

/-- A struct that is changed keeps its header. -/
theorem modifyHash_keepsType {f : SkyHandleHash → SkyHandleHash}
    (hf : ∀ d, (f d).handleType = d.handleType) : KeepsType p (modifyHash q f) := by
  intro h ht
  refine loadHash_returns.bind fun d h' hd => ?_
  obtain ⟨hg, rfl⟩ := hd
  have hq : q ∈ h'.blocks := Heap.mem_of_get? hg
  refine (ends_store.2 ⟨hq, ?_⟩).returns
  obtain ⟨d', hp, hcode⟩ := ht
  by_cases hpq : p = q
  · subst hpq
    cases hg.symm.trans hp
    exact ⟨f d, by rw [Heap.get?_set hq, if_pos rfl], (hf d).trans hcode⟩
  · exact ⟨d', by rw [Heap.get?_set hq, if_neg hpq, hp], hcode⟩

/-- Blocks of another kind are not the struct. -/
theorem store_keepsType {blk blk' : Block} (hg : h.get? q = some blk) (hd : ∀ d, blk ≠ .hash d)
    (ht : Typed p h) : Returns (store q blk') h fun _ h' => Typed p h' := by
  have hq : q ∈ h.blocks := Heap.mem_of_get? hg
  refine (ends_store.2 ⟨hq, ?_⟩).returns
  obtain ⟨d, hp, hcode⟩ := ht
  have hpq : p ≠ q := by
    rintro rfl
    exact hd d (Option.some.inj (hg.symm.trans hp))
  exact ⟨d, by rw [Heap.get?_set hq, if_neg hpq, hp], hcode⟩

theorem modifyKeyString_keepsType {f : KeyString → KeyString} :
    KeepsType p (modifyKeyString q f) := by
  intro h ht
  refine loadKeyString_returns.bind fun k h' hk => ?_
  obtain ⟨hg, rfl⟩ := hk
  exact store_keepsType hg (fun _ hc => by cases hc) ht

theorem skyStrCpy_keepsType {src : CStr} {count : Nat} : KeepsType p (skyStrCpy q src count) := by
  intro h ht
  refine load_returns.bind fun blk h' hblk => ?_
  obtain ⟨hg, rfl⟩ := hblk
  cases blk with
  | hash d => exact returns_of_error rfl
  | keyString k => exact returns_of_error rfl
  | chars bytes =>
    dsimp only
    split
    · exact store_keepsType hg (fun _ hc => by cases hc) ht
    · exact returns_of_error rfl

/-- A new block is not at `p`. -/
theorem malloc_returns {blk : Block} (ht : Typed p h) :
    Returns (malloc A blk) h fun q h' => q ≠ p ∧ Typed p h' := by
  obtain ⟨d, hp, hcode⟩ := ht
  have hmem : p ∈ h.blocks := Heap.mem_of_get? hp
  have hne : p ≠ 0 := Heap.ne_zero_of_mem hmem
  refine Ends.returns (ends_malloc.2 ?_)
  split
  · have hfresh : A.place h.time h.blocks.keys ≠ p := by
      intro hc
      exact A.place_fresh h.time h.blocks.keys (hc ▸ Finmap.mem_keys.2 hmem)
    refine ⟨hfresh, d, ?_, hcode⟩
    rw [Heap.get?_note, Heap.get?_alloc (A.place_ne _ _), if_neg hfresh.symm, hp]
  · exact ⟨hne.symm, d, hp, hcode⟩

theorem free_keepsType (hq : q ≠ p) : KeepsType p (free q) := by
  intro h ht u h' hx
  unfold free at hx
  split at hx
  · cases hx
    exact ht
  · split at hx
    · cases hx
      obtain ⟨d, hp, hcode⟩ := ht
      exact ⟨d, by rw [Heap.get?_note, Heap.get?_erase, if_neg hq.symm, hp], hcode⟩
    · cases hx

/-! ## The functions -/

theorem findEntry_keepsType (key : CStr) (i : Nat) (entries : List Entry) :
    KeepsType p (findEntry key i entries) := by
  induction entries generalizing i with
  | nil => exact .pure _
  | cons e entries ih => exact loadStr_keepsType.bind fun s => .ite (.pure _) (ih (i + 1))

theorem hsearchFind_keepsType (key : CStr) : KeepsType p (hsearchFind q key) := by
  refine loadHash_keepsType.bind fun d => (findEntry_keepsType key 0 _).bind fun i => ?_
  cases i with
  | none => exact .pure _
  | some i => exact .pure _

theorem hsearchEnter_keepsType (key data : Addr) : KeepsType p (hsearchEnter q key data) := by
  refine loadHash_keepsType.bind fun d => loadStr_keepsType.bind fun s =>
    (findEntry_keepsType s 0 _).bind fun i => ?_
  cases i with
  | none => exact .ite (.bind (modifyHash_keepsType fun _ => by rfl) fun _ => .pure _) (.pure _)
  | some i => exact .pure _

theorem setEntryData_keepsType (retval : Nat) (data : Addr) :
    KeepsType p (setEntryData q retval data) := by
  refine loadHash_keepsType.bind fun d => ?_
  dsimp only
  split
  · exact modifyHash_keepsType fun _ => rfl
  · exact .fault _

theorem intSucc_keepsType (n : Int) : KeepsType p (intSucc n) := .ite (.pure _) (.fault _)

theorem skyAssert_keepsType {cond : HashM Bool} (hc : KeepsType p cond) :
    KeepsType p (skyAssert b cond) :=
  .ite (hc.bind fun _ => .ite (.pure _) (.fault _)) (.pure _)

theorem validate_keepsType : KeepsType p (skyValidateHandle b q) :=
  skyAssert_keepsType (.ite (.pure _) (loadHash_keepsType.bind fun _ => .pure _))

/-- What is freed after a failure are the new blocks. -/
theorem addNewKey_keepsType (key : CStr) (keyLen : Int) (value : Addr) :
    KeepsType p (addNewKey A q key keyLen value) := by
  intro h ht
  refine (malloc_returns ht).bind fun ks h1 hks => ?_
  obtain ⟨hks, ht1⟩ := hks
  refine KeepsType.ite (.pure _) (.bind (intSucc_keepsType _) fun size => ?_) h1 ht1
  intro h2 ht2
  refine (malloc_returns ht2).bind fun str h3 hstr => ?_
  obtain ⟨hstr, ht3⟩ := hstr
  refine KeepsType.bind modifyKeyString_keepsType (fun _ => .ite ?_ ?_) h3 ht3
  · exact (free_keepsType hks).bind fun _ => .pure _
  · refine skyStrCpy_keepsType.bind fun _ => (hsearchEnter_keepsType str value).bind fun r =>
      .ite ?_ ?_
    · exact (free_keepsType hstr).bind fun _ => (free_keepsType hks).bind fun _ => .pure _
    · exact loadHash_keepsType.bind fun d => modifyKeyString_keepsType.bind fun _ =>
        .bind (modifyHash_keepsType fun _ => by rfl) fun _ => .pure _

theorem skyHashAdd_keepsType (key : Option CStr) (value : Addr) :
    KeepsType p (skyHashAdd A b q key value) := by
  refine validate_keepsType.bind fun _ => ?_
  cases key with
  | none => exact .pure _
  | some key =>
    refine .ite ((hsearchFind_keepsType key).bind fun r => .ite ?_ ?_) (.pure _)
    · cases r.2 with
      | none => exact (skyAssert_keepsType (.pure false)).bind fun _ => .pure _
      | some i => exact (setEntryData_keepsType i value).bind fun _ => .pure _
    · exact addNewKey_keepsType key _ value

theorem skyHashFind_keepsType (key : Option CStr) (value : Option Addr) :
    KeepsType p (skyHashFind b q key value) := by
  refine validate_keepsType.bind fun _ => ?_
  cases key with
  | none => exact .pure _
  | some key =>
    refine (hsearchFind_keepsType key).bind fun r => ?_
    obtain ⟨rc, retval⟩ := r
    cases retval with
    | none => exact .pure _
    | some i =>
      refine .ite (.pure _) (loadHash_keepsType.bind fun d => ?_)
      split
      · exact .pure _
      · exact .fault _

theorem call_keepsType (c : Call) : KeepsType p (call A b q c) := by
  cases c with
  | add key value => exact (skyHashAdd_keepsType key value).bind fun _ => .pure _
  | find key value => exact (skyHashFind_keepsType key value).bind fun _ => .pure _

/-! ## Runs -/

/-- The header is written once, by `skyHashCreate`. -/
theorem create_typed {hcreate : UInt32 → Option Nat} {size : UInt32}
    (hc : skyHashCreate A hcreate size h = .ok (p, h')) (hp : p ≠ 0) : Typed p h' := by
  rcases (skyHashCreate_ends A hcreate size h).result hc with hnull | hshape
  · exact absurd hnull.1 hp
  · obtain ⟨-, n, S⟩ := hshape
    exact ⟨_, Heap.get?_of_entries S.struct_eq, rfl⟩

theorem reach_typed {hcreate : UInt32 → Option Nat} {size : UInt32} {h0 h1 : Heap Block}
    {cs : List Call} (hc : skyHashCreate A hcreate size h0 = .ok (p, h1)) (hp : p ≠ 0)
    (hr : Steps (call A b p) (fun _ _ => True) h1 cs h) : Typed p h := by
  refine Steps.inv (I := Typed p) ?_ hr (create_typed hc hp)
  intro h c r h' ht _ hx
  exact call_keepsType c h ht r h' hx

end Sky.Hash
