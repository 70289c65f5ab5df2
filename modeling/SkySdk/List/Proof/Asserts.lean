import SkySdk.List.Proof.Run

/-!
# Which operation fails an assertion

In every state of a list the only one is an `insert` that finds room in the list and none in the
pool (`operate_aborts_iff`). A run is not aborted if and only if it has no such step
(`runCalls_aborts_iff`).
-/

set_option autoImplicit false

namespace Sky.LinkedList

open Base Base.Dll

variable {A : Allocator} {b : Build} {h h0 h1 : Heap Block} {F : Ledger Block} {l : Addr}
  {m : UInt32} {xs : Nodes} {ps : Spares} {c : Call}

/-- A call on a list, or its destruction. -/
inductive Operation
  | call (c : Call)
  | destroy

def operate (A : Allocator) (b : Build) (l : Addr) : Operation → ListM Unit
  | .call c => do
    let _ ← call A b l c
    pure ()
  | .destroy => skyListDestroy b l

/-- One call after the other. -/
def runCalls (A : Allocator) (b : Build) (l : Addr) : List Call → ListM Unit
  | [] => pure ()
  | c :: cs => do
    let _ ← call A b l c
    runCalls A b l cs

/-- An `insert` into a list that is not full and whose pool is empty, in a build whose assertions
abort: the item count would exceed the nodes of the pool. -/
def ExceedsPool (b : Build) (l : Addr) (m : UInt32) (h : Heap Block) : Operation → Prop
  | .call (.insert _ _) =>
    b.assertAborts = true ∧ poolEmpty h l = true ∧ (seqOf h l).length < m.toNat
  | _ => False

/-- No step of the run exceeds the pool of the state it is made in. -/
def WithinPool (A : Allocator) (b : Build) (l : Addr) (m : UInt32) : List Call → Heap Block → Prop
  | [], _ => True
  | c :: cs, h => ¬ ExceedsPool b l m h (.call c) ∧
    ∀ r h', call A b l c h = .ok (r, h') → WithinPool A b l m cs h'

theorem insertAborts_iff (S : Shape h F l m xs ps) (c : Call) :
    InsertAborts b m xs ps c ↔ ExceedsPool b l m h (.call c) := by
  cases c with
  | insert i d =>
    have hlen : (datas xs).length = xs.length := List.length_map _
    simp only [InsertAborts, ExceedsPool, S.poolEmpty_eq, S.seqOf_eq, hlen, List.isEmpty_iff]
  | _ => rfl

theorem operate_aborts_iff (S : Shape h F l m xs ps) (op : Operation) :
    operate A b l op h = .error .aborted ↔ ExceedsPool b l m h op := by
  cases op with
  | call c =>
    rw [← insertAborts_iff S, operate, bind_apply]
    rcases call_cases (A := A) (b := b) S c with ⟨ha, hx⟩ | ⟨r, h', hx, -⟩
    · rw [hx]
      exact iff_of_true rfl ha
    · refine iff_of_false ?_ fun ha => ?_
      · rw [hx]
        simp
      · rw [call_aborts S ha] at hx
        cases hx
  | destroy =>
    obtain ⟨_, h', hx, -⟩ := skyListDestroy_ends (b := b) S
    refine iff_of_false ?_ id
    rw [operate, hx]
    simp

theorem runCalls_aborts_iff : ∀ (cs : List Call) {h : Heap Block} {xs : Nodes} {ps : Spares},
    Shape h F l m xs ps → (runCalls A b l cs h ≠ .error .aborted ↔ WithinPool A b l m cs h)
  | [], _, _, _, _ => iff_of_true (by simp [runCalls]) trivial
  | c :: cs, h, xs, ps, S => by
    rw [runCalls, bind_apply, WithinPool, ← insertAborts_iff S]
    rcases call_cases (A := A) (b := b) S c with ⟨ha, hx⟩ | ⟨r, h', hx, xs', ps', S', -⟩
    · rw [hx]
      exact iff_of_false (fun hc => hc rfl) fun hc => hc.1 ha
    · have hno : ¬ InsertAborts b m xs ps c := by
        intro ha
        rw [call_aborts S ha] at hx
        cases hx
      rw [hx]
      dsimp only
      rw [runCalls_aborts_iff cs S', and_iff_right hno]
      constructor
      · rintro hwithin _ _ ⟨⟩
        exact hwithin
      · intro hwithin
        exact hwithin r h' rfl

/-- From every creation on: a run of calls is not aborted if and only if all of its steps are within
the pool, and in every state that a run reaches the operations that abort are the ones that exceed
the pool. -/
theorem asserts_hold_iff (hc : skyListCreate A b m h0 = .ok (l, h1)) (hl : l ≠ 0) :
    (∀ cs, runCalls A b l cs h1 ≠ .error .aborted ↔ WithinPool A b l m cs h1) ∧
    ∀ cs h, Steps (call A b l) (fun _ _ => True) h1 cs h → ∀ op,
      operate A b l op h ≠ .error .aborted ↔ ¬ ExceedsPool b l m h op := by
  constructor
  · intro cs
    obtain ⟨xs, ps, S⟩ := reach_shape hc hl (.nil h1)
    exact runCalls_aborts_iff cs S
  · intro cs h hr op
    obtain ⟨xs, ps, S⟩ := reach_shape hc hl hr
    exact not_congr (operate_aborts_iff S op)

/-- An `insert` into a new list with two nodes in its pool. -/
theorem asserts_hold_insert : ∃ l h1, skyListCreate granting ⟨2, true⟩ 4 .empty = .ok (l, h1) ∧
    operate granting ⟨2, true⟩ l (.call (.insert 0 5)) h1 ≠ .error .aborted := by
  obtain ⟨l, h1, hc, hl⟩ : ∃ l h1, skyListCreate granting ⟨2, true⟩ 4 .empty = .ok (l, h1) ∧
      l ≠ 0 := exists_create (by decide) fun _ _ => rfl
  obtain ⟨-, ps, hps, S, -⟩ := skyListCreate_returns granting ⟨2, true⟩ 4 .empty l h1 hc hl
  have hpool : poolEmpty h1 l = false := by
    rw [S.poolEmpty_eq]
    cases ps with
    | nil => cases hps
    | cons y ps => rfl
  refine ⟨l, h1, hc, ((asserts_hold_iff hc hl).2 [] h1 (.nil h1) _).2 fun hexceeds => ?_⟩
  rw [hexceeds.2.1] at hpool
  cases hpool

/-- The first `insert` into a list without pre-allocation; the other two additions go on there and
allocate a node. -/
theorem insert_aborts : ∃ l h1, skyListCreate granting ⟨0, true⟩ 4 .empty = .ok (l, h1) ∧ l ≠ 0 ∧
    operate granting ⟨0, true⟩ l (.call (.insert 0 5)) h1 = .error .aborted ∧
    operate granting ⟨0, true⟩ l (.call (.pushFront 5)) h1 ≠ .error .aborted ∧
    operate granting ⟨0, true⟩ l (.call (.pushBack 5)) h1 ≠ .error .aborted := by
  obtain ⟨l, h1, hc, hl⟩ : ∃ l h1, skyListCreate granting ⟨0, true⟩ 4 .empty = .ok (l, h1) ∧
      l ≠ 0 := exists_create (by decide) fun _ _ => rfl
  obtain ⟨-, ps, hps, S, -⟩ := skyListCreate_returns granting ⟨0, true⟩ 4 .empty l h1 hc hl
  obtain rfl := List.length_eq_zero_iff.1 hps
  have hexceeds : ExceedsPool ⟨0, true⟩ l 4 h1 (.call (.insert 0 5)) :=
    (insertAborts_iff S _).1 ⟨rfl, rfl, by decide⟩
  exact ⟨l, h1, hc, hl, (operate_aborts_iff S _).2 hexceeds, mt (operate_aborts_iff S _).1 id,
    mt (operate_aborts_iff S _).1 id⟩

end Sky.LinkedList
