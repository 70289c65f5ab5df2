import SkySdk.List.Proof.Run
import Mathlib.Data.List.Perm.Basic

/-!
# What goes in comes out

NULL aside, which `sky_list_pop_front` and the others answer for an empty list too, what a log puts
into a list is what it takes out and what is left, each pointer as often (`log_conserves`, without
`sky_list_clear`), and in the same order where the list is used as a queue (`log_fifo`).
-/

set_option autoImplicit false

namespace Sky.LinkedList

open Base

variable {A : Allocator} {b : Build} {h h0 h1 h' : Heap Block} {l : Addr} {m : UInt32}
  {xs xs' : List Addr} {c : Call} {r : Resp}

/-- What an addition that answers true puts in. -/
def putIn : Call × Resp → List Addr
  | (.pushFront d, .bool true) => [d]
  | (.pushBack d, .bool true) => [d]
  | (.insert _ d, .bool true) => [d]
  | _ => []

/-- What a removal answers. -/
def takenOut : Call × Resp → List Addr
  | (.popFront, .ptr d) => [d]
  | (.popBack, .ptr d) => [d]
  | (.remove _, .ptr d) => [d]
  | (.removeIf _ _ _, .ptr d) => [d]
  | _ => []

/-- Without the NULLs. -/
def proper (xs : List Addr) : List Addr := xs.filter (· ≠ 0)

@[simp] theorem proper_append (xs ys : List Addr) : proper (xs ++ ys) = proper xs ++ proper ys :=
  List.filter_append xs ys

/-- Additions at the back, removals at the front, and the calls that only read. -/
def Call.queues : Call → Bool
  | .pushFront _ => false
  | .insert _ _ => false
  | .popBack => false
  | .remove _ => false
  | .removeIf _ _ _ => false
  | .clear => false
  | _ => true

def Call.clears : Call → Bool
  | .clear => true
  | _ => false

/-! ## One call on the sequence -/

@[simp] theorem proper_null : proper [orNull none] = [] := rfl

/-- What a removal takes out of a sequence, and what it leaves. -/
theorem seqRemove_perm (f : Addr → Bool) : ∀ xs : List Addr,
    (proper xs).Perm (proper [orNull (xs.find? f)] ++ proper (seqRemove f xs))
  | [] => .refl _
  | x :: xs => by
    cases hx : f x with
    | true =>
      rw [List.find?_cons_of_pos hx, seqRemove, if_pos hx, ← proper_append]
      exact .refl _
    | false =>
      have hf : ¬ f x = true := by simp [hx]
      rw [List.find?_cons_of_neg hf, seqRemove, if_neg hf, ← List.singleton_append, proper_append,
        ← List.singleton_append (l := seqRemove f xs), proper_append]
      exact ((seqRemove_perm f xs).append_left _).trans (List.perm_append_comm_assoc _ _ _)

theorem head_tail (xs : List Addr) : proper xs = proper [orNull xs.head?] ++ proper xs.tail := by
  cases xs with
  | nil => rfl
  | cons x xs => exact proper_append [x] xs

theorem last_dropLast (xs : List Addr) :
    proper xs = proper xs.dropLast ++ proper [orNull xs.getLast?] := by
  rcases List.eq_nil_or_concat' xs with rfl | ⟨ys, x, rfl⟩
  · rfl
  · rw [List.dropLast_concat, List.getLast?_concat, proper_append]
    rfl

theorem seqInsert_perm (i : Nat) (d : Addr) (xs : List Addr) :
    (seqInsert i d xs).Perm (xs ++ [d]) := by
  rw [seqInsert]
  refine List.perm_middle.trans ?_
  rw [List.take_append_drop]
  exact (List.perm_append_singleton d xs).symm

theorem seqAdd_perm {cap : Nat} {room : Bool} {d : Addr} {ys : List Addr}
    (hc : ∀ ok, putIn (c, .bool ok) = if ok then [d] else [])
    (ht : ∀ ok, takenOut (c, .bool ok) = []) (hy : ys.Perm (xs ++ [d]))
    (hs : (r, xs') = seqAdd cap room xs ys) :
    (proper (xs ++ putIn (c, r))).Perm (proper (takenOut (c, r) ++ xs')) := by
  unfold seqAdd at hs
  by_cases hfit : xs.length < cap ∧ room = true
  · rw [if_pos hfit] at hs
    obtain ⟨rfl, rfl⟩ := Prod.mk.inj hs
    rw [hc, ht, if_pos rfl]
    exact hy.symm.filter _
  · rw [if_neg hfit] at hs
    obtain ⟨rfl, rfl⟩ := Prod.mk.inj hs
    rw [hc, ht, if_neg Bool.false_ne_true, List.append_nil, List.nil_append]

theorem seqCall_perm {cap : Nat} {room : Bool} (hc : c.clears = false)
    (hs : (r, xs') = seqCall cap room xs c) :
    (proper (xs ++ putIn (c, r))).Perm (proper (takenOut (c, r) ++ xs')) := by
  cases c with
  | pushFront d =>
    exact seqAdd_perm (fun ok => by cases ok <;> rfl) (fun _ => rfl)
      (List.perm_append_singleton d xs).symm hs
  | pushBack d => exact seqAdd_perm (fun ok => by cases ok <;> rfl) (fun _ => rfl) (.refl _) hs
  | insert i d =>
    exact seqAdd_perm (fun ok => by cases ok <;> rfl) (fun _ => rfl) (seqInsert_perm _ d xs) hs
  | popFront =>
    obtain ⟨rfl, rfl⟩ := Prod.mk.inj hs
    simp only [putIn, takenOut, List.append_nil, proper_append]
    exact .of_eq (head_tail xs)
  | popBack =>
    obtain ⟨rfl, rfl⟩ := Prod.mk.inj hs
    simp only [putIn, takenOut, List.append_nil, proper_append]
    exact (List.Perm.of_eq (last_dropLast xs)).trans List.perm_append_comm
  | remove d =>
    obtain ⟨rfl, rfl⟩ := Prod.mk.inj hs
    simp only [putIn, takenOut, List.append_nil, proper_append]
    exact seqRemove_perm _ xs
  | removeIf f p1 p2 =>
    obtain ⟨rfl, rfl⟩ := Prod.mk.inj hs
    simp only [putIn, takenOut, List.append_nil, proper_append]
    exact seqRemove_perm _ xs
  | clear => cases hc
  | _ =>
    obtain ⟨rfl, rfl⟩ := Prod.mk.inj hs
    simp only [putIn, takenOut, List.append_nil, List.nil_append, List.Perm.refl]

theorem seqCall_fifo {cap : Nat} {room : Bool} (hc : c.queues = true)
    (hs : (r, xs') = seqCall cap room xs c) :
    proper (xs ++ putIn (c, r)) = proper (takenOut (c, r) ++ xs') := by
  cases c with
  | pushBack d =>
    have hs : (r, xs') = seqAdd cap room xs (xs ++ [d]) := hs
    unfold seqAdd at hs
    by_cases hfit : xs.length < cap ∧ room = true
    · rw [if_pos hfit] at hs
      obtain ⟨rfl, rfl⟩ := Prod.mk.inj hs
      rfl
    · rw [if_neg hfit] at hs
      obtain ⟨rfl, rfl⟩ := Prod.mk.inj hs
      rw [putIn, takenOut, List.append_nil, List.nil_append] <;> simp
  | popFront =>
    obtain ⟨rfl, rfl⟩ := Prod.mk.inj hs
    simp only [putIn, takenOut, List.append_nil, proper_append]
    exact head_tail xs
  | pushFront d => cases hc
  | insert i d => cases hc
  | popBack => cases hc
  | remove d => cases hc
  | removeIf f p1 p2 => cases hc
  | clear => cases hc
  | _ =>
    obtain ⟨rfl, rfl⟩ := Prod.mk.inj hs
    simp only [putIn, takenOut, List.append_nil, List.nil_append]

/-! ## Logs -/

/-- A relation on what one call puts in and takes out, for a log. -/
theorem log_flow {R : List Addr → List Addr → Prop} (ok : Call → Bool) (hrefl : ∀ xs, R xs xs)
    (htrans : ∀ {xs ys zs}, R xs ys → R ys zs → R xs zs)
    (hleft : ∀ {xs ys} zs, R xs ys → R (zs ++ xs) (zs ++ ys))
    (hright : ∀ {xs ys} zs, R xs ys → R (xs ++ zs) (ys ++ zs))
    (hstep : ∀ {cap room xs xs' c r}, ok c = true → (r, xs') = seqCall cap room xs c →
      R (proper (xs ++ putIn (c, r))) (proper (takenOut (c, r) ++ xs')))
    {log : List (Call × Resp)} (hlog : Log A b l h log h') : ∀ {ys : Nodes} {ps : Spares},
    Shape h h0.entries l m ys ps → (∀ e ∈ log, ok e.1 = true) →
      R (proper (seqOf h l ++ log.flatMap putIn))
        (proper (log.flatMap takenOut ++ seqOf h' l)) := by
  induction hlog with
  | nil h =>
    intro ys ps _ _
    rw [List.flatMap_nil, List.flatMap_nil, List.append_nil, List.nil_append]
    exact hrefl _
  | @cons h h1 h' c r log hx _ ih =>
    intro ys ps S hok
    obtain ⟨ys', ps', S', -, hs, -⟩ := call_post S hx
    rw [← S.seqOf_eq, ← S'.seqOf_eq] at hs
    have hfirst := hstep (hok _ List.mem_cons_self) hs
    have hrest := ih S' fun e he => hok e (List.mem_cons_of_mem _ he)
    rw [List.flatMap_cons, List.flatMap_cons, ← List.append_assoc, List.append_assoc (takenOut _),
      proper_append (_ ++ _), proper_append (takenOut _)]
    refine htrans (hright _ hfirst) ?_
    rw [proper_append (takenOut _), List.append_assoc, ← proper_append (seqOf h1 l)]
    exact hleft _ hrest

/-- From any moment of a list's life on, as long as it is not cleared: what was in the list and what
is put in is what is taken out and what is left. -/
theorem log_conserves {cs : List Call} {log : List (Call × Resp)}
    (hc : skyListCreate A b m h0 = .ok (l, h1)) (hl : l ≠ 0)
    (hr : Steps (call A b l) (fun _ _ => True) h1 cs h) (hlog : Log A b l h log h')
    (hclear : ∀ e ∈ log, e.1.clears = false) :
    (proper (seqOf h l ++ log.flatMap putIn)).Perm
      (proper (log.flatMap takenOut ++ seqOf h' l)) := by
  obtain ⟨ys, ps, S⟩ := reach_shape hc hl hr
  refine log_flow (fun c => !c.clears) .refl .trans (fun zs => .append_left zs)
    (fun zs => .append_right zs) (fun hok => seqCall_perm (by simpa using hok)) hlog S ?_
  exact fun e he => by simpa using hclear e he

/-- From a full list on: an item comes out, and another one goes in. -/
theorem log_conserves_refill : ∃ l h1 h h',
    skyListCreate granting plainBuild 2 .empty = .ok (l, h1) ∧
      Log granting plainBuild l h1 filled h ∧ Log granting plainBuild l h refilled h' ∧
      (proper (seqOf h l ++ [8])).Perm (proper ([6] ++ seqOf h' l)) := by
  obtain ⟨l, h1, h, h', hc, hl, hlog, -, hlog', -⟩ := exists_refill
  exact ⟨l, h1, h, h', hc, hlog, hlog', log_conserves hc hl hlog.steps hlog' (by decide)⟩

theorem log_fifo {cs : List Call} {log : List (Call × Resp)}
    (hc : skyListCreate A b m h0 = .ok (l, h1)) (hl : l ≠ 0)
    (hr : Steps (call A b l) (fun _ _ => True) h1 cs h) (hlog : Log A b l h log h')
    (hqueue : ∀ e ∈ log, e.1.queues = true) :
    proper (seqOf h l ++ log.flatMap putIn) = proper (log.flatMap takenOut ++ seqOf h' l) := by
  obtain ⟨ys, ps, S⟩ := reach_shape hc hl hr
  exact log_flow Call.queues (fun _ => rfl) .trans (fun zs he => congrArg (zs ++ ·) he)
    (fun zs he => congrArg (· ++ zs) he) seqCall_fifo hlog S hqueue

/-- A full queue refuses an item, and takes it when one has come out. -/
def requeued : List (Call × Resp) :=
  [(.pushBack 8, .bool false), (.popFront, .ptr 6), (.pushBack 8, .bool true)]

theorem log_fifo_requeue : ∃ l h1 h h',
    skyListCreate granting plainBuild 2 .empty = .ok (l, h1) ∧
      Log granting plainBuild l h1 filled h ∧ Log granting plainBuild l h requeued h' ∧
      proper (seqOf h l ++ [8]) = proper ([6] ++ seqOf h' l) := by
  obtain ⟨l, h1, h, h', hc, hl, hlog, -, hlog', -⟩ :=
    exists_logs (filled.map Prod.fst) (requeued.map Prod.fst)
  have hlog' : Log granting plainBuild l h requeued h' := hlog'
  exact ⟨l, h1, h, h', hc, hlog, hlog', log_fifo hc hl hlog.steps hlog' (by decide)⟩

end Sky.LinkedList
