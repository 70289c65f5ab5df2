import Mathlib.Data.List.Basic

/-!
# Association lists in insertion order

The three updates of a list of key/value pairs read in order: `append` at the end (`++`),
`replace` the value at the first pair with the key, `remove` that pair. A list that holds a key
splits at its first occurrence (`mem_split`), and each operation is computed at the split; on a
list with distinct keys that pair is the only one.
-/

set_option autoImplicit false

namespace Base.Assoc

variable {K V : Type} [DecidableEq K]

/-- Put `v` at the first pair with key `k`. -/
def replace (k : K) (v : V) : List (K × V) → List (K × V)
  | [] => []
  | p :: ps => if p.1 = k then (k, v) :: ps else p :: replace k v ps

/-- Drop the first pair with key `k`. -/
def remove (k : K) : List (K × V) → List (K × V)
  | [] => []
  | p :: ps => if p.1 = k then ps else p :: remove k ps

variable {k : K} {v w : V} {ps pre post : List (K × V)}

/-- A key of the list has a first pair. -/
theorem mem_split (hk : k ∈ ps.map Prod.fst) :
    ∃ pre v post, ps = pre ++ (k, v) :: post ∧ k ∉ pre.map Prod.fst := by
  induction ps with
  | nil => cases hk
  | cons p ps ih =>
    obtain ⟨k', v'⟩ := p
    by_cases hp : k' = k
    · subst hp
      exact ⟨[], v', ps, rfl, List.not_mem_nil⟩
    · have hk' : k ∈ ps.map Prod.fst := by
        rcases List.mem_cons.1 hk with h | h
        · exact absurd h.symm hp
        · exact h
      obtain ⟨pre, v, post, rfl, hn⟩ := ih hk'
      refine ⟨(k', v') :: pre, v, post, rfl, fun hm => ?_⟩
      rcases List.mem_cons.1 hm with h | h
      · exact hp h.symm
      · exact hn h

theorem lookup_split (hn : k ∉ pre.map Prod.fst) :
    (pre ++ (k, v) :: post).lookup k = some v := by
  induction pre with
  | nil => simp
  | cons p pre ih =>
    obtain ⟨k', v'⟩ := p
    obtain ⟨hp, hn⟩ := not_or.1 (fun h => hn (List.mem_cons.2 h))
    rw [List.cons_append, List.lookup_cons, beq_eq_false_iff_ne.2 hp]
    exact ih hn

theorem lookup_none (hn : k ∉ ps.map Prod.fst) : ps.lookup k = none := by
  induction ps with
  | nil => rfl
  | cons p ps ih =>
    obtain ⟨k', v'⟩ := p
    obtain ⟨hp, hn⟩ := not_or.1 (fun h => hn (List.mem_cons.2 h))
    rw [List.lookup_cons, beq_eq_false_iff_ne.2 hp]
    exact ih hn

theorem replace_split (hn : k ∉ pre.map Prod.fst) :
    replace k w (pre ++ (k, v) :: post) = pre ++ (k, w) :: post := by
  induction pre with
  | nil => simp [replace]
  | cons p pre ih =>
    obtain ⟨hp, hn⟩ := not_or.1 (fun h => hn (List.mem_cons.2 h))
    simp [replace, Ne.symm hp, ih hn]

theorem remove_split (hn : k ∉ pre.map Prod.fst) :
    remove k (pre ++ (k, v) :: post) = pre ++ post := by
  induction pre with
  | nil => simp [remove]
  | cons p pre ih =>
    obtain ⟨hp, hn⟩ := not_or.1 (fun h => hn (List.mem_cons.2 h))
    simp [remove, Ne.symm hp, ih hn]

theorem keys_replace (k : K) (v : V) (ps : List (K × V)) :
    (replace k v ps).map Prod.fst = ps.map Prod.fst := by
  induction ps with
  | nil => rfl
  | cons p ps ih =>
    unfold replace
    split
    · rename_i hp
      simp [hp]
    · simp [ih]

theorem remove_sublist (k : K) (ps : List (K × V)) : (remove k ps).Sublist ps := by
  induction ps with
  | nil => exact .slnil
  | cons p ps ih =>
    unfold remove
    split
    · exact List.sublist_cons_self _ _
    · exact ih.cons_cons _

/-! ## Distinct keys -/

/-- The keys are pairwise distinct. -/
def Distinct (ps : List (K × V)) : Prop := (ps.map Prod.fst).Nodup

omit [DecidableEq K] in
theorem Distinct.append (hd : Distinct ps) (hk : k ∉ ps.map Prod.fst) :
    Distinct (ps ++ [(k, v)]) := by
  unfold Distinct at *
  rw [List.map_append, List.map_cons, List.map_nil, List.nodup_append]
  refine ⟨hd, by simp, fun a ha b hb hab => hk ?_⟩
  rw [List.mem_singleton] at hb
  rwa [hab, hb] at ha

theorem Distinct.replace (hd : Distinct ps) : Distinct (replace k v ps) := by
  unfold Distinct
  rw [keys_replace]
  exact hd

theorem Distinct.remove (hd : Distinct ps) : Distinct (remove k ps) :=
  hd.sublist ((remove_sublist k ps).map _)

end Base.Assoc
