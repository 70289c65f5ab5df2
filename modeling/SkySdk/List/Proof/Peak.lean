import SkySdk.List.Proof.Run

/-!
# The nodes of a list and its high-water mark

A list never gives a node back before it is destroyed, and asks for one only when its pool is empty,
so that the nodes it has are as many as the largest count it has had, or as were pre-allocated
(`Peak.step`, `runPeak_returns`). Destroying it frees each of them once.
-/

set_option autoImplicit false

namespace Sky.LinkedList

open Base Base.Dll
open ItemPtr (null head tail node)

variable {A : Allocator} {b : Build} {h h0 h1 h' : Heap Block} {l : Addr} {m : UInt32}
  {F : Ledger Block} {xs : Nodes} {ps : Spares}

/-- The nodes that were handed out since `h0` are the live and the spare ones, and as many as the
largest count so far, at least `SKY_LIST_PREALLOC_NUM`. -/
structure Peak (b : Build) (h0 : Heap Block) (l : Addr) (m : UInt32) (peak : Nat) (h : Heap Block)
    (xs : Nodes) (ps : Spares) : Prop where
  shape : Shape h h0.entries l m xs ps
  le : xs.length ≤ peak
  total : (addrs xs ps).length = max b.preallocNum peak
  granted : ∃ es, h.log = es ++ h0.log ∧ (es.filterMap granted).Perm (l :: addrs xs ps)

variable {peak : Nat} {xs' : Nodes} {ps' : Spares}

theorem granted_mallocs {ys : List Addr} (hy : ∀ a ∈ ys, a ≠ 0) :
    (ys.map Event.malloc).filterMap granted = ys := by
  induction ys with
  | nil => rfl
  | cons y ys ih =>
    have hy0 := hy y List.mem_cons_self
    have ih := ih fun a ha => hy a (List.mem_cons_of_mem y ha)
    simp [granted, hy0, ih]

theorem Created.exists_peak (hc : Created b h0 m l h1) (hl : l ≠ 0) :
    ∃ ps, Peak b h0 l m 0 h1 [] ps := by
  obtain ⟨-, ps, hps, S, hlog⟩ := hc
  have hne : ∀ a ∈ ps.map Prod.fst, a ≠ 0 := by
    intro a ha
    exact S.ne_zero (List.mem_cons_of_mem l ha)
  refine ⟨ps, S, Nat.le_refl 0, ?_, ps.map (fun y => .malloc y.1) ++ [.malloc l], ?_, ?_⟩
  · simp [addrs, hps]
  · rw [hlog, List.append_assoc]
    rfl
  · have hmap : ps.map (fun y => Event.malloc y.1) = (ps.map Prod.fst).map Event.malloc := by
      rw [List.map_map]
      rfl
    rw [hmap, List.filterMap_append, granted_mallocs hne]
    simp only [List.filterMap_cons, List.filterMap_nil, granted, if_neg hl, addrs, List.map_nil,
      List.nil_append]
    exact List.perm_append_singleton l _

theorem length_addrs (xs : Nodes) (ps : Spares) :
    (addrs xs ps).length = xs.length + ps.length := by
  simp [addrs]

/-- A call keeps the account. -/
theorem Peak.step (P : Peak b h0 l m peak h xs ps) (S' : Shape h' h0.entries l m xs' ps')
    (hm : Moved h h' xs ps xs' ps') : Peak b h0 l m (max peak xs'.length) h' xs' ps' := by
  obtain ⟨S, hle, htotal, es, hlog, hperm⟩ := P
  refine ⟨S', Nat.le_max_right _ _, ?_, ?_⟩
  · have hlen := length_addrs xs' ps'
    rcases hm with ⟨-, hp⟩ | ⟨rfl, rfl, ⟨-, rfl⟩ | ⟨a, -, -, hp⟩⟩
    · have hp := hp.length_eq
      omega
    · omega
    · have hp := hp.length_eq
      have hlen0 := length_addrs xs []
      simp only [List.length_cons, List.length_nil] at hp hlen hlen0
      omega
  · rcases hm with ⟨hl, hp⟩ | ⟨rfl, rfl, ⟨hl, rfl⟩ | ⟨a, ha, hl, hp⟩⟩
    · exact ⟨es, hl.trans hlog, hperm.trans (hp.symm.cons l)⟩
    · refine ⟨.malloc 0 :: es, by rw [hl, hlog]; rfl, ?_⟩
      simp only [List.filterMap_cons, LinkedList.granted, if_true]
      exact hperm
    · refine ⟨.malloc a :: es, by rw [hl, hlog]; rfl, ?_⟩
      simp only [List.filterMap_cons, LinkedList.granted, if_neg ha]
      exact ((hperm.cons a).trans (List.Perm.swap l a _)).trans (hp.symm.cons l)

/-- A run keeps the account. -/
theorem runPeak_returns : ∀ (cs : List Call) (peak : Nat) (h : Heap Block) (xs : Nodes)
    (ps : Spares), Peak b h0 l m peak h xs ps → Returns (runPeak A b l cs peak) h
      fun peak' h' => ∃ xs' ps', Peak b h0 l m peak' h' xs' ps'
  | [], peak, h, xs, ps, P => ((ends_pure peak).2 ⟨xs, ps, P⟩).returns
  | c :: cs, peak, h, xs, ps, P => by
    have hcall : Returns (call A b l c) h (Post A h h0.entries l m xs ps c) :=
      fun r s hr => call_post P.shape hr
    unfold runPeak
    refine hcall.bind ?_
    rintro r h1 ⟨xs1, ps1, S1, hm, -⟩
    refine (skyListSize_ends S1).returns.bind ?_
    rintro n h2 ⟨rfl, hn⟩
    have ih := runPeak_returns cs (max peak xs1.length) h2 xs1 ps1 (P.step S1 hm)
    rw [hn]
    exact ih

/-- A call that finds a spare node makes no allocator call. -/
theorem call_pooled {c : Call} (S : Shape h F l m xs ps) (hps : ps ≠ []) :
    ∃ r h', call A b l c h = .ok (r, h') ∧ h'.log = h.log := by
  have hc : ¬ InsertAborts b m xs ps c := by
    intro hc
    cases c with
    | insert i d => exact hps hc.2.1
    | _ => exact hc
  obtain ⟨r, h', hx, xs', ps', -, hm, -⟩ := call_ends (A := A) S c hc
  rcases hm with ⟨hl, -⟩ | ⟨hnil, -⟩
  · exact ⟨r, h', hx, hl⟩
  · exact absurd hnil hps

/-- After every run from a creation: the nodes handed out since are the linked and the pooled ones;
they are as many as the largest count so far, at least `SKY_LIST_PREALLOC_NUM`; a call that is made
while the count is below that number makes no allocator call; and destroying the list frees each of
them and the struct once, and leaves what was there before the list. -/
theorem run_nodes_eq_peak {cs : List Call} {peak : Nat}
    (hc : skyListCreate A b m h0 = .ok (l, h1)) (hl : l ≠ 0)
    (hr : runPeak A b l cs 0 h1 = .ok (peak, h)) :
    ∃ s live pool, Linked h l m s live pool ∧ (l :: (live ++ pool)).Nodup ∧
      (∃ es, h.log = es ++ h0.log ∧ (es.filterMap granted).Perm (l :: (live ++ pool))) ∧
      (live ++ pool).length = max b.preallocNum peak ∧
      (s.count.toNat < max b.preallocNum peak →
        ∀ c, ∃ r h', call A b l c h = .ok (r, h') ∧ h'.log = h.log) ∧
      ∃ h', skyListDestroy b l h = .ok ((), h') ∧ h'.blocks = h0.blocks ∧
        ∃ fs : List Addr, fs.Perm (l :: (live ++ pool)) ∧ h'.log = fs.map .free ++ h.log := by
  have hcreated := skyListCreate_returns A b m h0 l h1 hc hl
  obtain ⟨ps0, P0⟩ := hcreated.exists_peak hl
  obtain ⟨xs, ps, P⟩ := runPeak_returns cs 0 h1 [] ps0 P0 peak h hr
  have S := P.shape
  refine ⟨_, _, _, S.linked, S.nodup, P.granted, P.total, fun hlt c => ?_, ?_⟩
  · refine call_pooled S ?_
    rintro rfl
    have htotal := P.total
    rw [length_addrs] at htotal
    simp only [struct, toNat_count S.le] at hlt
    simp only [List.length_nil] at htotal
    omega
  · obtain ⟨⟨⟩, h', hx, he, hfs⟩ := skyListDestroy_ends (b := b) S
    exact ⟨h', hx, Finmap.ext he, hfs⟩

/-- The largest length after any of the calls on a sequence, and `peak`. -/
def seqPeak (cap : Nat) : List Addr → List Call → Nat → Nat
  | _, [], peak => peak
  | xs, c :: cs, peak =>
    seqPeak cap (seqCall cap true xs c).2 cs (max peak (seqCall cap true xs c).2.length)

theorem runPeak_granting : ∀ (cs : List Call) (peak : Nat) {h : Heap Block} {xs : Nodes}
    {ps : Spares}, Shape h F l m xs ps → ∃ h',
      runPeak granting plainBuild l cs peak h = .ok (seqPeak m.toNat (datas xs) cs peak, h')
  | [], peak, h, _, _, _ => ⟨h, rfl⟩
  | c :: cs, peak, h, xs, ps, S => by
    obtain ⟨h1, xs1, ps1, hx, S1, hd⟩ := call_granting S c
    obtain ⟨n, h2, hn, rfl, hlen⟩ := skyListSize_ends (b := plainBuild) S1
    have hlen : n.toNat = (seqCall m.toNat true (datas xs) c).2.length := by
      rw [hlen, ← hd, datas, List.length_map]
    obtain ⟨h3, hrest⟩ := runPeak_granting cs (max peak n.toNat) S1
    rw [hd, hlen] at hrest
    refine ⟨h3, ?_⟩
    rw [runPeak, bind_apply, hx]
    dsimp only
    rw [bind_apply, hn]
    dsimp only
    rw [hlen]
    exact hrest

/-- Three additions that are accepted, and two nodes. -/
theorem run_nodes_eq_peak_refill : ∃ l h1 h,
    skyListCreate granting plainBuild 2 .empty = .ok (l, h1) ∧
      runPeak granting plainBuild l ((filled ++ refilled).map Prod.fst) 0 h1 = .ok (2, h) ∧
      ∃ s live pool, Linked h l 2 s live pool ∧ (live ++ pool).length = 2 := by
  obtain ⟨l, h1, -, -, hc, hl, -⟩ := exists_refill
  obtain ⟨-, ps, -, S, -⟩ := skyListCreate_returns granting plainBuild 2 .empty l h1 hc hl
  obtain ⟨h, hr⟩ := runPeak_granting ((filled ++ refilled).map Prod.fst) 0 S
  obtain ⟨s, live, pool, hL, -, -, hlen, -⟩ := run_nodes_eq_peak hc hl hr
  exact ⟨l, h1, h, hc, hr, s, live, pool, hL, hlen⟩

end Sky.LinkedList
