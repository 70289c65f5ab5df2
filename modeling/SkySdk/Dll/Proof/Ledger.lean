import SkySdk.Dll.Defs

/-!
# The ledger of any number of libraries

`Holds libs w`: the live handles, the blocks and the open libraries are those of the pairs `libs` of
a handle and a library. Every operation on a live handle returns and keeps it (`step_holds`).
-/

set_option autoImplicit false

namespace Sky.Dll

open Base
open Handle (SkyHandleDll)

variable {A : Allocator} {L : Loader} {b : Build} {p : Process} {w : World} {α : Type}

/-- The struct of a handle. -/
def loaded (x : Addr × Addr) : Σ _ : Addr, SkyHandleDll :=
  ⟨x.1, { cb := 16, handleType := SkyHandleType.dll.code, dllHandle := x.2 }⟩

structure Holds (libs : Multiset (Addr × Addr)) (w : World) : Prop where
  live : w.live = libs.map Prod.fst
  blocks : w.process.heap.entries = libs.map loaded
  opened : w.process.opened = libs.map Prod.snd
  proper : ∀ x ∈ libs, x.2 ≠ 0

/-! ## The parts of a function -/

theorem ends_onHeap {x : Prog (Heap SkyHandleDll) α} {Q : α → Process → Prop}
    (h : Ends x p.heap fun a h => Q a { p with heap := h }) : Ends (onHeap x) p Q := by
  obtain ⟨a, h, hx, hq⟩ := h
  exact ⟨a, _, by simp [onHeap, hx], hq⟩

theorem ends_register {x : DllM α} {upd : α → Multiset Addr → Multiset Addr}
    {Q : Unit → World → Prop} (h : Ends x w.process fun a p => Q () ⟨p, upd a w.live⟩) :
    Ends (register x upd) w Q := by
  obtain ⟨a, p, hx, hq⟩ := h
  exact ⟨(), _, by simp [register, hx], hq⟩

theorem ends_loadDll {x : Addr × Addr} {F : Ledger SkyHandleDll} {Q : SkyHandleDll → Process → Prop}
    (he : p.heap.entries = {loaded x} + F) (hq : Q (loaded x).2 p) :
    Ends (onHeap (load x.1)) p Q :=
  ends_onHeap (Ends.load he hq)

theorem ends_validate {x : Addr × Addr} {F : Ledger SkyHandleDll} {Q : Unit → Process → Prop}
    (he : p.heap.entries = {loaded x} + F) (hq : Q () p) :
    Ends (skyValidateHandle b x.1) p Q := by
  have hne : x.1 ≠ 0 := Heap.ne_zero_of_mem (Heap.mem_of_entries he)
  unfold skyValidateHandle skyAssert
  rw [if_neg hne]
  cases b.assertAborts with
  | false => exact (ends_pure ()).2 hq
  | true =>
    rw [if_pos rfl, ends_bind, ends_bind]
    refine ends_loadDll he ?_
    rw [ends_pure]
    exact (ends_pure ()).2 hq

theorem ends_modifyDll {dll : Addr} {d : SkyHandleDll} {F : Ledger SkyHandleDll}
    {f : SkyHandleDll → SkyHandleDll} {Q : Unit → Process → Prop}
    (he : p.heap.entries = cell dll d + F)
    (hq : ∀ h : Heap SkyHandleDll, h.entries = cell dll (f d) + F → Q () { p with heap := h }) :
    Ends (modifyDll dll f) p Q := by
  unfold modifyDll
  rw [ends_bind]
  exact ends_onHeap (Ends.load he (ends_onHeap (Ends.store he fun h e _ => hq h e)))

theorem dlclose_open {lib : Addr} (h : lib ∈ p.opened) :
    dlclose lib p = .ok ((), { p with opened := p.opened.erase lib }) := if_pos h

theorem dlsym_open {lib : Addr} (h : lib ∈ p.opened) (funcName : CStr) :
    dlsym L lib funcName p = .ok (L.dlsym lib funcName, p) := if_pos h

/-! ## The operations -/

theorem skyDllLoad_ends {libs : Multiset (Addr × Addr)} (H : Holds libs w)
    (dllName : Option CStr) :
    Ends (World.step A L b (.load dllName)) w fun _ w' => ∃ libs', Holds libs' w' := by
  rw [World.step]
  refine ends_register ?_
  unfold skyDllLoad
  rw [ends_bind]
  refine ends_onHeap (Ends.malloc (fun h _ e _ => ?_) fun dll h _ hne e _ => ?_)
  · rw [if_pos rfl, ends_pure, if_pos rfl]
    exact ⟨libs, H.live, e.trans H.blocks, H.opened, H.proper⟩
  · rw [if_neg hne, ends_bind]
    refine ends_modifyDll e fun h1 e1 => ?_
    rw [ends_bind]
    refine (ends_of_eq rfl).2 ?_
    rw [ends_bind]
    refine ends_modifyDll e1 fun h2 e2 => ?_
    by_cases hlib : L.dlopen w.process.asked dllName = 0
    · rw [if_pos hlib, ends_bind]
      refine ends_onHeap (Ends.free e2 fun h3 e3 _ => ?_)
      rw [ends_pure, if_pos rfl]
      refine ⟨libs, H.live, e3.trans H.blocks, ?_, H.proper⟩
      show (if _ then _ else _) = _
      rw [if_pos hlib, H.opened]
    · rw [if_neg hlib, ends_pure, if_neg hne]
      refine ⟨(dll, L.dlopen w.process.asked dllName) ::ₘ libs, ?_, ?_, ?_, ?_⟩
      · rw [Multiset.map_cons, ← H.live]
      · rw [Multiset.map_cons, ← H.blocks, ← Multiset.singleton_add]
        exact e2
      · show (if _ then _ else _) = _
        rw [if_neg hlib, Multiset.map_cons, H.opened]
      · exact Multiset.forall_mem_cons.2 ⟨hlib, H.proper⟩

/-- The pair of a live handle, and the others. -/
theorem Holds.split {libs : Multiset (Addr × Addr)} (H : Holds libs w) {dll : Addr}
    (hm : dll ∈ w.live) : ∃ x rest, x.1 = dll ∧ libs = x ::ₘ rest ∧
      w.process.heap.entries = {loaded x} + rest.map loaded := by
  rw [H.live] at hm
  obtain ⟨x, hx, rfl⟩ := Multiset.mem_map.1 hm
  obtain ⟨rest, rfl⟩ := Multiset.exists_cons_of_mem hx
  exact ⟨x, rest, rfl, rfl, by rw [H.blocks, Multiset.map_cons, Multiset.singleton_add]⟩

theorem Holds.mem_opened {x : Addr × Addr} {rest : Multiset (Addr × Addr)}
    (H : Holds (x ::ₘ rest) w) : x.2 ∈ w.process.opened := by
  rw [H.opened, Multiset.map_cons]
  exact Multiset.mem_cons_self _ _

theorem skyDllGetFunction_ends {libs : Multiset (Addr × Addr)} (H : Holds libs w) {dll : Addr}
    (hm : dll ∈ w.live) (funcName : CStr) :
    Ends (World.step A L b (.getFunction dll funcName)) w fun _ w' => Holds libs w' := by
  obtain ⟨x, rest, rfl, rfl, he⟩ := H.split hm
  have hne : x.1 ≠ 0 := Heap.ne_zero_of_mem (Heap.mem_of_entries he)
  rw [World.step]
  refine ends_register ?_
  unfold skyDllGetFunction
  rw [ends_bind]
  refine ends_validate he ?_
  rw [if_neg hne, ends_bind]
  refine ends_loadDll he ?_
  exact (ends_of_eq (dlsym_open H.mem_opened funcName)).2 H

theorem skyDllClose_ends {libs : Multiset (Addr × Addr)} (H : Holds libs w) {dll : Addr}
    (hm : dll ∈ w.live) :
    Ends (World.step A L b (.close dll)) w fun _ w' => ∃ libs', Holds libs' w' := by
  obtain ⟨x, rest, rfl, rfl, he⟩ := H.split hm
  have hne : x.1 ≠ 0 := Heap.ne_zero_of_mem (Heap.mem_of_entries he)
  have hlib : x.2 ≠ 0 := H.proper x (Multiset.mem_cons_self x rest)
  rw [World.step]
  refine ends_register ?_
  unfold skyDllClose
  rw [ends_bind]
  refine ends_validate he ?_
  rw [if_pos hne, ends_bind]
  refine ends_loadDll he ?_
  rw [ends_bind, closeLib, if_pos (show (loaded x).2.dllHandle ≠ 0 from hlib)]
  refine (ends_of_eq (dlclose_open H.mem_opened)).2 ?_
  refine ends_onHeap (Ends.free he fun h e _ => ?_)
  refine ⟨rest, ?_, e, ?_, fun y hy => H.proper y (Multiset.mem_cons_of_mem hy)⟩
  · show w.live.erase x.1 = _
    rw [H.live, Multiset.map_cons, Multiset.erase_cons_head]
  · show w.process.opened.erase x.2 = _
    rw [H.opened, Multiset.map_cons, Multiset.erase_cons_head]

theorem step_holds {libs : Multiset (Addr × Addr)} (H : Holds libs w) {op : Op}
    (hv : op.Valid w) : Ends (World.step A L b op) w fun _ w' => ∃ libs', Holds libs' w' := by
  cases op with
  | load dllName => exact skyDllLoad_ends H dllName
  | getFunction dll funcName =>
    exact (skyDllGetFunction_ends H hv funcName).mono fun _ _ H' => ⟨libs, H'⟩
  | close dll => exact skyDllClose_ends H hv

/-! ## Runs -/

theorem holds_empty : Holds 0 World.empty where
  live := rfl
  blocks := rfl
  opened := rfl
  proper _ hx := absurd hx (Multiset.notMem_zero _)

theorem run_holds {ops : List Op}
    (hs : Steps (World.step A L b) Op.Valid World.empty ops w) : ∃ libs, Holds libs w := by
  refine Steps.inv (I := fun w => ∃ libs, Holds libs w) ?_ hs ⟨0, holds_empty⟩
  rintro w op r w' ⟨libs, H⟩ hv hx
  exact (step_holds H hv).result hx

theorem run_typed {ops : List Op} {dll : Addr} {d : SkyHandleDll}
    (hs : Steps (World.step A L b) Op.Valid World.empty ops w)
    (hd : w.process.heap.get? dll = some d) : d.handleType = SkyHandleType.dll.code := by
  obtain ⟨libs, H⟩ := run_holds hs
  have hmem := Heap.mem_entries.2 hd
  rw [H.blocks] at hmem
  obtain ⟨x, -, hx⟩ := Multiset.mem_map.1 hmem
  cases hx
  rfl

/-- After every run the blocks are the structs of the live handles, the loader has each library open
as often as it is the library of a live handle, and every operation on a live handle returns. -/
theorem run_libraries {ops : List Op}
    (hs : Steps (World.step A L b) Op.Valid World.empty ops w) :
    w.live.Nodup ∧ (∀ a, a ∈ w.process.heap.blocks ↔ a ∈ w.live) ∧
      w.process.opened = w.live.map (libOf w.process.heap) ∧
      (∀ dll ∈ w.live, libOf w.process.heap dll ≠ 0) ∧
      ∀ op, op.Valid w → ∃ w', World.step A L b op w = .ok ((), w') := by
  obtain ⟨libs, H⟩ := run_holds hs
  have hkeys : w.process.heap.entries.map Sigma.fst = w.live := by
    rw [H.blocks, H.live, Multiset.map_map]
    rfl
  have hlib : ∀ x ∈ libs, libOf w.process.heap x.1 = x.2 := by
    intro x hx
    have hmem : (⟨x.1, (loaded x).2⟩ : Σ _ : Addr, SkyHandleDll) ∈ w.process.heap.entries := by
      rw [H.blocks]
      exact Multiset.mem_map_of_mem loaded hx
    rw [libOf, Heap.mem_entries.1 hmem]
    rfl
  refine ⟨?_, fun a => ?_, ?_, fun dll hm => ?_, fun op hv => ?_⟩
  · rw [← hkeys]
    exact w.process.heap.keys_nodup
  · rw [Heap.mem_blocks_iff_entries, hkeys]
  · rw [H.opened, H.live, Multiset.map_map]
    exact Multiset.map_congr rfl fun x hx => (hlib x hx).symm
  · rw [H.live] at hm
    obtain ⟨x, hx, rfl⟩ := Multiset.mem_map.1 hm
    rw [hlib x hx]
    exact H.proper x hx
  · obtain ⟨u, w', hx, -⟩ := step_holds H hv
    exact ⟨w', hx⟩

/-- One library that is loaded twice. -/
theorem run_libraries_twice : ∃ w : World, w.process.opened = {9, 9} ∧
    w.process.opened = w.live.map (libOf w.process.heap) ∧ w.live.Nodup := by
  obtain ⟨w, hs, hopened⟩ : ∃ w : World, Steps
      (World.step (.bump fun _ => true) ⟨fun _ _ => 9, fun _ _ => 0⟩ ⟨0, true⟩) Op.Valid World.empty
      [.load none, .load none] w ∧ w.process.opened = {9, 9} :=
    ⟨_, .cons trivial rfl (.cons trivial rfl (.nil _)), rfl⟩
  obtain ⟨hnodup, -, hledger, -⟩ := run_libraries hs
  exact ⟨w, hopened, hledger, hnodup⟩

end Sky.Dll
