import SkySdk.Handle.Reachable
import SkySdk.Map.Proof.Run

/-!
# Which destroy function is called

Seven kinds of object keep the header they were created with. A map has none: what is read is a part
of its `keys` pointer (`closeHandle_map`).
-/

set_option autoImplicit false

namespace Sky.Handle

open Base

variable {o : Object}

theorem closeSwitch_own (o : Object) : closeSwitch o.type.code = [o.own] := by
  cases o <;> rfl

theorem closeSwitch_map {t : UInt16} :
    closeSwitch t = [.skyMapDestroy] ↔ t = SkyHandleType.map.code := by
  constructor
  · unfold closeSwitch
    repeat' split
    all_goals simp_all
  · rintro rfl
    rfl

/-- What is read of an object with a header is the type in it. -/
theorem closeHandle_header {t : UInt16} (ho : o.header = some t) :
    skyCloseHandle o.bytes = .ok (closeSwitch t) := by
  have hread : readU16 o.bytes 2 = .ok t := by
    cases o with
    | map d callback => cases ho
    | _ =>
      cases ho
      exact readU16_place _ _ _
  rw [skyCloseHandle, hread]
  rfl

/-- What is read of a map are the bits 16 to 31 of its `keys` pointer. -/
theorem closeHandle_map (d : Map.SkyHandleMap) (callback : Addr) :
    skyCloseHandle (Object.map d callback).bytes =
      .ok (closeSwitch (.ofNat (d.keys / 2 ^ 16))) := by
  have hread := readU16_leBytes 2 4 d.keys (place 8 [.word d.values, .word d.count, .word callback])
  rw [skyCloseHandle, Object.bytes, Object.fields, mapFields,
    place_aligned _ _ (Nat.zero_mod _)]
  exact congrArg (fun r => r >>= fun type => pure (closeSwitch type)) hread

/-- On every object, in every state it can be brought to, `sky_close_handle` calls the object's own
destroy function and no other if and only if the object is not a map, or the bits 16 to 31 of the
map's `keys` pointer are the handle type of a map. -/
theorem closeHandle_own_iff (o : Object) (h : Reachable o) :
    skyCloseHandle o.bytes = .ok [o.own] ↔
      ∀ d callback, o = .map d callback → d.keys / 2 ^ 16 % 2 ^ 16 = 9 := by
  rcases h.header with ho | ⟨d, callback, rfl⟩
  · refine iff_of_true ?_ ?_
    · rw [closeHandle_header ho, closeSwitch_own]
    · rintro d callback rfl
      cases ho
  · have hcode : (UInt16.ofNat (d.keys / 2 ^ 16) = SkyHandleType.map.code) ↔
        d.keys / 2 ^ 16 % 2 ^ 16 = 9 := by
      rw [← UInt16.toNat_inj, UInt16.toNat_ofNat']
      rfl
    rw [closeHandle_map, Object.own]
    constructor
    · intro hx d' callback' hd
      cases hd
      exact hcode.1 (closeSwitch_map.1 (Except.ok.inj hx))
    · intro hx
      rw [closeSwitch_map.2 (hcode.2 (hx d callback rfl))]

/-- A map that was just created has no keys, and nothing is destroyed. -/
theorem closeHandle_new_map : ∃ m h d, Map.skyMapCreate LinkedList.granting none Heap.empty =
      .ok (m, h) ∧ h.get? m = some (.map d) ∧
    Reachable (.map d 0) ∧ skyCloseHandle (Object.map d 0).bytes = .ok [] := by
  obtain ⟨m, h, hc, H⟩ := Map.exists_create (A := LinkedList.granting) (h := Heap.empty) none rfl
  have hm : m ≠ 0 := H.ne_zero
  have hg : h.get? m = some (.map ⟨0, 0, 0, none⟩) := H.get
  refine ⟨m, h, _, hc, hg, .map 0 hc hm (.nil h) hg, ?_⟩
  rw [closeHandle_map]
  rfl

/-- A list that was just created is closed by its own function. -/
theorem closeHandle_new_list : ∃ l h s,
    LinkedList.skyListCreate LinkedList.granting LinkedList.plainBuild 1 .empty = .ok (l, h) ∧
      h.get? l = some (.list s) ∧
      skyCloseHandle (Object.list s).bytes = .ok [.skyListDestroy] := by
  obtain ⟨l, h, hc, hl⟩ : ∃ l h, LinkedList.skyListCreate LinkedList.granting
      LinkedList.plainBuild 1 .empty = .ok (l, h) ∧ l ≠ 0 :=
    LinkedList.exists_create (by decide) fun _ _ => rfl
  obtain ⟨xs, ps, S⟩ := LinkedList.reach_shape hc hl (.nil h)
  refine ⟨l, h, _, hc, S.get_struct, ?_⟩
  exact (closeHandle_own_iff _ (.list hc hl (.nil h) S.get_struct)).2 fun _ _ hm => by cases hm

end Sky.Handle
