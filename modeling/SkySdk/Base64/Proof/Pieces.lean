import SkySdk.Base64.Proof.Encode
import SkySdk.Base64.Proof.Decode

/-!
# Base64 of a stream

One side encodes a stream in pieces and writes the results behind one another, the other side cuts
the text anywhere between two groups of four and decodes piece by piece. It gets the stream back if
each piece that was encoded, but the last, is whole groups of three (`decodePieces_encodePieces`).
-/

set_option autoImplicit false

namespace Sky.Base64

open Base

/-- The results of the encoder for one piece after the other. -/
def encodePieces : List (List UInt8) → Except Fault (List UInt8)
  | [] => .ok []
  | x :: xs => do
    let (s, _) ← skyBase64Encode true x (.ofNat x.length) (some 0)
    pure (s.getD [] ++ (← encodePieces xs))

/-- The results of the decoder for one piece after the other. -/
def decodePieces (table : List UInt8) : List (List UInt8) → Except Fault (List UInt8)
  | [] => .ok []
  | s :: ss => do
    let (x, _) ← skyBase64Decode true table s (.ofNat s.length) (some 0)
    pure (x.getD [] ++ (← decodePieces table ss))

/-- A piece of the text that the decoder takes. -/
structure Cut (s : List UInt8) : Prop where
  nonempty : s ≠ []
  whole : s.length % 4 = 0
  short : s.length < 2 ^ 31

/-- Whole groups are encoded apart from what is behind them. -/
theorem encodeGroups_append {ys : List UInt8} : ∀ xs : List UInt8, xs.length % 3 = 0 →
    encodeGroups (xs ++ ys) = encodeGroups xs ++ encodeGroups ys
  | [], _ => rfl
  | [_], h => absurd h (by simp)
  | [_, _], h => absurd h (by simp)
  | a :: b :: c :: xs, h => by
    have h3 : xs.length % 3 = 0 := by
      simp only [List.length_cons] at h
      omega
    rw [List.cons_append, List.cons_append, List.cons_append, encodeGroups, encodeGroups,
      encodeGroups_append xs h3, List.append_assoc]

theorem encodePieces_eq : ∀ xs : List (List UInt8),
    (∀ x ∈ xs, 4 * ((x.length + 2) / 3) < 2 ^ 31) → (∀ x ∈ xs.dropLast, x.length % 3 = 0) →
      encodePieces xs = .ok (encodeGroups xs.flatten)
  | [], _, _ => rfl
  | [x], hshort, _ => by
    obtain ⟨n, -, henc⟩ := skyBase64Encode_eq 0 (hshort x List.mem_cons_self)
    simp only [encodePieces, henc, bind, Except.bind, List.flatten_cons, List.flatten_nil,
      List.append_nil]
    rfl
  | x :: x' :: xs, hshort, hwhole => by
    obtain ⟨hx, hxs⟩ := List.forall_mem_cons.1 hshort
    rw [List.dropLast_cons_of_ne_nil (List.cons_ne_nil x' xs)] at hwhole
    obtain ⟨h3, hwhole⟩ := List.forall_mem_cons.1 hwhole
    obtain ⟨n, -, henc⟩ := skyBase64Encode_eq 0 hx
    have hflat : (x :: x' :: xs).flatten = x ++ (x' :: xs).flatten := rfl
    rw [encodePieces, henc, ok_bind, encodePieces_eq (x' :: xs) hxs hwhole, hflat,
      encodeGroups_append x h3]
    rfl

/-- An encoding that is one piece. -/
theorem decode_groups {table x : List UInt8} (ht : Decodes base64EncodingTable table)
    (hs : Cut (encodeGroups x)) : ∃ n : UInt32,
      skyBase64Decode true table (encodeGroups x) (.ofNat (encodeGroups x).length) (some 0) =
        .ok (some x, some n) := by
  have hne : x ≠ [] := by
    rintro rfl
    exact hs.nonempty rfl
  obtain ⟨n, -, hdec⟩ := skyBase64Decode_eq ht 0 hs.nonempty hs.whole hs.short
  rw [decodedLength_encodeGroups x hne, decodeGroups_encodeGroups, List.take_left] at hdec
  exact ⟨n, hdec⟩

/-- A cut between two groups of characters is one between two groups of octets. -/
theorem encodeGroups_split {x s t : List UInt8} (hs : s.length % 4 = 0) (ht : t ≠ [])
    (h : s ++ t = encodeGroups x) :
    ∃ y z, x = y ++ z ∧ s = encodeGroups y ∧ t = encodeGroups z := by
  have hlen := congrArg List.length h
  have hpos := List.length_pos_iff.2 ht
  rw [List.length_append, length_encodeGroups] at hlen
  obtain ⟨k, hk⟩ : ∃ k, s.length = 4 * k := ⟨s.length / 4, by omega⟩
  have hfits : 3 * k ≤ x.length := by omega
  have hfront : (x.take (3 * k)).length = 3 * k := by
    rw [List.length_take]
    omega
  have hsplit : encodeGroups (x.take (3 * k) ++ x.drop (3 * k)) = _ :=
    encodeGroups_append (x.take (3 * k)) (by omega)
  rw [List.take_append_drop, ← h] at hsplit
  have hfrontlen : s.length = (encodeGroups (x.take (3 * k))).length := by
    rw [length_encodeGroups, hfront]
    omega
  obtain ⟨hfst, hsnd⟩ := List.append_inj hsplit hfrontlen
  exact ⟨_, _, (List.take_append_drop (3 * k) x).symm, hfst, hsnd⟩

theorem decodePieces_eq {table : List UInt8} (ht : Decodes base64EncodingTable table) :
    ∀ (ss : List (List UInt8)) (x : List UInt8), (∀ s ∈ ss, Cut s) →
      ss.flatten = encodeGroups x → decodePieces table ss = .ok x
  | [], x, _, h => by
    have hlen := length_encodeGroups x
    rw [← h, List.flatten_nil, List.length_nil] at hlen
    have hx : x = [] := List.length_eq_zero_iff.1 (by omega)
    rw [hx, decodePieces]
  | [s], x, hcut, h => by
    rw [List.flatten_cons, List.flatten_nil, List.append_nil] at h
    subst h
    obtain ⟨n, hdec⟩ := decode_groups ht (hcut _ List.mem_cons_self)
    simp only [decodePieces, hdec, bind, Except.bind]
    exact congrArg Except.ok (List.append_nil x)
  | s :: s' :: ss, x, hcut, h => by
    obtain ⟨hs, hss⟩ := List.forall_mem_cons.1 hcut
    have hne : (s' :: ss).flatten ≠ [] := by
      rw [List.flatten_cons]
      exact List.append_ne_nil_of_left_ne_nil (hss s' List.mem_cons_self).nonempty _
    rw [List.flatten_cons] at h
    obtain ⟨y, z, rfl, rfl, hrest⟩ := encodeGroups_split hs.whole hne h
    obtain ⟨n, hdec⟩ := decode_groups ht hs
    have hrest := decodePieces_eq ht (s' :: ss) z hss hrest
    rw [decodePieces, hdec, ok_bind, hrest]
    rfl

theorem decodePieces_encodePieces {xs ss : List (List UInt8)}
    (hshort : ∀ x ∈ xs, 4 * ((x.length + 2) / 3) < 2 ^ 31)
    (hwhole : ∀ x ∈ xs.dropLast, x.length % 3 = 0) (hcut : ∀ s ∈ ss, Cut s)
    (h : encodePieces xs = .ok ss.flatten) :
    (do decodePieces (← skyBase64Init) ss) = .ok xs.flatten := by
  obtain ⟨table, hinit, ht⟩ := skyBase64Init_decodes
  rw [encodePieces_eq xs hshort hwhole] at h
  rw [hinit, ok_bind]
  exact decodePieces_eq ht ss _ hcut (Except.ok.inj h).symm

/-- "Man!", written as "Man" and "!". -/
theorem decodePieces_encodePieces_man : ∃ s : List UInt8,
    encodePieces [[77, 97, 110], [33]] = .ok s ∧
      (do decodePieces (← skyBase64Init) [s]) = .ok [77, 97, 110, 33] := by
  have hshort : ∀ x ∈ [[77, 97, 110], [(33 : UInt8)]], 4 * ((x.length + 2) / 3) < 2 ^ 31 := by
    decide
  have henc := encodePieces_eq [[77, 97, 110], [33]] hshort (by decide)
  have hflat : [encodeGroups [77, 97, 110, 33]].flatten = encodeGroups [77, 97, 110, 33] :=
    List.append_nil _
  have hcut : ∀ s ∈ [encodeGroups [77, 97, 110, 33]], Cut s :=
    List.forall_mem_singleton.2 ⟨by decide, by decide, by decide⟩
  exact ⟨_, henc, decodePieces_encodePieces hshort (by decide) hcut (hflat ▸ henc)⟩

end Sky.Base64
