import SkySdk.Base64.Defs

/-!
# Base64 by groups

Three octets are 24 bits, and so are four sextets: `sextetOf` and `octetOf` cut a number below 2^24
into the one or the other. `encodeGroups` writes each group of octets as four characters, the last
group padded; `decodeGroups` reads each group of characters as three octets.
-/

set_option autoImplicit false

namespace Sky.Base64

open Base

/-- The 24 bits of three octets. -/
def ofOctets (a b c : UInt8) : Nat := a.toNat * 2 ^ 16 + b.toNat * 2 ^ 8 + c.toNat

/-- The 24 bits of four sextets. -/
def ofSextets (a b c d : Nat) : Nat := a * 2 ^ 18 + b * 2 ^ 12 + c * 2 ^ 6 + d

/-- The sextet of `t` that `k` others follow. -/
def sextetOf (t k : Nat) : Nat := t / 2 ^ (6 * k) % 64

/-- The octet of `t` that `k` others follow. -/
def octetOf (t k : Nat) : UInt8 := .ofNat (t / 2 ^ (8 * k) % 256)

/-- The character of a sextet. -/
def charOf (sextet : Nat) : UInt8 := base64EncodingTable[sextet % 64]?.getD padChar

/-- The value of a character; `=` and the characters outside of the alphabet count as 0. -/
def valueOf (c : UInt8) : Nat := if c ∈ base64EncodingTable then base64EncodingTable.idxOf c else 0

/-- The four characters of 24 bits. -/
def quad (t : Nat) : List UInt8 :=
  [charOf (sextetOf t 3), charOf (sextetOf t 2), charOf (sextetOf t 1), charOf (sextetOf t 0)]

/-- The characters before padding: a missing octet counts as 0. -/
def rawGroups : List UInt8 → List UInt8
  | [] => []
  | [a] => quad (ofOctets a 0 0)
  | [a, b] => quad (ofOctets a b 0)
  | a :: b :: c :: xs => quad (ofOctets a b c) ++ rawGroups xs

def encodeGroups : List UInt8 → List UInt8
  | [] => []
  | [a] => (quad (ofOctets a 0 0)).take 2 ++ [padChar, padChar]
  | [a, b] => (quad (ofOctets a b 0)).take 3 ++ [padChar]
  | a :: b :: c :: xs => quad (ofOctets a b c) ++ encodeGroups xs

def decodeGroups : List UInt8 → List UInt8
  | a :: b :: c :: d :: cs =>
    let t := ofSextets (valueOf a) (valueOf b) (valueOf c) (valueOf d)
    [octetOf t 2, octetOf t 1, octetOf t 0] ++ decodeGroups cs
  | _ => []

/-- The number of padding characters for `n` octets. -/
def padCount (n : Nat) : Nat := (3 - n % 3) % 3

/-! ## The alphabet -/

theorem nodup_table : base64EncodingTable.Nodup := by decide

theorem padChar_notMem : padChar ∉ base64EncodingTable := by decide

theorem charOf_mem (s : Nat) : charOf s ∈ base64EncodingTable := by
  have hs : s % 64 < base64EncodingTable.length := Nat.mod_lt s (by decide)
  rw [charOf, List.getElem?_eq_getElem hs]
  exact List.getElem_mem hs

theorem charOf_ne_padChar (s : Nat) : charOf s ≠ padChar := by
  intro hs
  exact padChar_notMem (hs ▸ charOf_mem s)

@[simp] theorem valueOf_charOf (s : Nat) : valueOf (charOf s) = s % 64 := by
  have hs : s % 64 < base64EncodingTable.length := Nat.mod_lt s (by decide)
  have hc : charOf s = base64EncodingTable[s % 64] := by
    rw [charOf, List.getElem?_eq_getElem hs]
    rfl
  rw [valueOf, if_pos (charOf_mem s), hc]
  exact nodup_table.idxOf_getElem _ hs

@[simp] theorem valueOf_padChar : valueOf padChar = 0 := if_neg padChar_notMem

theorem charOf_valueOf {c : UInt8} (hc : c ∈ base64EncodingTable) : charOf (valueOf c) = c := by
  have hi : base64EncodingTable.idxOf c < base64EncodingTable.length :=
    List.idxOf_lt_length_of_mem hc
  have hmod : base64EncodingTable.idxOf c % 64 = base64EncodingTable.idxOf c := Nat.mod_eq_of_lt hi
  rw [valueOf, if_pos hc, charOf, hmod, List.getElem?_eq_getElem hi, List.getElem_idxOf hi]
  rfl

theorem valueOf_lt (c : UInt8) : valueOf c < 64 := by
  unfold valueOf
  split
  · exact List.idxOf_lt_length_of_mem ‹_›
  · decide

/-! ## Bits -/

theorem ofOctets_lt (a b c : UInt8) : ofOctets a b c < 2 ^ 24 := by
  have ha := a.toNat_lt
  have hb := b.toNat_lt
  have hc := c.toNat_lt
  unfold ofOctets
  omega

/-- Sextets put together are what they were cut from. -/
theorem ofSextets_sextetOf {t : Nat} (ht : t < 2 ^ 24) :
    ofSextets (sextetOf t 3) (sextetOf t 2) (sextetOf t 1) (sextetOf t 0) = t := by
  unfold ofSextets sextetOf
  omega

theorem octetOf_ofOctets (a b c : UInt8) : octetOf (ofOctets a b c) 2 = a ∧
    octetOf (ofOctets a b c) 1 = b ∧ octetOf (ofOctets a b c) 0 = c := by
  have ha := a.toNat_lt
  have hb := b.toNat_lt
  have hc := c.toNat_lt
  have h2 : ofOctets a b c / 2 ^ (8 * 2) % 256 = a.toNat := by
    unfold ofOctets
    omega
  have h1 : ofOctets a b c / 2 ^ (8 * 1) % 256 = b.toNat := by
    unfold ofOctets
    omega
  have h0 : ofOctets a b c / 2 ^ (8 * 0) % 256 = c.toNat := by
    unfold ofOctets
    omega
  unfold octetOf
  rw [h2, h1, h0]
  simp

theorem ofSextets_lt {a b c d : Nat} (ha : a < 64) (hb : b < 64) (hc : c < 64) (hd : d < 64) :
    ofSextets a b c d < 2 ^ 24 := by
  unfold ofSextets
  omega

theorem sextetOf_ofSextets {a b c d : Nat} (ha : a < 64) (hb : b < 64) (hc : c < 64)
    (hd : d < 64) : sextetOf (ofSextets a b c d) 3 = a ∧ sextetOf (ofSextets a b c d) 2 = b ∧
      sextetOf (ofSextets a b c d) 1 = c ∧ sextetOf (ofSextets a b c d) 0 = d := by
  have h3 : sextetOf (ofSextets a b c d) 3 = a := by
    unfold sextetOf ofSextets
    omega
  have h2 : sextetOf (ofSextets a b c d) 2 = b := by
    unfold sextetOf ofSextets
    omega
  have h1 : sextetOf (ofSextets a b c d) 1 = c := by
    unfold sextetOf ofSextets
    omega
  have h0 : sextetOf (ofSextets a b c d) 0 = d := by
    unfold sextetOf ofSextets
    omega
  exact ⟨h3, h2, h1, h0⟩

theorem octetOf_eq_zero {t k : Nat} (h : t / 2 ^ (8 * k) % 256 = 0) : octetOf t k = 0 := by
  rw [octetOf, h]
  rfl

/-- Octets put together are what they were cut from. -/
theorem ofOctets_octetOf {t : Nat} (ht : t < 2 ^ 24) :
    ofOctets (octetOf t 2) (octetOf t 1) (octetOf t 0) = t := by
  have hoct : ∀ k, (octetOf t k).toNat = t / 2 ^ (8 * k) % 256 := by
    intro k
    exact UInt8.toNat_ofNat_of_lt' (Nat.mod_lt _ (by decide))
  unfold ofOctets
  rw [hoct, hoct, hoct]
  omega

/-- A missing octet leaves the last sextets 0. -/
theorem sextetOf_ofOctets_zero (a b : UInt8) :
    sextetOf (ofOctets a b 0) 0 = 0 ∧ sextetOf (ofOctets a 0 0) 1 = 0 := by
  constructor
  · unfold sextetOf ofOctets
    simp only [UInt8.toNat_zero]
    omega
  · unfold sextetOf ofOctets
    simp only [UInt8.toNat_zero]
    omega

/-! ## Groups -/

theorem length_quad (t : Nat) : (quad t).length = 4 := rfl

/-- Four sextets are the characters of the three octets they are cut into. -/
theorem quad_octets {a b c d t : Nat} (ha : a < 64) (hb : b < 64) (hc : c < 64) (hd : d < 64)
    (ht : t = ofSextets a b c d) : quad (ofOctets (octetOf t 2) (octetOf t 1) (octetOf t 0)) =
      [charOf a, charOf b, charOf c, charOf d] := by
  obtain ⟨h3, h2, h1, h0⟩ := sextetOf_ofSextets ha hb hc hd
  rw [ht, ofOctets_octetOf (ofSextets_lt ha hb hc hd), quad, h3, h2, h1, h0]

theorem length_rawGroups (xs : List UInt8) : (rawGroups xs).length = 4 * ((xs.length + 2) / 3) := by
  induction xs using rawGroups.induct with
  | case1 => rfl
  | case2 a => simp [rawGroups, quad]
  | case3 a b => simp [rawGroups, quad]
  | case4 a b c xs ih =>
    simp only [rawGroups, List.length_append, length_quad, ih, List.length_cons]
    omega

theorem length_encodeGroups (xs : List UInt8) :
    (encodeGroups xs).length = 4 * ((xs.length + 2) / 3) := by
  induction xs using encodeGroups.induct with
  | case1 => rfl
  | case2 a => simp [encodeGroups, quad]
  | case3 a b => simp [encodeGroups, quad]
  | case4 a b c xs ih =>
    simp only [encodeGroups, List.length_append, length_quad, ih, List.length_cons]
    omega

theorem padCount_add (n : Nat) : padCount (n + 3) = padCount n := by
  simp [padCount]

/-- Padding overwrites the last characters. -/
theorem encodeGroups_eq (xs : List UInt8) : encodeGroups xs =
    (rawGroups xs).take ((rawGroups xs).length - padCount xs.length) ++
      List.replicate (padCount xs.length) padChar := by
  induction xs using encodeGroups.induct with
  | case1 => rfl
  | case2 a => rfl
  | case3 a b => rfl
  | case4 a b c xs ih =>
    have hpad : padCount xs.length ≤ (rawGroups xs).length := by
      rw [length_rawGroups]
      unfold padCount
      omega
    have hlen : (quad (ofOctets a b c) ++ rawGroups xs).length - padCount xs.length =
        (quad (ofOctets a b c)).length + ((rawGroups xs).length - padCount xs.length) := by
      rw [List.length_append]
      omega
    rw [encodeGroups, rawGroups, List.length_cons, List.length_cons, List.length_cons,
      padCount_add, hlen, List.take_length_add_append, List.append_assoc, ← ih]

/-- What is left behind the groups. -/
theorem length_lt_four : ∀ cs : List UInt8,
    (∀ a b c d cs', cs = a :: b :: c :: d :: cs' → False) → cs.length < 4
  | [], _ => by decide
  | [_], _ => Nat.succ_lt_succ (by decide)
  | [_, _], _ => Nat.succ_lt_succ (Nat.succ_lt_succ (by decide))
  | [_, _, _], _ => Nat.lt_succ_self 3
  | a :: b :: c :: d :: cs, hcs => (hcs a b c d cs rfl).elim

/-- Reading the groups back: the octets, and 0 for each missing one. -/
theorem decodeGroups_encodeGroups (xs : List UInt8) :
    decodeGroups (encodeGroups xs) = xs ++ List.replicate (padCount xs.length) 0 := by
  have hmod : ∀ t k, sextetOf t k % 64 = sextetOf t k := fun t k => Nat.mod_mod _ _
  induction xs using encodeGroups.induct with
  | case1 => rfl
  | case2 a =>
    obtain ⟨h0, h1⟩ := sextetOf_ofOctets_zero a 0
    have ht := ofSextets_sextetOf (ofOctets_lt a 0 0)
    rw [h0, h1] at ht
    obtain ⟨ha, hb, hc⟩ := octetOf_ofOctets a 0 0
    simp only [encodeGroups, quad, List.take_succ_cons, List.take_zero, List.cons_append,
      List.nil_append, decodeGroups, valueOf_charOf, valueOf_padChar, hmod, ht, ha, hb, hc]
    rfl
  | case3 a b =>
    obtain ⟨h0, -⟩ := sextetOf_ofOctets_zero a b
    have ht := ofSextets_sextetOf (ofOctets_lt a b 0)
    rw [h0] at ht
    obtain ⟨ha, hb, hc⟩ := octetOf_ofOctets a b 0
    simp only [encodeGroups, quad, List.take_succ_cons, List.take_zero, List.cons_append,
      List.nil_append, decodeGroups, valueOf_charOf, valueOf_padChar, hmod, ht, ha, hb, hc]
    rfl
  | case4 a b c xs ih =>
    have ht := ofSextets_sextetOf (ofOctets_lt a b c)
    obtain ⟨ha, hb, hc⟩ := octetOf_ofOctets a b c
    simp only [encodeGroups, quad, List.cons_append, List.nil_append, decodeGroups, valueOf_charOf,
      hmod, ht, ha, hb, hc, ih, List.length_cons, padCount_add]

end Sky.Base64
