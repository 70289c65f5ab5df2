import SkySdk.Des.Proof.Calls
import Mathlib.Logic.Equiv.Basic

/-!
# Decryption undoes encryption

`desCryptCbc_inverse`: the call in the other mode gives the buffer back, whatever the length and the
result, if the key and the `ivec` come to the same eight octets. `desCryptEcb_pieces`: with ECB a
buffer that one side passes in pieces is given back by the other side with pieces of its own.
-/

set_option autoImplicit false

namespace Sky.Des

open Base

variable {D : Cipher} {key key' ivec ivec' data data' : List UInt8} {len : UInt32} {mode : Mode}

instance (n : Nat) : Decidable (Legal n) := inferInstanceAs (Decidable (_ ∧ _))

instance (s : List UInt8) : Decidable (Readable s) := inferInstanceAs (Decidable (_ ∨ _))

theorem under_congr (hk : eight key' = eight key) : D.under key' = D.under key := by
  rw [Cipher.under, hk, Cipher.under]

theorem Legal.blocks {n : Nat} (h : Legal n) : n / 8 * 8 = n :=
  Nat.div_mul_cancel (Nat.dvd_of_mod_eq_zero h.1)

theorem desCryptCbc_inverse {rc : Int} (hk : eight key' = eight key) (hi : eight ivec' = eight ivec)
    (hreadk : Readable key') (hreadi : Readable ivec')
    (h : desCryptCbc D key data len ivec mode = .ok (rc, data')) :
    desCryptCbc D key' data' len ivec' mode.inverse = .ok (rc, data) ∧
      rc = (if Legal len.toNat then 0 else -3) ∧ (rc ≠ 0 → data' = data) ∧
      data'.length = data.length ∧ data'.drop len.toNat = data.drop len.toNat := by
  obtain ⟨hkey, hivec, hlen⟩ := desCryptCbc_returned h
  by_cases hl : Legal len.toNat
  · have hb := hlen hl
    have hm := le_of_blocks hb
    have h8 := length_eight ivec
    rw [desCryptCbc_legal hkey hivec hl hb] at h
    obtain ⟨rfl, rfl⟩ : 0 = rc ∧
        cbc mode (D.under key) (len.toNat / 8) (eight ivec) data = data' := by simpa using h
    have hsame := length_cbc mode (D.under key) _ h8 hm
    refine ⟨?_, (if_pos hl).symm, fun hne => absurd rfl hne, hsame, ?_⟩
    · rw [desCryptCbc_legal hreadk hreadi hl (by omega), under_congr hk, hi,
        cbc_inverse mode _ _ h8 hm]
    · have hrest := drop_cbc mode (D.under key) _ h8 hm
      rwa [hl.blocks] at hrest
  · rw [desCryptCbc_illegal hkey hivec hl] at h
    obtain ⟨rfl, rfl⟩ : -3 = rc ∧ data = data' := by simpa using h
    exact ⟨desCryptCbc_illegal hreadk hreadi hl, (if_neg hl).symm, fun _ => rfl, rfl, rfl⟩

/-- The parity that makes an octet odd. -/
def oddParity (c : UInt8) : UInt8 :=
  if ((List.range 7).countP fun i => c.toNat.testBit (i + 1)) % 2 = 0 then c ||| 1 else c &&& 0xFE

theorem length_swap {b c x : List UInt8} (hb : b.length = 8) (hc : c.length = 8)
    (hx : x.length = 8) : (Equiv.swap b c x).length = 8 := by
  rw [Equiv.swap_apply_def]
  split
  · exact hc
  · split
    · exact hb
    · exact hx

/-- Two blocks changed for each other. -/
def swapBlocks (b c : List UInt8) (hb : b.length = 8) (hc : c.length = 8) : BlockPerm UInt8 8 where
  forth := Equiv.swap b c
  back := Equiv.swap b c
  length_forth _ hx := length_swap hb hc hx
  length_back _ hx := length_swap hb hc hx
  back_forth x _ := Equiv.swap_apply_self b c x
  forth_back x _ := Equiv.swap_apply_self b c x

def zeroBlock : List UInt8 := List.replicate 8 0

/-- `zeroBlock` under the key of eight ones. -/
def zeroCipher : List UInt8 := [0x8C, 0xA6, 0x4D, 0xE9, 0xC1, 0xB1, 0x23, 0xA7]

theorem length_zeroBlock : zeroBlock.length = 8 := rfl

theorem length_zeroCipher : zeroCipher.length = 8 := rfl

/-- DES as far as `zeroBlock` goes, with the empty string as the key. -/
def zeroDes : Cipher where
  setparity := oddParity
  block _ := swapBlocks zeroBlock zeroCipher length_zeroBlock length_zeroCipher
  hardware := false

/-- Two blocks that differ, and come to the same cipher block. -/
theorem desCryptCbc_inverse_two :
    desCryptCbc zeroDes [0] (zeroBlock ++ zeroCipher) 16 [0] .encrypt =
        .ok (0, zeroCipher ++ zeroCipher) ∧
      desCryptCbc zeroDes [0, 65] (zeroCipher ++ zeroCipher) 16 [0] .decrypt =
        .ok (0, zeroBlock ++ zeroCipher) :=
  have he : desCryptCbc zeroDes [0] (zeroBlock ++ zeroCipher) 16 [0] .encrypt =
    .ok (0, zeroCipher ++ zeroCipher) := by decide
  have hkey : eight [0, 65] = eight [0] := by decide
  ⟨he, (desCryptCbc_inverse hkey rfl (by decide) (by decide) he).1⟩

/-! ## ECB -/

/-- Calls on one piece after the other of `data`: their results, and the octets after them. -/
def inPieces (D : Cipher) (key : List UInt8) (mode : Mode) :
    List UInt32 → List UInt8 → Except Fault (List Int × List UInt8)
  | [], data => .ok ([], data)
  | len :: lens, data => do
    let (rc, out) ← desCryptEcb D key (some data) len mode
    let (rcs, rest) ← inPieces D key mode lens ((out.getD []).drop len.toNat)
    pure (rc :: rcs, (out.getD []).take len.toNat ++ rest)

/-- How many octets the pieces have. -/
def total : List UInt32 → Nat
  | [] => 0
  | len :: lens => len.toNat + total lens

theorem total_cons (len : UInt32) (lens : List UInt32) :
    total (len :: lens) = len.toNat + total lens := rfl

theorem total_div {lens : List UInt32} (hl : Legal len.toNat) :
    total (len :: lens) / 8 = len.toNat / 8 + total lens / 8 := by
  have h8 := hl.1
  rw [total_cons]
  omega

/-- The pieces come to the mode on the whole. -/
theorem inPieces_eq (hk : Readable key) : ∀ (lens : List UInt32) (data : List UInt8),
    (∀ len ∈ lens, Legal len.toNat) → total lens ≤ data.length →
      inPieces D key mode lens data = .ok (List.replicate lens.length 0,
        ecb 8 (mode.block (D.under key)) (total lens / 8) data)
  | [], _, _, _ => rfl
  | len :: lens, data, hl, hb => by
    obtain ⟨hlen, hlens⟩ := List.forall_mem_cons.1 hl
    have hcons := total_cons len lens
    have hm : len.toNat / 8 * 8 ≤ data.length := le_of_blocks (by omega)
    have hfirst : (data.take len.toNat).length = len.toNat := by
      rw [List.length_take]
      omega
    have hsplit : ecb 8 (mode.block (D.under key)) (len.toNat / 8 + 0) data = _ :=
      ecb_add 0 _ data hm
    rw [ecb, hlen.blocks] at hsplit
    have hout : (ecb 8 (mode.block (D.under key)) (len.toNat / 8)
        (data.take len.toNat)).length = len.toNat :=
      (length_ecb (mode.length_block _) _ _
        (Nat.le_of_eq (hlen.blocks.trans hfirst.symm))).trans hfirst
    have hrest := inPieces_eq hk lens (data.drop len.toNat) hlens (by rw [List.length_drop]; omega)
    have hcall : desCryptEcb D key (some data) len mode = _ :=
      desCryptEcb_legal mode hk hlen (by omega)
    rw [← Nat.add_zero (len.toNat / 8), hsplit] at hcall
    simp only [inPieces, hcall, bind, Except.bind, Option.getD_some, List.take_left' hout,
      List.drop_left' hout, hrest]
    rw [total_div hlen, ecb_add _ _ _ hm, hlen.blocks]
    rfl

theorem desCryptEcb_pieces {lens lens' : List UInt32} {rcs : List Int}
    (hk : eight key' = eight key) (hread : Readable key) (hread' : Readable key')
    (hl : ∀ len ∈ lens, Legal len.toNat) (hl' : ∀ len ∈ lens', Legal len.toNat)
    (hsum : total lens' = total lens) (hb : total lens ≤ data.length)
    (h : inPieces D key mode lens data = .ok (rcs, data')) :
    rcs = List.replicate lens.length 0 ∧
      inPieces D key' mode.inverse lens' data' = .ok (List.replicate lens'.length 0, data) := by
  have hm : total lens / 8 * 8 ≤ data.length := Nat.le_trans (Nat.div_mul_le_self _ _) hb
  rw [inPieces_eq hread lens data hl hb] at h
  obtain ⟨rfl, rfl⟩ : List.replicate lens.length 0 = rcs ∧
      ecb 8 (mode.block (D.under key)) (total lens / 8) data = data' := by simpa using h
  refine ⟨rfl, ?_⟩
  rw [inPieces_eq hread' lens' _ hl' (by rw [length_ecb (mode.length_block _) _ _ hm]; omega),
    under_congr hk, hsum, ecb_inverse (mode.length_block _) (mode.block_inverse _) _ _ hm]

theorem desCryptEcb_pieces_two :
    inPieces zeroDes [0] .encrypt [8, 8] (zeroBlock ++ zeroBlock) =
        .ok ([0, 0], zeroCipher ++ zeroCipher) ∧
      inPieces zeroDes [0] .decrypt [16] (zeroCipher ++ zeroCipher) =
        .ok ([0], zeroBlock ++ zeroBlock) :=
  have he : inPieces zeroDes [0] .encrypt [8, 8] (zeroBlock ++ zeroBlock) =
    .ok ([0, 0], zeroCipher ++ zeroCipher) := by decide
  have h8 : Legal 8 := by decide
  have hl : ∀ len ∈ [(8 : UInt32), 8], Legal len.toNat :=
    List.forall_mem_cons.2 ⟨h8, List.forall_mem_singleton.2 h8⟩
  have hl' : ∀ len ∈ [(16 : UInt32)], Legal len.toNat := List.forall_mem_singleton.2 (by decide)
  ⟨he, (desCryptEcb_pieces rfl (by decide) (by decide) hl hl' (by decide) (by decide) he).2⟩

end Sky.Des
