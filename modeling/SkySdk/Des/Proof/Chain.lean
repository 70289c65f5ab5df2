import SkySdk.Des.Proof.RoundTrip

/-!
# A CBC chain over several calls

The chaining value that `cbc_crypt` leaves is lost with `ivec_tmp`. A caller who goes on has to pass
the last block of the call before as `ivec`, and that is read as a string: `eight_append` says when
nothing of it is lost. `inChain_eq_iff`: the calls give what one chain over the whole buffer gives
just if that holds of each block between two calls.
-/

set_option autoImplicit false

namespace Sky.Des

open Base

variable {D : Cipher} {key ivec data : List UInt8} {len : UInt32}

/-- Encryption of one piece after the other, with the results of the calls; the next `ivec` points
to the last block of the piece before it. -/
def inChain (D : Cipher) (key : List UInt8) :
    List UInt32 → List UInt8 → List UInt8 → Except Fault (List Int × List UInt8)
  | [], _, data => .ok ([], data)
  | len :: lens, ivec, data => do
    let (rc, out) ← skyDesEncryptCbc D key data len ivec
    let (rcs, rest) ← inChain D key lens (out.drop (len.toNat - 8)) (out.drop len.toNat)
    pure (rc :: rcs, out.take len.toNat ++ rest)

/-- The ends of the pieces but the last. -/
def cuts : List UInt32 → List Nat
  | len :: len' :: lens => len.toNat :: (cuts (len' :: lens)).map (len.toNat + ·)
  | _ => []

/-- Nothing but NULs stands behind a NUL. -/
def NulsLast (s : List UInt8) : Prop := ∀ c ∈ s.dropWhile (· ≠ 0), c = 0

instance (s : List UInt8) : Decidable (NulsLast s) :=
  List.decidableBAll (fun c => c = 0) (s.dropWhile fun c => decide (c ≠ 0))

/-- One chain over the whole. -/
def wholeChain (D : Cipher) (key ivec : List UInt8) (n : Nat) (data : List UInt8) : List UInt8 :=
  cbc .encrypt (D.under key) (n / 8) (eight ivec) data

/-! ## Blocks read as strings -/

theorem eight_append {s : List UInt8} (hs : s.length = 8) (rest : List UInt8) :
    eight (s ++ rest) = s ↔ NulsLast s := by
  have hsplit :
      s.takeWhile (fun c => decide (c ≠ 0)) ++ s.dropWhile (fun c => decide (c ≠ 0)) = s :=
    List.takeWhile_append_dropWhile
  rw [eight, text, List.takeWhile_append, NulsLast]
  by_cases hfull : (s.takeWhile fun c => decide (c ≠ 0)).length = s.length
  · have hnil : s.dropWhile (fun c => decide (c ≠ 0)) = [] := by
      have hlen := congrArg List.length hsplit
      rw [List.length_append] at hlen
      exact List.length_eq_zero_iff.1 (by omega)
    rw [if_pos hfull, hnil, List.append_assoc, List.take_left' hs]
    exact iff_of_true rfl fun c hc => absurd hc List.not_mem_nil
  · generalize s.takeWhile (fun c => decide (c ≠ 0)) = front at hsplit hfull ⊢
    generalize s.dropWhile (fun c => decide (c ≠ 0)) = back at hsplit ⊢
    subst hsplit
    rw [List.length_append] at hs
    rw [if_neg hfull, List.take_append, List.take_of_length_le (by omega), List.append_right_inj,
      List.take_replicate, Nat.min_eq_left (Nat.sub_le _ _), eq_comm, List.eq_replicate_iff]
    exact and_iff_right (by omega)

/-! ## One call -/

section
variable {xs : List UInt8} {m : Nat}

theorem xor_inj (a b c : UInt8) (h : a ^^^ b = a ^^^ c) : b = c := (UInt8.xor_right_inj a).1 h

/-- The first piece, and the rest in the chain. -/
theorem cbc_add (B : BlockPerm UInt8 8) (iv : List UInt8) (k : Nat) (h : m * 8 ≤ xs.length) :
    cbc .encrypt B (m + k) iv xs = cbc .encrypt B m iv (xs.take (m * 8)) ++
      cbc .encrypt B k (lastCipher (· ^^^ ·) 8 B.forth m iv (xs.take (m * 8))) (xs.drop (m * 8)) :=
  cbcEncrypt_add k m iv xs h

theorem take_cbc {B : BlockPerm UInt8 8} {iv : List UInt8} (hiv : iv.length = 8)
    (hx : 8 ≤ xs.length) :
    (cbc .encrypt B (m + 1) iv xs).take 8 = chained (· ^^^ ·) B.forth iv (xs.take 8) :=
  List.take_left' (length_chained B.length_forth hiv (by rw [List.length_take]; omega))

end

/-- What a call with `len` octets leaves: `piece` of its own, its last block `last`. -/
structure Piece (D : Cipher) (key ivec : List UInt8) (len : UInt32) (data piece last : List UInt8) :
    Prop where
  call : skyDesEncryptCbc D key data len ivec = .ok (0, piece ++ data.drop len.toNat)
  length : piece.length = len.toNat
  length_last : last.length = 8
  drop : piece.drop (len.toNat - 8) = last
  first : piece.take 8 = chained (· ^^^ ·) (D.under key).forth (eight ivec) (data.take 8)
  whole : ∀ n, wholeChain D key ivec (len.toNat + n) data =
    piece ++ cbc .encrypt (D.under key) (n / 8) last (data.drop len.toNat)

theorem exists_piece (hk : Readable key) (hi : Readable ivec) (hl : Legal len.toNat)
    (hpos : 0 < len.toNat) (hb : len.toNat ≤ data.length) :
    ∃ piece last, Piece D key ivec len data piece last := by
  obtain ⟨m, hm⟩ : ∃ m, len.toNat = (m + 1) * 8 := ⟨len.toNat / 8 - 1, by
    have hblocks := hl.blocks
    omega⟩
  have hdiv : len.toNat / 8 = m + 1 := by omega
  have h8 := length_eight ivec
  have htake : (data.take len.toNat).length = (m + 1) * 8 := by
    rw [List.length_take]
    omega
  have hb' : (m + 1) * 8 ≤ data.length := by omega
  have hlen := length_cbc .encrypt (D.under key) _ h8 (Nat.le_of_eq htake.symm)
  have hlast :
      (cbc .encrypt (D.under key) (m + 1) (eight ivec) (data.take len.toNat)).drop (m * 8) =
        lastCipher (· ^^^ ·) 8 (D.under key).forth (m + 1) (eight ivec) (data.take len.toNat) :=
    cbcEncrypt_drop (D.under key).length_forth m (eight ivec) (data.take len.toNat) h8 htake
  refine ⟨cbc .encrypt (D.under key) (m + 1) (eight ivec) (data.take len.toNat),
    lastCipher (· ^^^ ·) 8 (D.under key).forth (m + 1) (eight ivec) (data.take len.toNat),
    ?_, ?_, ?_, ?_, ?_, fun n => ?_⟩
  · have hsplit := cbc_add (D.under key) (eight ivec) 0 hb'
    rw [← hm] at hsplit
    exact (desCryptCbc_legal hk hi hl hb).trans (by rw [hdiv, ← Nat.add_zero (m + 1), hsplit]; rfl)
  · rw [hlen, htake, hm]
  · rw [← hlast, List.length_drop, hlen, htake]
    omega
  · rw [← hlast, hm, Nat.succ_mul, Nat.add_sub_cancel]
  · rw [take_cbc h8 (by omega), List.take_take, Nat.min_eq_left (by omega)]
  · have hsplit := cbc_add (D.under key) (eight ivec) (n / 8) hb'
    rw [← hm] at hsplit
    rw [wholeChain, show (len.toNat + n) / 8 = m + 1 + n / 8 by omega, hsplit]

/-! ## The chain -/

theorem cuts_pos : ∀ lens : List UInt32, (∀ len ∈ lens, Legal len.toNat ∧ 0 < len.toNat) →
    ∀ k ∈ cuts lens, 8 ≤ k
  | [], _, _, hk => absurd hk List.not_mem_nil
  | [_], _, _, hk => absurd hk List.not_mem_nil
  | len :: len' :: lens, hl, k, hk => by
    obtain ⟨⟨hlen, hpos⟩, -⟩ := List.forall_mem_cons.1 hl
    have h8 : 8 ≤ len.toNat := by
      have hmod := hlen.1
      omega
    rcases List.mem_cons.1 hk with rfl | hk
    · exact h8
    · obtain ⟨j, -, rfl⟩ := List.mem_map.1 hk
      exact Nat.le_trans h8 (Nat.le_add_right _ _)

/-- The eight octets before an end that lies behind the first piece. -/
theorem window_append {piece w : List UInt8} {n j : Nat} (hn : piece.length = n) (hj : 8 ≤ j) :
    ((piece ++ w).take (n + j)).drop (n + j - 8) = (w.take j).drop (j - 8) := by
  rw [List.take_append, List.take_of_length_le (by omega), hn, Nat.add_sub_cancel_left,
    show n + j - 8 = piece.length + (j - 8) by omega, ← List.drop_drop, List.drop_left]

theorem Piece.eight_le {piece last : List UInt8} (P : Piece D key ivec len data piece last) :
    8 ≤ piece.length := by
  have hdrop := congrArg List.length P.drop
  rw [List.length_drop, P.length_last] at hdrop
  omega

/-- The last block and what is behind it in the buffer, for the next call. -/
theorem Piece.next {piece last : List UInt8} (P : Piece D key ivec len data piece last) :
    (piece ++ data.drop len.toNat).drop (len.toNat - 8) = last ++ data.drop len.toNat := by
  have hlen := P.length
  rw [List.drop_append_of_le_length (by omega), P.drop]

theorem inChain_cons {piece last out : List UInt8} (P : Piece D key ivec len data piece last)
    {lens : List UInt32} (h : inChain D key lens (last ++ data.drop len.toNat)
      (data.drop len.toNat) = .ok (List.replicate lens.length 0, out)) :
    inChain D key (len :: lens) ivec data =
      .ok (List.replicate (len :: lens).length 0, piece ++ out) := by
  simp only [inChain, P.call, bind, Except.bind, P.next, List.drop_left' P.length, h,
    List.take_left' P.length]
  rfl

theorem inChain_spec (hk : Readable key) : ∀ (lens : List UInt32) (ivec data : List UInt8),
    Readable ivec → (∀ len ∈ lens, Legal len.toNat ∧ 0 < len.toNat) → total lens ≤ data.length →
      ∃ out, inChain D key lens ivec data = .ok (List.replicate lens.length 0, out) ∧
        (lens ≠ [] →
          out.take 8 = chained (· ^^^ ·) (D.under key).forth (eight ivec) (data.take 8)) ∧
        (out = wholeChain D key ivec (total lens) data ↔
          ∀ k ∈ cuts lens,
            NulsLast (((wholeChain D key ivec (total lens) data).take k).drop (k - 8)))
  | [], _, data, _, _, _ =>
    ⟨data, rfl, fun hne => absurd rfl hne,
      iff_of_true rfl fun _ hk => absurd hk List.not_mem_nil⟩
  | [len], ivec, data, hi, hl, hb => by
    obtain ⟨⟨hlen, hpos⟩, -⟩ := List.forall_mem_cons.1 hl
    have htotal : total [len] = len.toNat + 0 := total_cons len []
    have hfits : len.toNat ≤ data.length := by omega
    obtain ⟨piece, last, P⟩ := exists_piece (D := D) hk hi hlen hpos hfits
    refine ⟨piece ++ data.drop len.toNat, inChain_cons P rfl, fun _ => ?_,
      iff_of_true ?_ fun _ hk => absurd hk List.not_mem_nil⟩
    · rw [List.take_append_of_le_length P.eight_le, P.first]
    · rw [htotal, P.whole 0]
      rfl
  | len :: len' :: lens, ivec, data, hi, hl, hb => by
    obtain ⟨⟨hlen, hpos⟩, hl'⟩ := List.forall_mem_cons.1 hl
    obtain ⟨⟨hlen', hpos'⟩, -⟩ := List.forall_mem_cons.1 hl'
    have htotal := total_cons len (len' :: lens)
    have htotal' := total_cons len' lens
    have hfits : len.toNat ≤ data.length := by omega
    obtain ⟨piece, last, P⟩ := exists_piece (D := D) hk hi hlen hpos hfits
    have hwhole := P.whole (total (len' :: lens))
    have hrest : (data.drop len.toNat).length = data.length - len.toNat := List.length_drop
    have hread : Readable (last ++ data.drop len.toNat) :=
      .inr (by rw [List.length_append, P.length_last]; omega)
    obtain ⟨out, hout, hfirst, hiff⟩ := inChain_spec hk (len' :: lens) _ (data.drop len.toNat)
      hread hl' (by omega)
    have hfirst := hfirst (List.cons_ne_nil _ _)
    have hcut : ((wholeChain D key ivec (total (len :: len' :: lens)) data).take len.toNat).drop
        (len.toNat - 8) = last := by
      rw [htotal, hwhole, List.take_left' P.length, P.drop]
    refine ⟨piece ++ out, inChain_cons P hout, fun _ => ?_, ?_⟩
    · rw [List.take_append_of_le_length P.eight_le, P.first]
    by_cases hnuls : NulsLast last
    · -- the next `ivec` is the whole block, so that the rest is in the same chain
      rw [wholeChain, (eight_append P.length_last _).2 hnuls] at hiff
      rw [htotal, hwhole] at hcut ⊢
      rw [List.append_right_inj, hiff, cuts, List.forall_mem_cons, hcut, List.forall_mem_map]
      refine ⟨fun h => ⟨hnuls, fun j hj => ?_⟩, fun h j hj => ?_⟩
      · rw [window_append P.length (cuts_pos _ hl' j hj)]
        exact h j hj
      · rw [← window_append P.length (cuts_pos _ hl' j hj)]
        exact h.2 j hj
    · -- the next `ivec` is another one, and so is the block after it
      refine iff_of_false (fun he => hnuls ?_) fun h => hnuls ?_
      · rw [htotal, hwhole, List.append_right_inj] at he
        obtain ⟨m, hm⟩ : ∃ m, total (len' :: lens) / 8 = m + 1 :=
          ⟨total (len' :: lens) / 8 - 1, by have hmod := hlen'.1; omega⟩
        rw [he, hm, take_cbc P.length_last (by have hmod := hlen'.1; omega)] at hfirst
        exact (eight_append P.length_last _).1 (chained_inj xor_inj (D.under key).back_forth
          (length_eight _) P.length_last (by rw [List.length_take]; omega) hfirst.symm)
      · rw [← hcut]
        exact h _ List.mem_cons_self

theorem inChain_eq_iff {lens : List UInt32} (hk : Readable key) (hi : Readable ivec)
    (hl : ∀ len ∈ lens, Legal len.toNat ∧ 0 < len.toNat) (hb : total lens ≤ data.length) :
    ∃ out, inChain D key lens ivec data = .ok (List.replicate lens.length 0, out) ∧
      (out = wholeChain D key ivec (total lens) data ↔
        ∀ k ∈ cuts lens,
          NulsLast (((wholeChain D key ivec (total lens) data).take k).drop (k - 8))) ∧
      ∀ len : UInt32, len.toNat = total lens → Legal len.toNat →
        skyDesEncryptCbc D key data len ivec =
          .ok (0, wholeChain D key ivec (total lens) data) := by
  obtain ⟨out, hout, -, hiff⟩ := inChain_spec (D := D) hk lens ivec data hi hl hb
  refine ⟨out, hout, hiff, fun len hlen hlegal => ?_⟩
  rw [← hlen] at hb ⊢
  exact desCryptCbc_legal hk hi hlegal hb

theorem inChain_eq_iff_two : ∃ out,
    inChain zeroDes [0] [8, 8] [0] (zeroBlock ++ zeroCipher) = .ok ([0, 0], out) ∧
      skyDesEncryptCbc zeroDes [0] (zeroBlock ++ zeroCipher) 16 [0] = .ok (0, out) := by
  have hread : Readable [0] := by decide
  have h8 : Legal 8 ∧ 0 < 8 := by decide
  have hl : ∀ len ∈ [(8 : UInt32), 8], Legal len.toNat ∧ 0 < len.toNat :=
    List.forall_mem_cons.2 ⟨h8, List.forall_mem_singleton.2 h8⟩
  have hb : total [8, 8] ≤ (zeroBlock ++ zeroCipher).length := by decide
  obtain ⟨out, hout, hiff, hcall⟩ := inChain_eq_iff (D := zeroDes) hread hread hl hb
  exact ⟨out, hout, (hiff.2 (by decide)).symm ▸ hcall 16 rfl (by decide)⟩

end Sky.Des
