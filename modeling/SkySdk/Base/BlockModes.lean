import Mathlib.Data.List.Basic

/-!
# Modes of a block cipher

Data is a list of symbols, a block `n` of them. `ecb` passes each block through a function on its
own, `cbcEncrypt` masks it with the cipher block before it first, `cbcDecrypt` takes the mask away
again. Each works on the first `m` blocks and leaves what is behind them.

* `ecb_inverse`, `cbcDecrypt_cbcEncrypt`, `cbcEncrypt_cbcDecrypt`: the one undoes the other.
* `ecb_add`, `cbcEncrypt_add`: data in pieces. A piece's chaining value is `lastCipher` of the
  piece before it.
* `chained_inj`: a cipher block shows the chaining value before it.
-/

set_option autoImplicit false

namespace Base

/-- What a key selects: a bijection on the blocks of `n` symbols, and its inverse. -/
structure BlockPerm (α : Type) (n : Nat) where
  forth : List α → List α
  back : List α → List α
  length_forth : ∀ b, b.length = n → (forth b).length = n
  length_back : ∀ b, b.length = n → (back b).length = n
  back_forth : ∀ b, b.length = n → back (forth b) = b
  forth_back : ∀ b, b.length = n → forth (back b) = b

variable {α : Type}

def ecb (n : Nat) (f : List α → List α) : Nat → List α → List α
  | 0, xs => xs
  | m + 1, xs => f (xs.take n) ++ ecb n f m (xs.drop n)

/-- One chaining step under a mask. -/
def chained (mask : α → α → α) (f : List α → List α) (iv block : List α) : List α :=
  f (List.zipWith mask block iv)

def cbcEncrypt (mask : α → α → α) (n : Nat) (f : List α → List α) :
    Nat → List α → List α → List α
  | 0, _, xs => xs
  | m + 1, iv, xs =>
    chained mask f iv (xs.take n) ++
      cbcEncrypt mask n f m (chained mask f iv (xs.take n)) (xs.drop n)

def cbcDecrypt (mask : α → α → α) (n : Nat) (g : List α → List α) :
    Nat → List α → List α → List α
  | 0, _, xs => xs
  | m + 1, iv, xs =>
    List.zipWith mask (g (xs.take n)) iv ++ cbcDecrypt mask n g m (xs.take n) (xs.drop n)

/-- The last cipher block of `m`, the chaining value for none. -/
def lastCipher (mask : α → α → α) (n : Nat) (f : List α → List α) :
    Nat → List α → List α → List α
  | 0, iv, _ => iv
  | m + 1, iv, xs => lastCipher mask n f m (chained mask f iv (xs.take n)) (xs.drop n)

section
variable {mask : α → α → α} {n : Nat} {f g : List α → List α} {xs iv iv' : List α}

theorem le_length_drop {m : Nat} (h : (m + 1) * n ≤ xs.length) : m * n ≤ (xs.drop n).length := by
  rw [Nat.succ_mul] at h
  rw [List.length_drop]
  omega

theorem length_take_block {m : Nat} (h : (m + 1) * n ≤ xs.length) : (xs.take n).length = n := by
  rw [Nat.succ_mul] at h
  rw [List.length_take]
  omega

/-! ## Each block on its own -/

theorem length_ecb (hf : ∀ b, b.length = n → (f b).length = n) : ∀ (m : Nat) (xs : List α),
    m * n ≤ xs.length → (ecb n f m xs).length = xs.length
  | 0, _, _ => rfl
  | m + 1, xs, h => by
    rw [ecb, List.length_append, hf _ (length_take_block h), length_ecb hf m _ (le_length_drop h),
      List.length_drop]
    rw [Nat.succ_mul] at h
    omega

theorem ecb_inverse (hf : ∀ b, b.length = n → (f b).length = n)
    (hgf : ∀ b, b.length = n → g (f b) = b) : ∀ (m : Nat) (xs : List α),
    m * n ≤ xs.length → ecb n g m (ecb n f m xs) = xs
  | 0, _, _ => rfl
  | m + 1, xs, h => by
    have hblock := hf _ (length_take_block h)
    rw [ecb, ecb, List.take_left' hblock, List.drop_left' hblock, hgf _ (length_take_block h),
      ecb_inverse hf hgf m _ (le_length_drop h), List.take_append_drop]

/-- More blocks are done as those first and then the others. -/
theorem ecb_add (k : Nat) : ∀ (m : Nat) (xs : List α), m * n ≤ xs.length →
    ecb n f (m + k) xs = ecb n f m (xs.take (m * n)) ++ ecb n f k (xs.drop (m * n))
  | 0, xs, _ => by
    rw [Nat.zero_add, Nat.zero_mul, List.take_zero, List.drop_zero, ecb, List.nil_append]
  | m + 1, xs, h => by
    have hn : n ≤ (m + 1) * n := Nat.le_mul_of_pos_left n (Nat.succ_pos m)
    have hlen : (m + 1) * n - n = m * n := by rw [Nat.succ_mul, Nat.add_sub_cancel]
    rw [Nat.add_right_comm, ecb, ecb, ecb_add k m _ (le_length_drop h), List.take_take,
      Nat.min_eq_left hn, List.drop_take, hlen, List.drop_drop, Nat.succ_mul, Nat.add_comm n,
      List.append_assoc]

/-! ## Blocks in a chain -/

theorem length_chained (hf : ∀ b, b.length = n → (f b).length = n) (hiv : iv.length = n)
    (hxs : xs.length = n) : (chained mask f iv xs).length = n :=
  hf _ (by rw [List.length_zipWith, hxs, hiv, Nat.min_self])

theorem length_cbcEncrypt (hf : ∀ b, b.length = n → (f b).length = n) :
    ∀ (m : Nat) (iv xs : List α), iv.length = n → m * n ≤ xs.length →
      (cbcEncrypt mask n f m iv xs).length = xs.length
  | 0, _, _, _, _ => rfl
  | m + 1, iv, xs, hiv, h => by
    have hblock : (chained mask f iv (xs.take n)).length = n :=
      length_chained hf hiv (length_take_block h)
    rw [cbcEncrypt, List.length_append, hblock,
      length_cbcEncrypt hf m _ _ hblock (le_length_drop h), List.length_drop]
    rw [Nat.succ_mul] at h
    omega

/-- A mask that was put on is taken away by putting it on again. -/
theorem zipWith_mask (hmask : ∀ a b, mask (mask a b) b = a) : ∀ (xs iv : List α),
    xs.length = iv.length → List.zipWith mask (List.zipWith mask xs iv) iv = xs
  | [], _, _ => rfl
  | x :: xs, b :: iv, h => by
    rw [List.zipWith_cons_cons, List.zipWith_cons_cons, hmask,
      zipWith_mask hmask xs iv (Nat.succ.inj h)]

theorem cbcDecrypt_cbcEncrypt (hmask : ∀ a b, mask (mask a b) b = a)
    (hf : ∀ b, b.length = n → (f b).length = n) (hgf : ∀ b, b.length = n → g (f b) = b) :
    ∀ (m : Nat) (iv xs : List α), iv.length = n → m * n ≤ xs.length →
      cbcDecrypt mask n g m iv (cbcEncrypt mask n f m iv xs) = xs
  | 0, _, _, _, _ => rfl
  | m + 1, iv, xs, hiv, h => by
    have hx := length_take_block h
    have hblock : (chained mask f iv (xs.take n)).length = n := length_chained hf hiv hx
    have hfirst : List.zipWith mask (g (chained mask f iv (xs.take n))) iv = xs.take n := by
      rw [chained, hgf _ (by rw [List.length_zipWith, hx, hiv, Nat.min_self]),
        zipWith_mask hmask _ _ (hx.trans hiv.symm)]
    rw [cbcEncrypt, cbcDecrypt, List.take_left' hblock, List.drop_left' hblock, hfirst,
      cbcDecrypt_cbcEncrypt hmask hf hgf m _ _ hblock (le_length_drop h), List.take_append_drop]

theorem length_unmasked (hg : ∀ b, b.length = n → (g b).length = n) (hiv : iv.length = n)
    (hxs : xs.length = n) : (List.zipWith mask (g xs) iv).length = n := by
  rw [List.length_zipWith, hg _ hxs, hiv, Nat.min_self]

theorem length_cbcDecrypt (hg : ∀ b, b.length = n → (g b).length = n) :
    ∀ (m : Nat) (iv xs : List α), iv.length = n → m * n ≤ xs.length →
      (cbcDecrypt mask n g m iv xs).length = xs.length
  | 0, _, _, _, _ => rfl
  | m + 1, iv, xs, hiv, h => by
    have hx := length_take_block h
    rw [cbcDecrypt, List.length_append, length_unmasked hg hiv hx,
      length_cbcDecrypt hg m _ _ hx (le_length_drop h), List.length_drop]
    rw [Nat.succ_mul] at h
    omega

theorem drop_cbcDecrypt (hg : ∀ b, b.length = n → (g b).length = n) :
    ∀ (m : Nat) (iv xs : List α), iv.length = n → m * n ≤ xs.length →
      (cbcDecrypt mask n g m iv xs).drop (m * n) = xs.drop (m * n)
  | 0, _, _, _, _ => rfl
  | m + 1, iv, xs, hiv, h => by
    have hx := length_take_block h
    rw [cbcDecrypt, Nat.succ_mul, Nat.add_comm (m * n), ← List.drop_drop,
      List.drop_left' (length_unmasked hg hiv hx),
      drop_cbcDecrypt hg m _ _ hx (le_length_drop h), List.drop_drop]

theorem cbcEncrypt_cbcDecrypt (hmask : ∀ a b, mask (mask a b) b = a)
    (hg : ∀ b, b.length = n → (g b).length = n) (hfg : ∀ b, b.length = n → f (g b) = b) :
    ∀ (m : Nat) (iv xs : List α), iv.length = n → m * n ≤ xs.length →
      cbcEncrypt mask n f m iv (cbcDecrypt mask n g m iv xs) = xs
  | 0, _, _, _, _ => rfl
  | m + 1, iv, xs, hiv, h => by
    have hx := length_take_block h
    have hblock : (List.zipWith mask (g (xs.take n)) iv).length = n := length_unmasked hg hiv hx
    have hfirst : chained mask f iv (List.zipWith mask (g (xs.take n)) iv) = xs.take n := by
      rw [chained, zipWith_mask hmask _ _ ((hg _ hx).trans hiv.symm), hfg _ hx]
    rw [cbcDecrypt, cbcEncrypt, List.take_left' hblock, List.drop_left' hblock, hfirst,
      cbcEncrypt_cbcDecrypt hmask hg hfg m _ _ hx (le_length_drop h), List.take_append_drop]

/-- More blocks: those first, then the others in their chain. -/
theorem cbcEncrypt_add (k : Nat) : ∀ (m : Nat) (iv xs : List α), m * n ≤ xs.length →
    cbcEncrypt mask n f (m + k) iv xs =
      cbcEncrypt mask n f m iv (xs.take (m * n)) ++
        cbcEncrypt mask n f k (lastCipher mask n f m iv (xs.take (m * n))) (xs.drop (m * n))
  | 0, iv, xs, _ => by
    rw [Nat.zero_add, Nat.zero_mul, List.take_zero, List.drop_zero, cbcEncrypt, lastCipher,
      List.nil_append]
  | m + 1, iv, xs, h => by
    have hn : n ≤ (m + 1) * n := Nat.le_mul_of_pos_left n (Nat.succ_pos m)
    have hlen : (m + 1) * n - n = m * n := by rw [Nat.succ_mul, Nat.add_sub_cancel]
    rw [Nat.add_right_comm, cbcEncrypt, cbcEncrypt, lastCipher,
      cbcEncrypt_add k m _ _ (le_length_drop h), List.take_take, Nat.min_eq_left hn,
      List.drop_take, hlen, List.drop_drop, Nat.succ_mul, Nat.add_comm n, List.append_assoc]

/-- The last cipher block is the last block of what the mode gives. -/
theorem cbcEncrypt_drop (hf : ∀ b, b.length = n → (f b).length = n) :
    ∀ (m : Nat) (iv xs : List α), iv.length = n → xs.length = (m + 1) * n →
      (cbcEncrypt mask n f (m + 1) iv xs).drop (m * n) = lastCipher mask n f (m + 1) iv xs
  | 0, iv, xs, hiv, h => by
    rw [Nat.zero_add, Nat.one_mul] at h
    rw [Nat.zero_mul, List.drop_zero, cbcEncrypt, cbcEncrypt, lastCipher, lastCipher,
      List.drop_of_length_le (Nat.le_of_eq h), List.append_nil]
  | m + 1, iv, xs, hiv, h => by
    have hblock : (chained mask f iv (xs.take n)).length = n :=
      length_chained hf hiv (length_take_block (Nat.le_of_eq h.symm))
    have hrest : (xs.drop n).length = (m + 1) * n := by
      rw [List.length_drop, h, Nat.succ_mul, Nat.add_sub_cancel]
    rw [cbcEncrypt, lastCipher, Nat.succ_mul, Nat.add_comm (m * n), ← List.drop_drop,
      List.drop_left' hblock, cbcEncrypt_drop hf m _ _ hblock hrest]

theorem length_lastCipher (hf : ∀ b, b.length = n → (f b).length = n) :
    ∀ (m : Nat) (iv xs : List α), iv.length = n → m * n ≤ xs.length →
      (lastCipher mask n f m iv xs).length = n
  | 0, _, _, hiv, _ => hiv
  | m + 1, _, _, hiv, h => length_lastCipher hf m _ _
      (length_chained hf hiv (length_take_block h)) (le_length_drop h)

theorem zipWith_mask_inj (hmask : ∀ a b c, mask a b = mask a c → b = c) :
    ∀ (xs iv iv' : List α), iv.length = xs.length → iv'.length = xs.length →
      List.zipWith mask xs iv = List.zipWith mask xs iv' → iv = iv'
  | [], iv, iv', h, h', _ => by
    rw [List.length_eq_zero_iff.1 h, List.length_eq_zero_iff.1 h']
  | x :: xs, b :: iv, c :: iv', h, h', he => by
    rw [List.zipWith_cons_cons, List.zipWith_cons_cons, List.cons.injEq] at he
    rw [hmask x b c he.1, zipWith_mask_inj hmask xs iv iv' (Nat.succ.inj h) (Nat.succ.inj h') he.2]

/-- Another chaining value gives another cipher block. -/
theorem chained_inj (hmask : ∀ a b c, mask a b = mask a c → b = c)
    (hgf : ∀ b, b.length = n → g (f b) = b) (hiv : iv.length = n) (hiv' : iv'.length = n)
    (hxs : xs.length = n) (he : chained mask f iv xs = chained mask f iv' xs) : iv = iv' := by
  have hmasked := congrArg g he
  rw [chained, chained, hgf _ (by rw [List.length_zipWith, hxs, hiv, Nat.min_self]),
    hgf _ (by rw [List.length_zipWith, hxs, hiv', Nat.min_self])] at hmasked
  exact zipWith_mask_inj hmask _ _ _ (hiv.trans hxs.symm) (hiv'.trans hxs.symm) hmasked

end

end Base
