import SkySdk.Des.Defs

/-!
# What the DES calls give

A key or an `ivec` counts by `eight` of it alone. `desCryptCbc_eq` and `desCryptEcb_eq` say what
the two functions give for every length, `cbc` and `ecb` being one call's work on whole blocks.
-/

set_option autoImplicit false

namespace Sky.Des

open Base

variable {D : Cipher} {key ivec data src : List UInt8} {len : UInt32} {mode : Mode}

/-- The text of a string, up to its NUL. -/
def text (s : List UInt8) : List UInt8 := s.takeWhile (· ≠ 0)

/-- The octets that a key or an `ivec` comes to. -/
def eight (s : List UInt8) : List UInt8 := (text s ++ List.replicate 8 0).take 8

/-- The copy of it does not read beyond its end. -/
def Readable (s : List UInt8) : Prop := 0 ∈ s ∨ 9 ≤ s.length

/-- What the key selects. -/
def Cipher.under (D : Cipher) (key : List UInt8) : BlockPerm UInt8 8 :=
  D.block ((eight key).map D.setparity)

def Mode.inverse : Mode → Mode
  | .encrypt => .decrypt
  | .decrypt => .encrypt

def cbc (mode : Mode) (B : BlockPerm UInt8 8) (m : Nat) (iv xs : List UInt8) : List UInt8 :=
  match mode with
  | .encrypt => cbcEncrypt (· ^^^ ·) 8 B.forth m iv xs
  | .decrypt => cbcDecrypt (· ^^^ ·) 8 B.back m iv xs

/-! ## Keys -/

theorem skyStrCpy_eq : ∀ (src : List UInt8) (count : Nat),
    skyStrCpy src count = if 0 ∈ src ∨ count ≤ src.length then
      .ok ((text src ++ List.replicate count 0).take count) else .error .outOfBounds
  | src, 0 => by
    rw [if_pos (.inr (Nat.zero_le _)), List.take_zero]
    cases src <;> rfl
  | [], count + 1 => by
    rw [if_neg (by simp)]
    rfl
  | c :: src, count + 1 => by
    rw [skyStrCpy]
    by_cases hc : c = 0
    · rw [if_pos hc, if_pos (.inl (hc ▸ List.mem_cons_self)), text,
        List.takeWhile_cons_of_neg (by simpa using hc), List.nil_append,
        List.take_of_length_le (Nat.le_of_eq List.length_replicate)]
    · have hmem : 0 ∈ c :: src ↔ 0 ∈ src := by simp [Ne.symm hc]
      rw [if_neg hc, skyStrCpy_eq src count]
      simp only [hmem, List.length_cons, Nat.succ_le_succ_iff]
      by_cases h : 0 ∈ src ∨ count ≤ src.length
      · have htake : (text (c :: src) ++ List.replicate (count + 1) 0).take (count + 1) =
            c :: (text src ++ List.replicate count 0).take count := by
          rw [text, List.takeWhile_cons_of_pos (by simpa using hc), List.cons_append,
            List.take_succ_cons, List.replicate_succ', ← List.append_assoc,
            List.take_append_of_le_length (by simp)]
          rfl
        rw [if_pos h, if_pos h, htake]
        rfl
      · rw [if_neg h, if_neg h]
        rfl

theorem length_eight (s : List UInt8) : (eight s).length = 8 := by
  rw [eight, List.length_take, List.length_append, List.length_replicate]
  omega

theorem take_copy (s : List UInt8) :
    ((text s ++ List.replicate 9 0).take 9).take 8 = eight s := by
  rw [List.take_take, eight, List.replicate_succ', ← List.append_assoc]
  exact List.take_append_of_le_length (by simp)

theorem copy_readable (h : Readable src) : ∃ copy, skyStrCpy src 9 = .ok copy ∧
    copy.take 8 = eight src ∧ (desSetparity D copy).take 8 = (eight src).map D.setparity := by
  refine ⟨_, (skyStrCpy_eq src 9).trans (if_pos h), take_copy src, ?_⟩
  rw [desSetparity, take_copy, List.take_left' (by rw [List.length_map, length_eight])]

theorem readable_of_ok {copy : List UInt8} (h : skyStrCpy src 9 = .ok copy) : Readable src := by
  by_contra hn
  rw [(skyStrCpy_eq src 9).trans (if_neg hn)] at h
  cases h

/-! ## Whole blocks -/

theorem xor_twice (a b : UInt8) : a ^^^ b ^^^ b = a := by
  rw [UInt8.xor_assoc, UInt8.xor_self, UInt8.xor_zero]

section
variable {iv xs : List UInt8}

theorem le_of_blocks (h : len.toNat ≤ data.length) : len.toNat / 8 * 8 ≤ data.length :=
  Nat.le_trans (Nat.div_mul_le_self _ _) h

theorem length_cbc (mode : Mode) (B : BlockPerm UInt8 8) (m : Nat) (hiv : iv.length = 8)
    (h : m * 8 ≤ xs.length) : (cbc mode B m iv xs).length = xs.length := by
  cases mode with
  | encrypt => exact length_cbcEncrypt B.length_forth m iv xs hiv h
  | decrypt => exact length_cbcDecrypt B.length_back m iv xs hiv h

theorem cbc_inverse (mode : Mode) (B : BlockPerm UInt8 8) (m : Nat) (hiv : iv.length = 8)
    (h : m * 8 ≤ xs.length) : cbc mode.inverse B m iv (cbc mode B m iv xs) = xs := by
  cases mode with
  | encrypt => exact cbcDecrypt_cbcEncrypt xor_twice B.length_forth B.back_forth m iv xs hiv h
  | decrypt => exact cbcEncrypt_cbcDecrypt xor_twice B.length_back B.forth_back m iv xs hiv h

theorem drop_cbc (mode : Mode) (B : BlockPerm UInt8 8) (m : Nat) (hiv : iv.length = 8)
    (h : m * 8 ≤ xs.length) : (cbc mode B m iv xs).drop (m * 8) = xs.drop (m * 8) := by
  cases mode with
  | encrypt =>
    have hlen : (cbcEncrypt (· ^^^ ·) 8 B.forth m iv (xs.take (m * 8))).length = _ :=
      length_cbcEncrypt B.length_forth m iv _ hiv (by rw [List.length_take]; omega)
    show (cbcEncrypt (· ^^^ ·) 8 B.forth (m + 0) iv xs).drop (m * 8) = _
    rw [cbcEncrypt_add 0 m iv xs h, List.drop_left' (by rw [hlen, List.length_take]; omega),
      cbcEncrypt]
  | decrypt => exact drop_cbcDecrypt B.length_back m iv xs hiv h

theorem Mode.length_block (mode : Mode) (B : BlockPerm UInt8 8) (b : List UInt8)
    (h : b.length = 8) : (mode.block B b).length = 8 := by
  cases mode with
  | encrypt => exact B.length_forth b h
  | decrypt => exact B.length_back b h

theorem Mode.block_inverse (mode : Mode) (B : BlockPerm UInt8 8) (b : List UInt8)
    (h : b.length = 8) : mode.inverse.block B (mode.block B b) = b := by
  cases mode with
  | encrypt => exact B.back_forth b h
  | decrypt => exact B.forth_back b h

end

/-! ## The calls -/

/-- A length that the library takes. -/
def Legal (len : Nat) : Prop := len % 8 = 0 ∧ len ≤ desMaxData

theorem crypt_legal (run : Nat → List UInt8 → List UInt8) (hl : Legal len.toNat)
    (hb : len.toNat ≤ data.length) : ∃ err, desFailed err = false ∧
      crypt D data len run = .ok (err, run (len.toNat / 8) data) := by
  refine ⟨if D.hardware then .none else .noHwDevice, ?_, ?_⟩
  · cases D.hardware <;> rfl
  · rw [crypt, if_neg (by unfold Legal at hl; omega), if_neg (Nat.not_lt.2 hb)]

theorem crypt_illegal {run : Nat → List UInt8 → List UInt8} (hl : ¬ Legal len.toNat) :
    crypt D data len run = .ok (.badParam, data) := by
  rw [crypt, if_pos (by unfold Legal at hl; omega)]

theorem crypt_outside {run : Nat → List UInt8 → List UInt8} (hl : Legal len.toNat)
    (hb : ¬ len.toNat ≤ data.length) : crypt D data len run = .error .outOfBounds := by
  rw [crypt, if_neg (by unfold Legal at hl; omega), if_pos (Nat.lt_of_not_le hb)]

theorem desCryptCbc_legal (hk : Readable key) (hi : Readable ivec) (hl : Legal len.toNat)
    (hb : len.toNat ≤ data.length) : desCryptCbc D key data len ivec mode =
      .ok (0, cbc mode (D.under key) (len.toNat / 8) (eight ivec) data) := by
  obtain ⟨k, hcopyk, -, hpar⟩ := copy_readable (D := D) hk
  obtain ⟨i, hcopyi, height, -⟩ := copy_readable (D := D) hi
  obtain ⟨err, hok, hcrypt⟩ := crypt_legal (D := D)
    (fun m => cbc mode (D.under key) m (eight ivec)) hl hb
  have hcbc : cbcCrypt D (desSetparity D k) data len mode i =
      crypt D data len fun m => cbc mode (D.under key) m (eight ivec) := by
    rw [cbcCrypt, hpar, height]
    cases mode <;> rfl
  simp only [desCryptCbc, hcopyk, hcopyi, hcbc, hcrypt, bind, Except.bind, hok]
  rfl

theorem desCryptCbc_illegal (hk : Readable key) (hi : Readable ivec) (hl : ¬ Legal len.toNat) :
    desCryptCbc D key data len ivec mode = .ok (-3, data) := by
  obtain ⟨k, hcopyk, -⟩ := copy_readable (D := D) hk
  obtain ⟨i, hcopyi, -⟩ := copy_readable (D := D) hi
  simp only [desCryptCbc, hcopyk, hcopyi, cbcCrypt, crypt_illegal hl, bind, Except.bind]
  rfl

/-- A call that returns has what it needs. -/
theorem desCryptCbc_returned {r : Int × List UInt8}
    (h : desCryptCbc D key data len ivec mode = .ok r) : Readable key ∧ Readable ivec ∧
      (Legal len.toNat → len.toNat ≤ data.length) := by
  cases hk : skyStrCpy key 9 with
  | error e => simp [desCryptCbc, hk, bind, Except.bind] at h
  | ok k =>
    cases hi : skyStrCpy ivec 9 with
    | error e => simp [desCryptCbc, hk, hi, bind, Except.bind] at h
    | ok i =>
      refine ⟨readable_of_ok hk, readable_of_ok hi, fun hl => ?_⟩
      by_contra hb
      simp [desCryptCbc, hk, hi, cbcCrypt, crypt_outside hl hb, bind, Except.bind] at h

theorem mod_eight (len : UInt32) : len % 8 = 0 ↔ len.toNat % 8 = 0 := by
  rw [← UInt32.toNat_inj, UInt32.toNat_mod]
  rfl

theorem desCryptEcb_legal (mode : Mode) (hk : Readable key) (hl : Legal len.toNat)
    (hb : len.toNat ≤ data.length) : desCryptEcb D key (some data) len mode =
      .ok (0, some (ecb 8 (mode.block (D.under key)) (len.toNat / 8) data)) := by
  obtain ⟨k, hcopyk, -, hpar⟩ := copy_readable (D := D) hk
  obtain ⟨err, hok, hcrypt⟩ := crypt_legal (D := D)
    (ecb 8 (mode.block (D.under key))) hl hb
  have hecb : ecbCrypt D (desSetparity D k) data len mode =
      crypt D data len (ecb 8 (mode.block (D.under key))) := by
    rw [ecbCrypt, hpar]
    rfl
  simp only [desCryptEcb, if_pos ((mod_eight len).2 hl.1), hcopyk, hecb, hcrypt, bind, Except.bind,
    hok]
  rfl

end Sky.Des
