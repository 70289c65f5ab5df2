import Mathlib.Algebra.Group.Nat.Defs
import Mathlib.Data.List.GetD

/-!
# Bit streams

A list of `w`-bit digits read as a stream of bits, the most significant bit of a digit first and
zeros past the end: `bitAt` is a bit of it, `bitsAt` the number that a run of bits spells. A run
inside the digits is cut out of their `value` by a division and a remainder (`bitsAt_eq`), which is
how digits of another width are read off the same stream.
-/

set_option autoImplicit false

namespace Base.Bits

variable {w n m off : Nat} {ds es : List Nat}

/-- The bit `n` of the stream. -/
def bitAt (w : Nat) (ds : List Nat) (n : Nat) : Nat := ds.getD (n / w) 0 / 2 ^ (w - 1 - n % w) % 2

/-- The number that the bits `off`, …, `off + m - 1` spell. -/
def bitsAt (w : Nat) (ds : List Nat) (off : Nat) : Nat → Nat
  | 0 => 0
  | m + 1 => 2 * bitsAt w ds off m + bitAt w ds (off + m)

/-- The number that all bits of the digits spell. -/
def value (w : Nat) : List Nat → Nat
  | [] => 0
  | d :: ds => d * 2 ^ (w * ds.length) + value w ds

theorem value_lt (hd : ∀ d ∈ ds, d < 2 ^ w) : value w ds < 2 ^ (w * ds.length) := by
  induction ds with
  | nil => exact Nat.one_pos
  | cons d ds ih =>
    have hlt := ih fun e he => hd e (List.mem_cons_of_mem d he)
    have hd1 : d + 1 ≤ 2 ^ w := hd d List.mem_cons_self
    calc value w (d :: ds) < d * 2 ^ (w * ds.length) + 2 ^ (w * ds.length) :=
          Nat.add_lt_add_left hlt _
      _ = (d + 1) * 2 ^ (w * ds.length) := (Nat.succ_mul _ _).symm
      _ ≤ 2 ^ w * 2 ^ (w * ds.length) := Nat.mul_le_mul_right _ hd1
      _ = 2 ^ (w * (d :: ds).length) := by
        rw [← Nat.pow_add, List.length_cons, Nat.mul_succ, Nat.add_comm]

theorem bitAt_cons_of_lt {d : Nat} (hn : n < w) :
    bitAt w (d :: ds) n = d / 2 ^ (w - 1 - n) % 2 := by
  rw [bitAt, Nat.div_eq_of_lt hn, Nat.mod_eq_of_lt hn]
  rfl

theorem bitAt_cons_add {d : Nat} (hw : 0 < w) : bitAt w (d :: ds) (w + n) = bitAt w ds n := by
  rw [bitAt, Nat.add_div_left n hw, Nat.add_mod_left]
  rfl

/-- A bit inside the digits is one of their value. -/
theorem bitAt_eq (hw : 0 < w) : ∀ {ds : List Nat} {n : Nat}, (∀ d ∈ ds, d < 2 ^ w) →
    n < w * ds.length → bitAt w ds n = value w ds / 2 ^ (w * ds.length - 1 - n) % 2
  | [], n, _, hn => absurd hn (Nat.not_lt_zero n)
  | d :: ds, n, hd, hn => by
    have hds : ∀ e ∈ ds, e < 2 ^ w := fun e he => hd e (List.mem_cons_of_mem d he)
    have hlt := value_lt hds
    rw [List.length_cons, Nat.mul_succ] at hn ⊢
    rcases Nat.lt_or_ge n w with hnw | hnw
    · -- the bit is one of `d`, which all of `ds` follows
      have hexp : w * ds.length + w - 1 - n = w * ds.length + (w - 1 - n) := by omega
      rw [bitAt_cons_of_lt hnw, value, hexp, Nat.pow_add, ← Nat.div_div_eq_div_mul,
        Nat.mul_comm d, Nat.mul_add_div (Nat.two_pow_pos _), Nat.div_eq_of_lt hlt, Nat.add_zero]
    · obtain ⟨k, rfl⟩ := Nat.exists_eq_add_of_le hnw
      have hk : k < w * ds.length := by omega
      have hexp : w * ds.length + w - 1 - (w + k) = w * ds.length - 1 - k := by omega
      -- `d` stands for an even multiple of the bit
      have hpow : 2 ^ (w * ds.length) = 2 ^ (w * ds.length - 1 - k) * 2 ^ k * 2 := by
        rw [← Nat.pow_add, ← Nat.pow_succ]
        exact congrArg (2 ^ ·) (by omega)
      have heven : d * 2 ^ (w * ds.length) = 2 ^ (w * ds.length - 1 - k) * (d * 2 ^ k * 2) := by
        rw [hpow]
        ac_rfl
      rw [bitAt_cons_add hw, bitAt_eq hw hds hk, value, hexp, heven,
        Nat.mul_add_div (Nat.two_pow_pos _), Nat.mul_add_mod_self_right]

/-- A run of bits inside the digits. -/
theorem bitsAt_eq (hw : 0 < w) (hd : ∀ d ∈ ds, d < 2 ^ w) : ∀ {m : Nat}, off + m ≤ w * ds.length →
    bitsAt w ds off m = value w ds / 2 ^ (w * ds.length - off - m) % 2 ^ m
  | 0, _ => (Nat.mod_one _).symm
  | m + 1, hm => by
    have ih := bitsAt_eq hw hd (Nat.le_of_succ_le hm)
    have hbit := bitAt_eq hw hd (n := off + m) (by omega)
    have hexp : w * ds.length - off - m = w * ds.length - off - (m + 1) + 1 := by omega
    have hexp' : w * ds.length - 1 - (off + m) = w * ds.length - off - (m + 1) := by omega
    rw [bitsAt, ih, hbit, hexp, hexp', Nat.pow_succ, ← Nat.div_div_eq_div_mul, Nat.pow_succ,
      Nat.mul_comm (2 ^ m) 2, Nat.mod_mul]
    omega

theorem bitsAt_lt (w : Nat) (ds : List Nat) (off m : Nat) : bitsAt w ds off m < 2 ^ m := by
  induction m with
  | zero => exact Nat.one_pos
  | succ m ih =>
    have hbit : bitAt w ds (off + m) < 2 := Nat.mod_lt _ (by decide)
    rw [bitsAt, Nat.pow_succ]
    omega

theorem bitsAt_congr {v off' : Nat} (m : Nat)
    (h : ∀ k < m, bitAt w ds (off + k) = bitAt v es (off' + k)) :
    bitsAt w ds off m = bitsAt v es off' m := by
  induction m with
  | zero => rfl
  | succ m ih =>
    rw [bitsAt, bitsAt, ih fun k hk => h k (Nat.lt_succ_of_lt hk), h m (Nat.lt_succ_self m)]

theorem bitsAt_append_right (hw : 0 < w) (ds es : List Nat) (off m : Nat) :
    bitsAt w (ds ++ es) (w * ds.length + off) m = bitsAt w es off m := by
  refine bitsAt_congr m fun k _ => ?_
  rw [Nat.add_assoc]
  induction ds with
  | nil => rw [List.length_nil, Nat.mul_zero, Nat.zero_add, List.nil_append]
  | cons d ds ih =>
    rw [List.length_cons, Nat.mul_succ, Nat.add_comm (w * ds.length), Nat.add_assoc,
      List.cons_append, bitAt_cons_add hw, ih]

theorem bitsAt_append_left (hm : off + m ≤ w * ds.length) :
    bitsAt w (ds ++ es) off m = bitsAt w ds off m := by
  refine bitsAt_congr m fun k hk => ?_
  have hlt : (off + k) / w < ds.length := Nat.div_lt_of_lt_mul (by omega)
  rw [bitAt, bitAt, List.getD_append _ _ _ _ hlt]

/-- Zeros at the end are there already. -/
theorem bitsAt_append_zeros (w : Nat) (ds : List Nat) (z off m : Nat) :
    bitsAt w (ds ++ List.replicate z 0) off m = bitsAt w ds off m := by
  refine bitsAt_congr m fun k _ => ?_
  have hget : (ds ++ List.replicate z 0).getD ((off + k) / w) 0 = ds.getD ((off + k) / w) 0 := by
    rcases Nat.lt_or_ge ((off + k) / w) ds.length with hlt | hge
    · exact List.getD_append _ _ _ _ hlt
    · rw [List.getD_append_right _ _ _ _ hge, List.getD_eq_default _ _ hge,
        List.getD_eq_getElem?_getD, List.getElem?_getD_replicate_default_eq]
  rw [bitAt, bitAt, hget]

end Base.Bits
