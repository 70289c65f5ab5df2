import SkySdk.Base.CStr
import Mathlib.Data.List.Infix

/-!
# `sky_str.c`: comparing and searching

`sky_str_cmp` and `sky_str_str` are `strcmp` and `strstr`. What is found is an offset, `none` for
NULL.
-/

set_option autoImplicit false

namespace Sky

open Base

/-- The difference of the first characters that differ, as `unsigned char`s; the end is a 0. -/
def strcmp : List UInt8 → List UInt8 → Int
  | [], [] => 0
  | [], y :: _ => -(y.toNat : Int)
  | x :: _, [] => x.toNat
  | x :: xs, y :: ys => if x = y then strcmp xs ys else (x.toNat : Int) - y.toNat

def skyStrCmp (str1 str2 : CStr) : Int := strcmp str1.bytes str2.bytes

/-- The offset at which `needle` is found, the first of `haystack` having offset `i`. -/
def strstr (needle : List UInt8) (i : Nat) : List UInt8 → Option Nat
  | [] => if needle = [] then some i else none
  | x :: xs => if needle <+: x :: xs then some i else strstr needle (i + 1) xs

def skyStrStr (haystack needle : CStr) : Option Nat := strstr needle.bytes 0 haystack.bytes

theorem toNat_ne_zero {x : UInt8} (h : x ≠ 0) : (x.toNat : Int) ≠ 0 := by
  intro hx
  exact h (UInt8.toNat_inj.1 (Int.ofNat_eq_zero.1 hx))

theorem strcmp_eq_zero : ∀ {xs ys : List UInt8}, 0 ∉ xs → 0 ∉ ys → (strcmp xs ys = 0 ↔ xs = ys)
  | [], [], _, _ => iff_of_true rfl rfl
  | [], y :: ys, _, hy => by
    have hne := toNat_ne_zero fun h : y = 0 => hy (h ▸ List.mem_cons_self)
    exact iff_of_false (fun h => hne (Int.neg_eq_zero.1 h)) (List.cons_ne_nil y ys).symm
  | x :: xs, [], hx, _ => by
    have hne := toNat_ne_zero fun h : x = 0 => hx (h ▸ List.mem_cons_self)
    exact iff_of_false hne (List.cons_ne_nil x xs)
  | x :: xs, y :: ys, hx, hy => by
    have ih := strcmp_eq_zero (fun h => hx (.tail x h)) (fun h => hy (.tail y h))
    by_cases hxy : x = y
    · subst hxy
      rw [strcmp, if_pos rfl, ih, List.cons_inj_right]
    · rw [strcmp, if_neg hxy]
      refine iff_of_false ?_ fun h => hxy (List.cons.inj h).1
      intro h
      exact hxy (UInt8.toNat_inj.1 (by omega))

theorem skyStrCmp_eq_zero {str1 str2 : CStr} : skyStrCmp str1 str2 = 0 ↔ str1 = str2 := by
  rw [skyStrCmp, strcmp_eq_zero str1.noNul str2.noNul]
  exact CStr.ext_iff.symm

theorem strstr_isSome (needle : List UInt8) : ∀ (i : Nat) (xs : List UInt8),
    (strstr needle i xs).isSome ↔ needle <:+: xs
  | i, [] => by
    rw [strstr, List.infix_nil]
    by_cases h : needle = [] <;> simp [h]
  | i, x :: xs => by
    rw [strstr, List.infix_cons_iff]
    by_cases h : needle <+: x :: xs
    · simp [h]
    · rw [if_neg h, strstr_isSome needle (i + 1) xs]
      simp [h]

theorem skyStrStr_isSome {haystack needle : CStr} :
    (skyStrStr haystack needle).isSome ↔ needle.bytes <:+: haystack.bytes :=
  strstr_isSome _ _ _

end Sky
