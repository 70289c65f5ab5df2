import SkySdk.Base.CStr
import Mathlib.Data.List.Count
import Mathlib.Data.Nat.Digits.Lemmas

/-!
# Dotted decimals

`decimal n` is a number in decimal digits, and `dotted` four of them with dots between. A text that
has three dots itself and is found in a `dotted` is cut by its dots where the `dotted` is, so that
only the digits before the first dot and behind the last can differ (`zeros_infix_dotted`).
-/

set_option autoImplicit false

namespace Base

def dot : UInt8 := 46

/-- The character of a digit. -/
def digit (d : Nat) : UInt8 := .ofNat (48 + d)

def decimal (n : Nat) : List UInt8 :=
  if n = 0 then [digit 0] else (Nat.digits 10 n).reverse.map digit

/-- `"%u.%u.%u.%u"` -/
def dotted (a b c d : Nat) : List UInt8 :=
  decimal a ++ dot :: (decimal b ++ dot :: (decimal c ++ dot :: decimal d))

/-- The first separator is at the same place in equal lists. -/
theorem cut_eq {α : Type} {s : α} {ys zs : List α} : ∀ {xs xs' : List α}, s ∉ xs → s ∉ xs' →
    xs ++ s :: ys = xs' ++ s :: zs → xs = xs' ∧ ys = zs
  | [], [], _, _, h => ⟨rfl, (List.cons.inj h).2⟩
  | [], _ :: _, _, hxs, h => absurd ((List.cons.inj h).1 ▸ List.mem_cons_self) hxs
  | _ :: _, [], hxs, _, h => absurd ((List.cons.inj h).1 ▸ List.mem_cons_self) hxs
  | x :: xs, x' :: xs', hx, hx', h => by
    obtain ⟨rfl, htail⟩ := List.cons.inj h
    obtain ⟨rfl, hys⟩ := cut_eq (fun hs => hx (.tail x hs)) (fun hs => hx' (.tail x hs)) htail
    exact ⟨rfl, hys⟩

variable {a b c d n : Nat}

theorem digit_inj {d e : Nat} (hd : d < 10) (he : e < 10) (h : digit d = digit e) : d = e := by
  have hnat := congrArg UInt8.toNat h
  simp only [digit, UInt8.toNat_ofNat'] at hnat
  omega

theorem digit_ne_dot (hd : d < 10) : digit d ≠ dot := by
  intro h
  have hnat := congrArg UInt8.toNat h
  simp only [digit, dot, UInt8.toNat_ofNat', UInt8.reduceToNat] at hnat
  omega

theorem digit_ne_zero (hd : d < 10) : digit d ≠ 0 := by
  intro h
  have hnat := congrArg UInt8.toNat h
  simp only [digit, UInt8.toNat_ofNat', UInt8.reduceToNat] at hnat
  omega

theorem decimal_of_ne (h : n ≠ 0) : decimal n = (Nat.digits 10 n).reverse.map digit := if_neg h

theorem mem_decimal {x : UInt8} (h : x ∈ decimal n) : ∃ d < 10, x = digit d := by
  by_cases hn : n = 0
  · subst hn
    exact ⟨0, by decide, List.mem_singleton.1 h⟩
  · rw [decimal_of_ne hn, List.mem_map] at h
    obtain ⟨d, hd, rfl⟩ := h
    exact ⟨d, Nat.digits_lt_base (by decide) (List.mem_reverse.1 hd), rfl⟩

theorem dot_notMem_decimal (n : Nat) : dot ∉ decimal n := by
  intro h
  obtain ⟨d, hd, hx⟩ := mem_decimal h
  exact digit_ne_dot hd hx.symm

theorem count_decimal (n : Nat) : (decimal n).count dot = 0 :=
  List.count_eq_zero.2 (dot_notMem_decimal n)

theorem decimal_concat (n : Nat) : ∃ ds, decimal n = ds ++ [digit (n % 10)] := by
  by_cases hn : n = 0
  · subst hn
    exact ⟨[], rfl⟩
  · rw [decimal_of_ne hn, Nat.digits_def' (by decide) (Nat.pos_of_ne_zero hn), List.reverse_cons,
      List.map_append]
    exact ⟨_, rfl⟩

theorem decimal_ends {ds : List UInt8} (h : decimal n = ds ++ [digit 0]) : n % 10 = 0 := by
  obtain ⟨es, hes⟩ := decimal_concat n
  rw [hes] at h
  have hlast := (List.append_inj' h rfl).2
  exact digit_inj (Nat.mod_lt _ (by decide)) (by decide) (List.cons.inj hlast).1

theorem decimal_starts {ds : List UInt8} (h : decimal n = digit 0 :: ds) : n = 0 := by
  by_contra hn
  have hne : Nat.digits 10 n ≠ [] := Nat.digits_ne_nil_iff_ne_zero.2 hn
  have hrev : (Nat.digits 10 n).reverse =
      (Nat.digits 10 n).getLast hne :: (Nat.digits 10 n).dropLast.reverse := by
    conv_lhs => rw [← List.dropLast_append_getLast hne]
    rw [List.reverse_append]
    rfl
  rw [decimal_of_ne hn, hrev, List.map_cons] at h
  have hlt : (Nat.digits 10 n).getLast hne < 10 :=
    Nat.digits_lt_base (by decide) (List.getLast_mem hne)
  exact Nat.getLast_digit_ne_zero 10 hn (digit_inj hlt (by decide) (List.cons.inj h).1)

theorem zero_notMem_dotted (a b c d : Nat) : (0 : UInt8) ∉ dotted a b c d := by
  have hdecimal (n : Nat) : (0 : UInt8) ∉ decimal n := by
    intro h
    obtain ⟨d, hd, hx⟩ := mem_decimal h
    exact digit_ne_zero hd hx.symm
  have hdot : (0 : UInt8) ≠ dot := by decide
  simp [dotted, hdecimal, hdot]

/-- `"0.0.0.0"` -/
def dottedZeros : List UInt8 := dotted 0 0 0 0

theorem dottedZeros_eq : dottedZeros =
    [digit 0] ++ dot :: ([digit 0] ++ dot :: ([digit 0] ++ dot :: [digit 0])) := rfl

/-- `0.0.0.0` is found in every address of zeros whose first number ends with a 0. -/
theorem zeros_infix_dotted : dottedZeros <:+: dotted a b c d ↔
    a % 10 = 0 ∧ b = 0 ∧ c = 0 ∧ d = 0 := by
  constructor
  · intro h
    obtain ⟨pre, post, htext⟩ := h
    have hcount := congrArg (List.count dot) htext
    simp only [dottedZeros_eq, dotted, List.count_append, List.count_cons, count_decimal,
      List.count_nil] at hcount
    have h0 : (digit 0 == dot) = false := by decide
    simp only [h0, beq_self_eq_true, if_true, Bool.false_eq_true, if_false] at hcount
    have hpre : dot ∉ pre := List.count_eq_zero.1 (by omega)
    have hdot : dot ∉ [digit 0] := by decide
    have hcut : (pre ++ [digit 0]) ++ dot :: ([digit 0] ++ dot :: ([digit 0] ++ dot ::
        (digit 0 :: post))) = dotted a b c d := by
      rw [← htext, dottedZeros_eq]
      simp
    -- the dots are at the same places
    have hfirst : dot ∉ pre ++ [digit 0] := by simpa [hpre] using hdot
    obtain ⟨ha, h1⟩ := cut_eq hfirst (dot_notMem_decimal a) hcut
    obtain ⟨hb, h2⟩ := cut_eq hdot (dot_notMem_decimal b) h1
    obtain ⟨hc, hd⟩ := cut_eq hdot (dot_notMem_decimal c) h2
    exact ⟨decimal_ends ha.symm, decimal_starts hb.symm, decimal_starts hc.symm,
      decimal_starts hd.symm⟩
  · intro h
    obtain ⟨ha, rfl, rfl, rfl⟩ := h
    obtain ⟨ds, hds⟩ := decimal_concat a
    refine ⟨ds, [], ?_⟩
    rw [dotted, hds, ha, dottedZeros_eq]
    simp [decimal]

end Base
