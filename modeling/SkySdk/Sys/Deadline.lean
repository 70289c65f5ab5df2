import SkySdk.Base.Buf
import SkySdk.Sys.Time
import SkySdk.Sys.Proof.Sleep

/-!
# `sky_sys.c`: deadlines

`sky_abstime_after_msec`, which the timed locks of `sky_rwlock.c` are given the result of. The clock
is what `gettimeofday` stores, or nothing where it fails; `long` and `time_t` have 64 bits.
-/

set_option autoImplicit false

namespace Sky

open Base

/-- A time after 1970. -/
structure Timeval.Valid (tv : Timeval) : Prop where
  sec : 0 ≤ tv.tvSec.toInt
  usec : 0 ≤ tv.tvUsec ∧ tv.tvUsec < 1000000

/-- The value of a `long` expression. -/
def long (i : Int) : Except Fault Int :=
  if -9223372036854775808 ≤ i ∧ i < 9223372036854775808 then .ok i else .error .overflow

def skyAbstimeAfterMsec (clock : Option Timeval) (milliseconds : UInt32) :
    Except Fault Timespec :=
  match clock with
  | none => .error .indeterminate
  | some tv => do
    let tvSec ← long (tv.tvSec.toInt + (milliseconds / 1000).toNat)
    let tvUsec ← long (tv.tvUsec + ((milliseconds % 1000) * 1000).toNat)
    let tvSec ← long (tvSec + tvUsec.tdiv (1000 * 1000))
    let tvUsec := tvUsec.tmod (1000 * 1000)
    let tvNsec ← long (tvUsec * 1000)
    pure { tvSec, tvNsec }

theorem long_ok {i : Int} (h : -9223372036854775808 ≤ i ∧ i < 9223372036854775808) :
    long i = .ok i := if_pos h

theorem long_overflow {i : Int} (h : ¬ (-9223372036854775808 ≤ i ∧ i < 9223372036854775808)) :
    long i = .error .overflow := if_neg h

/-- The milliseconds that are not whole seconds, in microseconds, do not wrap. -/
theorem toNat_rest (milliseconds : UInt32) :
    ((milliseconds % 1000) * 1000).toNat = milliseconds.toNat % 1000 * 1000 := by
  rw [UInt32.toNat_mul, UInt32.toNat_mod]
  show milliseconds.toNat % 1000 * 1000 % 2 ^ 32 = _
  omega

theorem toNat_seconds (milliseconds : UInt32) :
    (milliseconds / 1000).toNat = milliseconds.toNat / 1000 := UInt32.toNat_div _ _

/-- The deadline in whole seconds and microseconds. -/
theorem skyAbstimeAfterMsec_eq {tv : Timeval} (hv : tv.Valid) (milliseconds : UInt32) :
    let usec := tv.tvUsec + milliseconds.toNat * 1000
    skyAbstimeAfterMsec (some tv) milliseconds =
      if tv.tvSec.toInt + usec / 1000000 < 9223372036854775808 then
        .ok { tvSec := tv.tvSec.toInt + usec / 1000000, tvNsec := usec % 1000000 * 1000 }
      else .error .overflow := by
  intro usec
  obtain ⟨hs0, hu0, hu⟩ := hv
  have hms := milliseconds.toNat_lt
  unfold skyAbstimeAfterMsec
  dsimp only
  rw [toNat_seconds, toNat_rest]
  obtain ⟨rest, hrest⟩ : ∃ rest, rest =
    tv.tvUsec + ((milliseconds.toNat % 1000 * 1000 : Nat) : Int) := ⟨_, rfl⟩
  have hnonneg : 0 ≤ rest := by omega
  have hcarry := Int.tdiv_eq_ediv_of_nonneg (b := 1000 * 1000) hnonneg
  have hmod := Int.tmod_eq_emod_of_nonneg (b := 1000 * 1000) hnonneg
  -- the whole seconds are added in two steps
  have hsec : tv.tvSec.toInt + ((milliseconds.toNat / 1000 : Nat) : Int) + rest / (1000 * 1000) =
      tv.tvSec.toInt + usec / 1000000 := by
    simp only [usec]
    omega
  have hnsec : rest % (1000 * 1000) * 1000 = usec % 1000000 * 1000 := by
    simp only [usec]
    omega
  rw [← hrest]
  by_cases hfits : tv.tvSec.toInt + usec / 1000000 < 9223372036854775808
  · rw [if_pos hfits, long_ok ⟨by omega, by omega⟩, ok_bind, long_ok ⟨by omega, by omega⟩, ok_bind,
      hcarry, hmod, hsec, long_ok ⟨by omega, hfits⟩, ok_bind, hnsec, long_ok ⟨by omega, by omega⟩]
    rfl
  · rw [if_neg hfits]
    by_cases hfirst :
        tv.tvSec.toInt + ((milliseconds.toNat / 1000 : Nat) : Int) < 9223372036854775808
    · rw [long_ok ⟨by omega, hfirst⟩, ok_bind, long_ok ⟨by omega, by omega⟩, ok_bind, hcarry, hsec,
        long_overflow fun h => hfits h.2]
      rfl
    · rw [long_overflow fun h => hfirst h.2]
      rfl

/-- The nanoseconds of the deadline. -/
def deadlineNanos (tv : Timeval) (milliseconds : UInt32) : Int :=
  tv.tvSec.toInt * 1000000000 + tv.tvUsec * 1000 + milliseconds.toNat * 1000000

/-- The result is the valid time that is exactly so many milliseconds later; the one way to fail is
that its seconds do not fit. -/
theorem abstimeAfterMsec_exact {tv : Timeval} (hv : tv.Valid) (milliseconds : UInt32) :
    (∀ t, skyAbstimeAfterMsec (some tv) milliseconds = .ok t ↔
      t.Valid ∧ t.nanos = deadlineNanos tv milliseconds ∧ t.tvSec < 9223372036854775808) ∧
    ∀ e, skyAbstimeAfterMsec (some tv) milliseconds = .error e ↔
      e = .overflow ∧ 9223372036854775808 ≤ deadlineNanos tv milliseconds / 1000000000 := by
  rw [skyAbstimeAfterMsec_eq hv]
  obtain ⟨hs0, hu0, hu⟩ := hv
  unfold deadlineNanos Timespec.nanos
  constructor
  · intro t
    split
    · rw [Except.ok.injEq]
      constructor
      · rintro rfl
        refine ⟨⟨?_, ?_⟩, ?_, ?_⟩ <;> dsimp only <;> omega
      · rintro ⟨⟨ht0, ht⟩, hn, -⟩
        cases t
        dsimp only at *
        congr 1 <;> omega
    · refine iff_of_false nofun ?_
      rintro ⟨⟨ht0, ht⟩, hn, hlt⟩
      omega
  · intro e
    split
    · refine iff_of_false nofun ?_
      rintro ⟨-, hle⟩
      omega
    · rw [Except.error.injEq]
      constructor
      · rintro rfl
        exact ⟨rfl, by omega⟩
      · rintro ⟨rfl, -⟩
        rfl

/-- Half a second before midnight, and 4294967295 milliseconds. -/
theorem abstimeAfterMsec_exact_max :
    skyAbstimeAfterMsec (some ⟨86399, 500000⟩) 4294967295 = .ok ⟨4381366, 795000000⟩ := by
  have hv : Timeval.Valid ⟨86399, 500000⟩ := ⟨by decide, by decide, by decide⟩
  exact ((abstimeAfterMsec_exact hv 4294967295).1 _).2
    ⟨⟨by decide, by decide⟩, by decide, by decide⟩

end Sky
