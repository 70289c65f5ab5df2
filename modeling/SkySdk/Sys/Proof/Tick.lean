import SkySdk.Rwlock.Defs
import SkySdk.Sys.Tick

/-!
# Differences of ticks

A tick is the time modulo 2^32, also where the 64-bit arithmetic of the clock wraps
(`tickOf_int64`). The three branches of `sky_systick_diff` are one subtraction
(`skySystickDiff_eq`), so that it gives the time between two readings as long as that fits
(`systickDiff_exact`).
-/

set_option autoImplicit false

namespace Sky

open Base

/-! ## Ticks -/

theorem toNat_ofInt32 (x : Int) : ((UInt32.ofInt x).toNat : Int) = x % 2 ^ 32 := by
  rw [UInt32.ofInt, UInt32.toNat_ofNat']
  omega

theorem bmod_emod (x : Int) : x.bmod (2 ^ 64) % 2 ^ 32 = x % 2 ^ 32 := by
  rw [Int.bmod_def]
  omega

theorem toNat_low (x : Int64) : (x.toUInt64.toUInt32.toNat : Int) = x.toInt % 2 ^ 32 := by
  have hbits := BitVec.toInt_eq_toNat_bmod x.toBitVec
  rw [Int64.toInt_toBitVec] at hbits
  rw [hbits, bmod_emod, UInt64.toNat_toUInt32]
  rfl

/-- With fields of 64 bits and arithmetic that wraps, the tick is the same. -/
theorem tickOf_int64 (sec nsec : Int64) :
    (sec * 1000 + nsec / (1000 * 1000)).toUInt64.toUInt32 = tickOf ⟨sec.toInt, nsec.toInt⟩ := by
  have hdiv : (nsec / (1000 * 1000)).toInt = nsec.toInt.tdiv (1000 * 1000) :=
    Int64.toInt_div_of_ne_right nsec (1000 * 1000) (by decide)
  have hmul : (sec * 1000).toInt % 2 ^ 32 = sec.toInt * 1000 % 2 ^ 32 := by
    rw [Int64.toInt_mul, bmod_emod]
    rfl
  have hlow : ((sec * 1000 + nsec / (1000 * 1000)).toUInt64.toUInt32.toNat : Int) =
      Timespec.millis ⟨sec.toInt, nsec.toInt⟩ % 2 ^ 32 := by
    rw [toNat_low, Int64.toInt_add, bmod_emod, hdiv, ← Int.emod_add_emod, hmul, Int.emod_add_emod]
    rfl
  rw [← toNat_ofInt32] at hlow
  exact UInt32.toNat_inj.1 (Int.ofNat_inj.1 hlow)

/-- The reading whose tick is returned: the first one whose tick is not 0. -/
def acceptedReading (readings : List Timespec) : Option Timespec :=
  readings.find? fun tp => tickOf tp ≠ 0

theorem skySystickGet_accepted : ∀ {readings : List Timespec} {tp : Timespec},
    acceptedReading readings = some tp → skySystickGet readings = .ok (tickOf tp)
  | [], _, h => by cases h
  | tp' :: readings, tp, h => by
    rw [skySystickGet]
    by_cases hz : tickOf tp' = 0
    · rw [acceptedReading, List.find?_cons_of_neg (by simpa using hz)] at h
      rw [if_pos hz]
      exact skySystickGet_accepted h
    · rw [acceptedReading, List.find?_cons_of_pos (by simpa using hz)] at h
      obtain rfl := Option.some.inj h
      rw [if_neg hz]

/-! ## Differences -/

/-- All three branches subtract in 32 bits. -/
theorem skySystickDiff_eq (a b : UInt32) : skySystickDiff a b = b - a := by
  unfold skySystickDiff
  split
  · split
    · grind
    · rfl
  · grind

theorem skySystickDiff_ofInt (x y : Int) :
    ((skySystickDiff (.ofInt x) (.ofInt y)).toNat : Int) = (y - x) % 2 ^ 32 := by
  have hx := toNat_ofInt32 x
  have hy := toNat_ofInt32 y
  rw [skySystickDiff_eq, UInt32.toNat_sub]
  omega

/-- The ticks of two readings that are less than 2^32 milliseconds apart differ by the time between
them, and the differences of any ticks add up modulo 2^32. -/
theorem systickDiff_exact :
    (∀ (early later : List Timespec) (c1 c2 : Timespec), acceptedReading early = some c1 →
      acceptedReading later = some c2 → 0 ≤ c2.millis - c1.millis →
      c2.millis - c1.millis < 2 ^ 32 →
      ∃ t1 t2, skySystickGet early = .ok t1 ∧ skySystickGet later = .ok t2 ∧
        ((skySystickDiff t1 t2).toNat : Int) = c2.millis - c1.millis) ∧
    ∀ a b c : UInt32, skySystickDiff a b + skySystickDiff b c = skySystickDiff a c := by
  constructor
  · intro early later c1 c2 h1 h2 hle hlt
    refine ⟨_, _, skySystickGet_accepted h1, skySystickGet_accepted h2, ?_⟩
    rw [tickOf, tickOf, skySystickDiff_ofInt, Int.emod_eq_of_lt hle hlt]
  · intro a b c
    rw [skySystickDiff_eq, skySystickDiff_eq, skySystickDiff_eq]
    grind

/-- From a millisecond before the tick wraps to 6 later; the reading at the wrap is retried. -/
theorem systickDiff_exact_wrap : ∃ t1 t2, skySystickGet [⟨4294967, 295000000⟩] = .ok t1 ∧
    skySystickGet [⟨4294967, 296000000⟩, ⟨4294967, 301999999⟩] = .ok t2 ∧
      ((skySystickDiff t1 t2).toNat : Int) = 6 :=
  systickDiff_exact.1 _ _ ⟨4294967, 295000000⟩ ⟨4294967, 301999999⟩ (by decide) (by decide)
    (by decide) (by decide)

end Sky
