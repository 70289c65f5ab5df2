import Mathlib.Logic.Basic

/-!
# The Gregorian calendar in days

Years and months as days from 1970-01-01. A day is in exactly the year `yearOf` gives
(`yearOf_spec`), at a place in it that `monthOf` finds the month of (`monthOf_spec`), and years are
at least 365 days apart (`daysBeforeYear_mono`).
-/

set_option autoImplicit false

namespace Base

def isLeap (y : Int) : Bool := y % 4 = 0 ∧ (y % 100 ≠ 0 ∨ y % 400 = 0)

def daysInYear (leap : Bool) : Nat := if leap then 366 else 365

/-- The days from 1970-01-01 to the start of a year. -/
def daysBeforeYear (y : Int) : Int :=
  365 * (y - 1970) + (y - 1969) / 4 - (y - 1901) / 100 + (y - 1601) / 400

/-- The year of a day: the mean length of a year leads to it or to one beside it. -/
def yearOf (day : Int) : Int :=
  let y := 1970 + 400 * day / 146097
  if day < daysBeforeYear y then y - 1
  else if daysBeforeYear (y + 1) ≤ day then y + 1
  else y

/-- The days of a year before a month, which is counted from 0. -/
def monthStart (leap : Bool) (m : Nat) : Nat :=
  [0, 31, 59, 90, 120, 151, 181, 212, 243, 273, 304, 334].getD m 0 +
    if leap ∧ 2 ≤ m then 1 else 0

/-- The month of a day of a year, both counted from 0. -/
def monthOf (leap : Bool) (yday : Nat) : Nat :=
  ((List.range 11).find? fun m => yday < monthStart leap (m + 1)).getD 11

/-- The number of a day. -/
def daysOf (y : Int) (m : Nat) (mday : Int) : Int :=
  daysBeforeYear y + monthStart (isLeap y) m + mday - 1

theorem daysBeforeYear_succ (y : Int) :
    daysBeforeYear (y + 1) = daysBeforeYear y + daysInYear (isLeap y) := by
  unfold daysBeforeYear daysInYear
  by_cases h : isLeap y = true
  · rw [if_pos h]
    simp only [isLeap, decide_eq_true_eq] at h
    omega
  · rw [if_neg h]
    simp only [isLeap, decide_eq_true_eq] at h
    omega

theorem daysBeforeYear_mono {y y' : Int} (h : y ≤ y') :
    daysBeforeYear y + 365 * (y' - y) ≤ daysBeforeYear y' := by
  unfold daysBeforeYear
  omega

/-- The estimate is at most one year off. -/
theorem estimate_near (day : Int) : daysBeforeYear (1970 + 400 * day / 146097 - 1) ≤ day ∧
    day < daysBeforeYear (1970 + 400 * day / 146097 + 1 + 1) := by
  obtain ⟨q, hq⟩ : ∃ q, q = 400 * day / 146097 := ⟨_, rfl⟩
  rw [← hq]
  unfold daysBeforeYear
  constructor
  · have h4 : (1970 + q - 1 - 1969) / 4 * 4 ≤ q := by omega
    have h100 : q - 30 - 99 ≤ (1970 + q - 1 - 1901) / 100 * 100 := by omega
    have h400 : (1970 + q - 1 - 1601) / 400 * 400 ≤ q + 368 := by omega
    omega
  · have h4 : q + 3 ≤ (1970 + q + 1 + 1 - 1969) / 4 * 4 + 3 := by omega
    have h100 : (1970 + q + 1 + 1 - 1901) / 100 * 100 ≤ q + 71 := by omega
    have h400 : q + 371 ≤ (1970 + q + 1 + 1 - 1601) / 400 * 400 + 399 := by omega
    omega

theorem yearOf_spec (day : Int) :
    daysBeforeYear (yearOf day) ≤ day ∧ day < daysBeforeYear (yearOf day + 1) := by
  obtain ⟨hle, hlt⟩ := estimate_near day
  unfold yearOf
  dsimp only
  split
  · rename_i h
    rw [Int.sub_add_cancel]
    exact ⟨hle, h⟩
  · rename_i h
    split
    · rename_i h'
      exact ⟨h', hlt⟩
    · rename_i h'
      exact ⟨Int.not_lt.1 h, Int.not_le.1 h'⟩

/-- A day is in its year. -/
theorem yearOf_yday (day : Int) : 0 ≤ day - daysBeforeYear (yearOf day) ∧
    day - daysBeforeYear (yearOf day) < daysInYear (isLeap (yearOf day)) := by
  obtain ⟨hle, hlt⟩ := yearOf_spec day
  rw [daysBeforeYear_succ] at hlt
  omega

theorem monthOf_spec (leap : Bool) {yday : Nat} (h : yday < daysInYear leap) :
    monthOf leap yday < 12 ∧ monthStart leap (monthOf leap yday) ≤ yday ∧
      yday < monthStart leap (monthOf leap yday) + 31 := by
  have hall : ∀ leap : Bool, ∀ yday < daysInYear leap, monthOf leap yday < 12 ∧
      monthStart leap (monthOf leap yday) ≤ yday ∧
      yday < monthStart leap (monthOf leap yday) + 31 := by
    decide +kernel
  exact hall leap yday h

/-- Leap years are a day ahead from March on. -/
theorem monthStart_leap (leap : Bool) (m : Nat) :
    monthStart false m ≤ monthStart leap m ∧ monthStart leap m ≤ monthStart false m + 1 := by
  have hfalse : monthStart false m + 0 = monthStart false m := rfl
  unfold monthStart at *
  rw [if_neg (fun h => by cases h.1)]
  split <;> omega

end Base
