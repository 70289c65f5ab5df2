import SkySdk.Debug.Log
import Mathlib.Data.Nat.Bitwise

/-!
# Which messages are seen

The level is the last one that the environment named to `sky_debug_init`, in letters of any case
(`run_level`). The mask of `syslog` lets through what the macros let through, at any moment
(`run_passes`), so that a message is seen or not whether the process is in the background or not
(`run_seen`).
-/

set_option autoImplicit false

namespace Sky.Debug

open Base

/-- The level whose name a string is but for the case of letters. -/
def named (s : CStr) : Option Level :=
  [Level.fatal, .error, .warn, .trace, .debug].find? fun level =>
    s.bytes.map toLower = level.name.bytes.map toLower

/-- The level that an operation names. -/
def LogOp.names : LogOp → Option Level
  | .init (some logLevel) => named logLevel
  | _ => none

theorem toLower_ne_zero {c : UInt8} (h : c ≠ 0) : toLower c ≠ 0 := by
  unfold toLower
  split
  · next hc =>
    intro h0
    have h1 := UInt8.le_iff_toNat_le.1 hc.1
    have h2 := UInt8.le_iff_toNat_le.1 hc.2
    have hsum := congrArg UInt8.toNat h0
    rw [UInt8.toNat_add] at hsum
    simp only [UInt8.reduceToNat] at h1 h2 hsum
    omega
  · exact h

theorem zero_notMem_lower (s : CStr) : 0 ∉ s.bytes.map toLower := by
  intro h
  obtain ⟨c, hc, h0⟩ := List.mem_map.1 h
  exact toLower_ne_zero (fun hz => s.noNul (hz ▸ hc)) h0

theorem skyStrCasecmp_eq_zero {s t : CStr} :
    skyStrCasecmp s t = 0 ↔ s.bytes.map toLower = t.bytes.map toLower :=
  strcmp_eq_zero (zero_notMem_lower s) (zero_notMem_lower t)

theorem levelFrom_eq (s : CStr) (level : Level) :
    levelFrom (some s) level = (named s).getD level := by
  simp only [levelFrom, skyStrCasecmp_eq_zero, named, List.find?_cons, List.find?_nil]
  repeat' split
  all_goals simp_all

/-! ## Runs -/

theorem apply_level (s : Logging) (op : LogOp) :
    (op.apply s).skyLogLevel = op.names.getD s.skyLogLevel := by
  cases op with
  | init logLevel =>
    cases logLevel with
    | none => rfl
    | some logLevel => exact levelFrom_eq logLevel s.skyLogLevel
  | uninit => rfl
  | setRunInBackground succeeds => rfl
  | log level stamp text => rfl

theorem run_concat (ops : List LogOp) (op : LogOp) : run (ops ++ [op]) = op.apply (run ops) := by
  rw [run, List.foldl_append, List.foldl_cons, List.foldl_nil, run]

/-- The level is the last one that was named, and at first that of warnings. -/
theorem run_level (ops : List LogOp) :
    (run ops).skyLogLevel = (ops.filterMap LogOp.names).getLast?.getD .warn := by
  induction ops using List.reverseRecOn with
  | nil => rfl
  | append_singleton ops op ih =>
    rw [run_concat, apply_level, List.filterMap_append, ih]
    cases hop : op.names with
    | none => simp [hop]
    | some level => simp [hop]

theorem testBit_logUpto (n k : Nat) : (logUpto n).testBit k = decide (k < n + 1) := by
  rw [logUpto, Nat.one_shiftLeft, Nat.testBit_two_pow_sub_one]

/-- Every priority that a macro of the level lets through passes the mask. -/
def Passes (s : Logging) : Prop := ∀ level : Level, level.code ≤ s.skyLogLevel.code →
  s.mask.testBit level.code = true

theorem passes_start : Passes .start := by
  intro level _
  cases level <;> rfl

theorem apply_passes {s : Logging} (h : Passes s) (op : LogOp) : Passes (op.apply s) := by
  cases op with
  | init logLevel =>
    intro level hl
    show (logUpto (levelFrom logLevel s.skyLogLevel).code).testBit level.code = true
    rw [testBit_logUpto]
    exact decide_eq_true (Nat.lt_succ_of_le hl)
  | uninit => exact h
  | setRunInBackground succeeds => exact h
  | log level stamp text => exact h

theorem run_passes (ops : List LogOp) : Passes (run ops) := by
  induction ops using List.reverseRecOn with
  | nil => exact passes_start
  | append_singleton ops op ih => exact run_concat ops op ▸ apply_passes ih op

/-- After every run a message is seen exactly if its level is not above the one that was named last,
and then whole, in the place that the process is to write to. -/
theorem run_seen (ops : List LogOp) (level : Level) (stamp text : List UInt8) :
    skyLogMacro level (run ops) stamp text =
      if level.code ≤ ((ops.filterMap LogOp.names).getLast?.getD .warn).code then
        some (if (run ops).background then .syslog text else .stdout (stamp ++ text))
      else none := by
  rw [← run_level, skyLogMacro]
  by_cases hl : level.code ≤ (run ops).skyLogLevel.code
  · rw [if_neg (Nat.not_lt.2 hl), if_pos hl, skyLog, vsyslog, run_passes ops level hl]
    cases (run ops).background <;> rfl
  · rw [if_pos (Nat.lt_of_not_le hl), if_neg hl]

end Sky.Debug
