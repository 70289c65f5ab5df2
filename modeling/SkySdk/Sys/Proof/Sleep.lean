import SkySdk.Sys.Tick

/-!
# How long `sky_systick_sleep` sleeps

The loop on `nanosleep` asks for what remains after each signal, so it sleeps long enough whatever
the signals are (`sleepLoop_enough`). The path of less than a second calls `usleep` once, and a
signal ends it.
-/

set_option autoImplicit false

namespace Sky

variable {late : Nat} {signals : List Nat} {req : Timespec} {milliseconds : UInt32}

/-- A time that `nanosleep` takes. -/
structure Timespec.Valid (t : Timespec) : Prop where
  sec : 0 ≤ t.tvSec
  nsec : 0 ≤ t.tvNsec ∧ t.tvNsec ≤ 999999999

theorem Timespec.nanos_ofNanos (ns : Int) : (Timespec.ofNanos ns).nanos = ns := by
  simp only [nanos, ofNanos]
  omega

theorem Timespec.valid_ofNanos {ns : Int} (h : 0 ≤ ns) : (Timespec.ofNanos ns).Valid := by
  refine ⟨?_, ?_⟩ <;> simp only [ofNanos] <;> omega

/-- A valid request is done, or what remains is valid and makes up for what was not slept. -/
theorem nanosleep_cases (signal : Option Nat) (h : req.Valid) :
    (∃ ns, nanosleep late signal req = (.done, ns) ∧ req.nanos ≤ ns) ∨
      ∃ (s : Nat) (rem : Timespec), signal = some s ∧
        nanosleep late signal req = (NanosleepResult.interrupted rem, (s : Int)) ∧ rem.Valid ∧
          rem.nanos = req.nanos - s := by
  have hvalid : ¬ (req.tvSec < 0 ∨ req.tvNsec < 0 ∨ 999999999 < req.tvNsec) := by
    have hsec := h.sec
    have hnsec := h.nsec
    omega
  cases signal with
  | none =>
    have hcall : nanosleep late none req = (.done, req.nanos + late) := if_neg hvalid
    exact .inl ⟨_, hcall, Int.le_add_of_nonneg_right (Int.natCast_nonneg late)⟩
  | some s =>
    unfold nanosleep
    dsimp only
    rw [if_neg hvalid]
    by_cases hs : s < req.nanos
    · rw [if_pos hs]
      refine .inr ⟨s, _, rfl, rfl, ?_, ?_⟩
      · exact Timespec.valid_ofNanos (by omega)
      · exact Timespec.nanos_ofNanos _
    · rw [if_neg hs]
      exact .inl ⟨_, rfl, Int.le_add_of_nonneg_right (Int.natCast_nonneg late)⟩

/-- Whatever the signals are, the loop sleeps as long as it is asked to, by valid requests. -/
theorem sleepLoop_enough (late : Nat) : ∀ (signals : List Nat) (req : Timespec), req.Valid →
    req.nanos ≤ (sleepLoop late signals req).nanos ∧
      ∀ t ∈ (sleepLoop late signals req).passed, t.Valid
  | [], req, h => by
    rcases nanosleep_cases none h with ⟨ns, hns, hle⟩ | ⟨s, rem, hs, -⟩
    · rw [sleepLoop, hns]
      exact ⟨hle, fun t ht => by rw [List.mem_singleton.1 ht]; exact h⟩
    · cases hs
  | s :: signals, req, h => by
    rcases nanosleep_cases (some s) h with ⟨ns, hns, hle⟩ | ⟨s', rem, -, hrem, hv, hn⟩
    · rw [sleepLoop, hns]
      exact ⟨hle, fun t ht => by rw [List.mem_singleton.1 ht]; exact h⟩
    · obtain ⟨hle, hpassed⟩ := sleepLoop_enough late signals rem hv
      rw [sleepLoop, hrem]
      refine ⟨by dsimp only; omega, fun t ht => ?_⟩
      rcases List.mem_cons.1 ht with rfl | ht
      · exact h
      · exact hpassed t ht

/-! ## The call -/

/-- The time slept is at least what was asked for, and the nanoseconds passed on are in range. -/
def SleepsEnough (late : Nat) (signals : List Nat) (milliseconds : UInt32) : Prop :=
  milliseconds.toNat * 1000000 ≤ (skySystickSleep late signals milliseconds).nanos ∧
    ∀ t ∈ (skySystickSleep late signals milliseconds).passed,
      0 ≤ t.tvNsec ∧ t.tvNsec ≤ 999999999

theorem sleepsEnough_long (h : 1000 ≤ milliseconds.toNat) :
    SleepsEnough late signals milliseconds := by
  have hone : ¬ (1 : UInt32) > milliseconds := by
    rw [gt_iff_lt, UInt32.lt_iff_toNat_lt]
    change ¬ milliseconds.toNat < 1
    omega
  have hshort : ¬ milliseconds < 1000 := by
    rw [UInt32.lt_iff_toNat_lt]
    change ¬ milliseconds.toNat < 1000
    omega
  have hdiv : (milliseconds / 1000).toNat = milliseconds.toNat / 1000 := rfl
  have hmod : (milliseconds % 1000).toNat = milliseconds.toNat % 1000 := rfl
  unfold SleepsEnough skySystickSleep
  simp only [if_neg hone, if_neg hshort, hdiv, hmod]
  obtain ⟨hle, hpassed⟩ := sleepLoop_enough late signals
    ⟨(milliseconds.toNat / 1000 : Nat), (milliseconds.toNat % 1000 : Nat) * (1000 * 1000)⟩
    ⟨by dsimp only; omega, by dsimp only; omega⟩
  refine ⟨?_, fun t ht => (hpassed t ht).nsec⟩
  simp only [Timespec.nanos] at hle
  omega

theorem skySystickSleep_short (late : Nat) (signals : List Nat)
    (h : milliseconds.toNat < 1000) :
    ∃ us : UInt32, us.toNat = 1000 * max 1 milliseconds.toNat ∧
      skySystickSleep late signals milliseconds = ⟨usleep late signals us, []⟩ := by
  have hlt : milliseconds < 1000 := UInt32.lt_iff_toNat_lt.2 h
  unfold skySystickSleep
  by_cases hone : (1 : UInt32) > milliseconds
  · have hzero : milliseconds.toNat < 1 := UInt32.lt_iff_toNat_lt.1 hone
    refine ⟨1000, ?_, ?_⟩
    · change 1000 = _
      omega
    · simp only [if_pos hone]
      rfl
  · refine ⟨milliseconds * 1000, ?_, ?_⟩
    · have hge : 1 ≤ milliseconds.toNat := UInt32.le_iff_toNat_le.1 (UInt32.not_lt.1 hone)
      rw [UInt32.toNat_mul]
      change milliseconds.toNat * 1000 % 2 ^ 32 = _
      omega
    · simp only [if_neg hone, if_pos hlt]

/-- `usleep` is over too soon if and only if a signal is delivered before. -/
theorem usleep_enough_iff (late : Nat) (signals : List Nat) (us : UInt32) :
    us.toNat * 1000 ≤ usleep late signals us ↔
      ∀ s, signals.head? = some s → us.toNat * 1000 ≤ s := by
  cases signals with
  | nil =>
    have hle : (us.toNat * 1000 : Int) ≤ us.toNat * 1000 + late := by omega
    exact ⟨fun _ _ hs => (by cases hs), fun _ => hle⟩
  | cons s signals =>
    rw [List.head?_cons]
    constructor
    · intro hle s' hs'
      cases hs'
      rw [usleep] at hle
      split at hle <;> omega
    · intro hs
      have hle := hs s rfl
      rw [usleep, if_neg (by omega)]
      omega

theorem usleep_nonneg (late : Nat) (signals : List Nat) (us : UInt32) :
    0 ≤ usleep late signals us := by
  unfold usleep
  split
  · omega
  · split <;> omega

/-- For every number of milliseconds and all signals: the call sleeps long enough, with valid
requests, if and only if it is asked for nothing or for a second or more, or no signal is delivered
before the time is over. -/
theorem sleepsEnough_iff (late : Nat) (signals : List Nat) (milliseconds : UInt32) :
    SleepsEnough late signals milliseconds ↔
      milliseconds = 0 ∨ 1000 ≤ milliseconds.toNat ∨
        ∀ s, signals.head? = some s → milliseconds.toNat * 1000000 ≤ s := by
  rcases Nat.lt_or_ge milliseconds.toNat 1000 with hlt | hge
  · obtain ⟨us, hus, hcall⟩ := skySystickSleep_short late signals hlt
    unfold SleepsEnough
    rw [hcall]
    rcases Nat.eq_zero_or_pos milliseconds.toNat with hzero | hpos
    · have hnonneg := usleep_nonneg late signals us
      have hms : milliseconds = 0 := UInt32.toNat_inj.1 hzero
      refine ⟨fun _ => .inl hms, fun _ => ⟨?_, fun t ht => absurd ht List.not_mem_nil⟩⟩
      dsimp only
      omega
    · have hasked : us.toNat * 1000 = milliseconds.toNat * 1000000 := by omega
      have husleep := usleep_enough_iff late signals us
      rw [hasked] at husleep
      constructor
      · intro h
        refine .inr (.inr (husleep.1 ?_))
        have hslept := h.1
        dsimp only at hslept
        omega
      · intro h
        refine ⟨?_, fun t ht => absurd ht List.not_mem_nil⟩
        have hms : milliseconds ≠ 0 := by
          rintro rfl
          exact absurd hpos (by decide)
        have hslept := husleep.2 ((h.resolve_left hms).resolve_left (Nat.not_le.2 hlt))
        dsimp only
        omega
  · exact ⟨fun _ => .inr (.inl hge), fun _ => sleepsEnough_long hge⟩

/-- A signal after one millisecond ends a sleep of 999. -/
theorem sleep_interrupted : ¬ SleepsEnough 0 [1000000] 999 ∧
    skySystickSleep 0 [1000000] 999 = ⟨1000000, []⟩ := by
  have hcall : skySystickSleep 0 [1000000] 999 = ⟨1000000, []⟩ := by decide
  refine ⟨?_, hcall⟩
  intro h
  have hslept := h.1
  rw [hcall] at hslept
  exact absurd hslept (by decide)

end Sky
