import SkySdk.Sys.Proof.Tick
import Mathlib.Data.Nat.Find

/-!
# When a timed lock gives up

`Clock` is a run of the retry loop in which `flock` is never granted: what the calls of
`sky_systick_get` read, and that each pass takes 100 to 1000 milliseconds. A poll sees the elapsed
time modulo 2^32 (`skySystickDiff_ms`), so the loop ends at the first poll past the timeout if that
comes before 2^32 milliseconds (`poll_ends`), and goes on there otherwise (`poll_spins`).
-/

set_option autoImplicit false

namespace Sky.Rwlock

open Base

/-- The readings of call `j` of `sky_systick_get`, and the time of the reading it returns. The first
call is before the loop, and there is one in each pass. -/
structure Clock where
  readings : Nat → List Timespec
  ms : Nat → Nat
  returned : ∀ j, ((readings j).find? fun tp => tickOf tp ≠ 0).map Timespec.millis =
    some (ms j : Int)
  advances : ∀ j, ms j + 100 ≤ ms (j + 1) ∧ ms (j + 1) ≤ ms j + 1000

/-- The replies to the requests of a lock call on an open file whose lock is never granted. The
state counts the calls of `sky_systick_get`. -/
def neverGranted (C : Clock) (fd rounds : Nat) : (o : Request) → Prog Nat o.Reply
  | .validate _ => pure ()
  | .load _ => pure { newRwlock with fdRwlock := some fd }
  | .flock _ _ _ => pure (-1)
  | .systickSleep _ => pure ()
  | .systickGet => fun j =>
    match skySystickGet (C.readings j) with
    | .ok tick => .ok (tick, j + 1)
    | .error e => .error e
  | .rounds => pure rounds
  | .spin => fault .endless
  | _ => fault .badAccess

namespace Clock

variable (C : Clock)

def elapsed (j : Nat) : Nat := C.ms j - C.ms 0

/-- Poll `k` is the first one at which the timeout is over. -/
def FirstPast (timeout : UInt32) (k : Nat) : Prop :=
  timeout.toNat ≤ C.elapsed k ∧ ∀ j < k, C.elapsed j < timeout.toNat

theorem ms_mono {i j : Nat} (h : i ≤ j) : C.ms i + 100 * (j - i) ≤ C.ms j := by
  induction h with
  | refl => omega
  | @step j hij ih =>
    have hpass := (C.advances j).1
    change _ ≤ C.ms (j + 1)
    omega

theorem elapsed_mono {i j : Nat} (h : i ≤ j) : C.elapsed i ≤ C.elapsed j := by
  have hmono := C.ms_mono h
  unfold elapsed
  omega

theorem elapsed_succ (j : Nat) : C.elapsed (j + 1) ≤ C.elapsed j + 1000 := by
  have hpass := (C.advances j).2
  have hstart := C.ms_mono (Nat.zero_le j)
  unfold elapsed
  omega

theorem exists_firstPast (timeout : UInt32) : ∃ k, C.FirstPast timeout k := by
  have hex : ∃ k, timeout.toNat ≤ C.elapsed k := by
    refine ⟨timeout.toNat, ?_⟩
    have hstart := C.ms_mono (Nat.zero_le timeout.toNat)
    unfold elapsed
    omega
  refine ⟨Nat.find hex, Nat.find_spec hex, fun j hj => ?_⟩
  exact Nat.lt_of_not_le (Nat.find_min hex hj)

end Clock

/-! ## Ticks -/

theorem ofInt_natCast (n : Nat) : UInt32.ofInt n = .ofNat n := by
  apply UInt32.toNat_inj.1
  rw [UInt32.ofInt, UInt32.toNat_ofNat', UInt32.toNat_ofNat']
  omega

/-- The tick is the time in 32 bits. -/
theorem skySystickGet_eq (readings : List Timespec) (ms : Nat)
    (h : (readings.find? fun tp => tickOf tp ≠ 0).map Timespec.millis = some (ms : Int)) :
    skySystickGet readings = .ok (.ofNat ms) := by
  obtain ⟨tp, htp, hms⟩ := Option.map_eq_some_iff.1 h
  have htick : tickOf tp = .ofNat ms := by
    rw [tickOf, hms, ofInt_natCast]
  rw [← htick]
  exact skySystickGet_accepted htp

/-- The difference of two ticks is that of their times, in 32 bits. -/
theorem skySystickDiff_ofNat {a b : Nat} (hab : a ≤ b) :
    (skySystickDiff (.ofNat a) (.ofNat b)).toNat = (b - a) % 2 ^ 32 := by
  rw [skySystickDiff_eq, ← UInt32.ofNat_sub hab, UInt32.toNat_ofNat']

/-! ## The loop -/

section
variable {C : Clock} {fd : Nat} {mode : LockMode} {timeout : UInt32} {j k n rounds : Nat}

/-- What poll `j` compares with the timeout. -/
def seen (C : Clock) (j : Nat) : Nat := C.elapsed j % 2 ^ 32

theorem systickGet_reply (C : Clock) (fd rounds j : Nat) :
    neverGranted C fd rounds .systickGet j = .ok (.ofNat (C.ms j), j + 1) := by
  have hget := skySystickGet_eq _ _ (C.returned j)
  change (match skySystickGet (C.readings j) with
    | .ok tick => Except.ok (tick, j + 1)
    | .error e => Except.error e) = _
  rw [hget]

theorem skySystickDiff_ms (C : Clock) (j : Nat) :
    (skySystickDiff (.ofNat (C.ms 0)) (.ofNat (C.ms j))).toNat = seen C j :=
  skySystickDiff_ofNat (Nat.le_of_add_right_le (C.ms_mono (Nat.zero_le j)))

theorem poll_pass : (poll fd mode (.ofNat (C.ms 0)) timeout (n + 1)).run
      (neverGranted C fd rounds) j =
    if seen C j < timeout.toNat then
      (poll fd mode (.ofNat (C.ms 0)) timeout n).run (neverGranted C fd rounds) (j + 1)
    else .ok (-1, j + 1) := by
  have hflock : neverGranted C fd rounds (.flock fd (some mode) true) j = .ok (-1, j) := rfl
  have hsleep : neverGranted C fd rounds (.systickSleep 100) j = .ok ((), j) := rfl
  have hrefused : (-1 : Int) ≠ 0 := by decide
  have hlt : skySystickDiff (.ofNat (C.ms 0)) (.ofNat (C.ms j)) < timeout ↔
      seen C j < timeout.toNat := by
    rw [UInt32.lt_iff_toNat_lt, skySystickDiff_ms]
  simp only [poll, request, skySystickElapsed, Proc.call_bind, Proc.run_req, bind_apply, hflock,
    if_pos hrefused, hsleep, Proc.req_bind, systickGet_reply, Proc.pure_def, Proc.done_bind, hlt]
  split <;> rfl

/-- The loop ends at the first poll that sees the timeout over. -/
theorem poll_ends (hk : timeout.toNat ≤ seen C k) : ∀ n j, j ≤ k → k < j + n →
    (∀ i, j ≤ i → i < k → seen C i < timeout.toNat) →
    (poll fd mode (.ofNat (C.ms 0)) timeout n).run (neverGranted C fd rounds) j =
      .ok (-1, k + 1)
  | 0, j, hj, hn, _ => absurd hn (Nat.not_lt.2 hj)
  | n + 1, j, hj, hn, hbefore => by
    rw [poll_pass]
    rcases Nat.eq_or_lt_of_le hj with rfl | hlt
    · rw [if_neg (Nat.not_lt.2 hk)]
    · rw [if_pos (hbefore j (Nat.le_refl j) hlt)]
      exact poll_ends hk n (j + 1) hlt (by omega) fun i hi hik => hbefore i (by omega) hik

/-- As long as no poll sees it over, the loop goes on. -/
theorem poll_spins : ∀ n j, (∀ i, j ≤ i → i < j + n → seen C i < timeout.toNat) →
    (poll fd mode (.ofNat (C.ms 0)) timeout n).run (neverGranted C fd rounds) j =
      .error .endless
  | 0, _, _ => rfl
  | n + 1, j, hbefore => by
    rw [poll_pass, if_pos (hbefore j (Nat.le_refl j) (by omega))]
    exact poll_spins n (j + 1) fun i hi hin => hbefore i (by omega) (by omega)

/-! ## The calls -/

/-- A timed call is the loop, from the first tick on. -/
theorem lockWith_eq {p : Addr} (hp : p ≠ 0) (ht : timeout ≠ 0) (hinf : timeout ≠ skyInfinite) :
    (lockWith mode p timeout).run (neverGranted C fd rounds) 0 =
      match (poll fd mode (.ofNat (C.ms 0)) timeout rounds).run (neverGranted C fd rounds) 1 with
      | .ok (rc, j) => .ok (decide (rc = 0), j)
      | .error e => .error e := by
  have hvalid : neverGranted C fd rounds (.validate p) 0 = .ok ((), 0) := rfl
  have hload : neverGranted C fd rounds (.load p) 0 =
      .ok ({ newRwlock with fdRwlock := some fd }, 0) := rfl
  have hrounds : neverGranted C fd rounds .rounds 1 = .ok (rounds, 1) := rfl
  simp only [lockWith, lockFile, request, Proc.call_bind, Proc.run_req, bind_apply, hvalid,
    if_pos hp, hload, if_neg ht, if_neg hinf, Proc.req_bind, systickGet_reply, hrounds,
    Proc.run_bind]
  cases (poll fd mode (.ofNat (C.ms 0)) timeout rounds).run (neverGranted C fd rounds) 1 <;> rfl

/-- The call returns `false` at the first poll at which the timeout is over, if it may poll that
often. -/
def GivesUpInTime (C : Clock) (fd : Nat) (lock : Addr → UInt32 → RwlockM Bool) (p : Addr)
    (timeout : UInt32) : Prop :=
  ∃ k, C.FirstPast timeout k ∧
    ∀ rounds, k ≤ rounds → (lock p timeout).run (neverGranted C fd rounds) 0 = .ok (false, k + 1)

theorem seen_before {i : Nat} (hk : C.FirstPast timeout k) (hi : i < k) :
    seen C i < timeout.toNat :=
  Nat.lt_of_le_of_lt (Nat.mod_le _ _) (hk.2 i hi)

theorem FirstPast.pos (hk : C.FirstPast timeout k) (ht : timeout ≠ 0) : 1 ≤ k := by
  refine Nat.pos_of_ne_zero ?_
  rintro rfl
  have hle := hk.1
  rw [Clock.elapsed, Nat.sub_self, Nat.le_zero] at hle
  exact ht (UInt32.toNat_inj.1 hle)

theorem givesUpInTime_of_window {p : Addr} (hp : p ≠ 0) (ht : timeout ≠ 0)
    (hinf : timeout ≠ skyInfinite) (hin : timeout.toNat ≤ C.elapsed j)
    (hbound : C.elapsed j < 2 ^ 32) : GivesUpInTime C fd (lockWith mode) p timeout := by
  obtain ⟨k, hk⟩ := C.exists_firstPast timeout
  have hkj : k ≤ j := Nat.le_of_not_lt fun hlt => Nat.not_lt.2 hin (hk.2 j hlt)
  have hseen : timeout.toNat ≤ seen C k := by
    rw [seen, Nat.mod_eq_of_lt (Nat.lt_of_le_of_lt (C.elapsed_mono hkj) hbound)]
    exact hk.1
  refine ⟨k, hk, fun rounds hrounds => ?_⟩
  rw [lockWith_eq hp ht hinf, poll_ends hseen rounds 1 (FirstPast.pos hk ht) (by omega)
    fun i _ hik => seen_before hk hik]
  rfl

/-- A poll that comes after 2^32 milliseconds sees less than a second. -/
theorem window_of_givesUpInTime {p : Addr} (hp : p ≠ 0) (ht : timeout ≠ 0)
    (hinf : timeout ≠ skyInfinite) (h : GivesUpInTime C fd (lockWith mode) p timeout) :
    ∃ j, timeout.toNat ≤ C.elapsed j ∧ C.elapsed j < 2 ^ 32 := by
  obtain ⟨k, hk, hrun⟩ := h
  refine ⟨k, hk.1, Nat.lt_of_not_le fun hover => ?_⟩
  have hpos := FirstPast.pos hk ht
  have hlast := hk.2 (k - 1) (by omega)
  have hpass := C.elapsed_succ (k - 1)
  rw [Nat.sub_add_cancel hpos] at hpass
  have hmax := timeout.toNat_lt
  have hseen : seen C k < timeout.toNat := by
    unfold seen
    omega
  have hret := hrun k (Nat.le_refl k)
  rw [lockWith_eq hp ht hinf, poll_spins k 1 ?_] at hret
  · cases hret
  · intro i _ hi
    rcases Nat.lt_or_ge i k with hik | hik
    · exact seen_before hk hik
    · obtain rfl : i = k := by omega
      exact hseen

/-- Timeouts up to a second less than 2^32 milliseconds always have such a poll. -/
theorem exists_window (C : Clock) (hmax : timeout.toNat + 1000 ≤ 2 ^ 32) :
    ∃ j, timeout.toNat ≤ C.elapsed j ∧ C.elapsed j < 2 ^ 32 := by
  obtain ⟨k, hle, hbefore⟩ := C.exists_firstPast timeout
  refine ⟨k, hle, ?_⟩
  cases k with
  | zero =>
    rw [Clock.elapsed, Nat.sub_self]
    decide
  | succ k =>
    have hlast := hbefore k (Nat.lt_succ_self k)
    have hpass := C.elapsed_succ k
    omega

/-- For both functions, every timeout that is not 0 or `SKY_INFINITE` and every clock: the call
gives up in time if and only if some poll comes when the timeout is over and less than 2^32
milliseconds have passed. -/
theorem givesUpInTime_iff (C : Clock) (fd : Nat) (lock : Addr → UInt32 → RwlockM Bool)
    (hlock : lock = skyRwlockWrlock ∨ lock = skyRwlockRdlock) (p : Addr) (timeout : UInt32)
    (hp : p ≠ 0) (ht : timeout ≠ 0) (hinf : timeout ≠ skyInfinite) :
    GivesUpInTime C fd lock p timeout ↔
      ∃ j, timeout.toNat ≤ C.elapsed j ∧ C.elapsed j < 2 ^ 32 := by
  obtain ⟨mode, rfl⟩ : ∃ mode, lock = lockWith mode := by
    rcases hlock with rfl | rfl
    · exact ⟨.exclusive, rfl⟩
    · exact ⟨.shared, rfl⟩
  constructor
  · exact window_of_givesUpInTime hp ht hinf
  · intro h
    obtain ⟨j, hin, hbound⟩ := h
    exact givesUpInTime_of_window hp ht hinf hin hbound

end

theorem everySecond_returned (j : Nat) :
    (([⟨j, 1000000⟩] : List Timespec).find? fun tp => tickOf tp ≠ 0).map Timespec.millis =
      some ((1000 * j + 1 : Nat) : Int) := by
  have hms : Timespec.millis ⟨j, 1000000⟩ = (1000 * j + 1 : Nat) := by
    change (j : Int) * 1000 + 1 = _
    omega
  have hodd : tickOf ⟨j, 1000000⟩ ≠ 0 := by
    intro h
    have htick := congrArg UInt32.toNat h
    rw [tickOf, hms, ofInt_natCast, UInt32.toNat_ofNat'] at htick
    change (1000 * j + 1) % 2 ^ 32 = 0 at htick
    omega
  rw [List.find?_cons_of_pos (by simpa using hodd), Option.map_some, hms]

/-- A clock that is read at 1, 1001, 2001 and so on. -/
def everySecond : Clock where
  readings j := [⟨j, 1000000⟩]
  ms j := 1000 * j + 1
  returned := everySecond_returned
  advances j := by omega

theorem givesUpInTime_short : GivesUpInTime everySecond 3 skyRwlockWrlock 8 1500 :=
  (givesUpInTime_iff everySecond 3 skyRwlockWrlock (.inl rfl) 8 1500 (by decide) (by decide)
    (by decide)).2 ⟨2, by decide, by decide⟩

/-- The polls of `everySecond` pass over the two milliseconds before 2^32. -/
theorem givesUp_never : ¬ GivesUpInTime everySecond 3 skyRwlockWrlock 8 4294967294 := by
  intro h
  obtain ⟨j, hin, hbound⟩ := window_of_givesUpInTime (by decide) (by decide) (by decide) h
  change 4294967294 ≤ 1000 * j + 1 - (1000 * 0 + 1) at hin
  change 1000 * j + 1 - (1000 * 0 + 1) < 2 ^ 32 at hbound
  omega

end Sky.Rwlock
