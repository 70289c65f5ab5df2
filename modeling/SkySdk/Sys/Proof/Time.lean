import SkySdk.Sys.Time

/-!
# The instant that a `SKY_SYSTEM_TIME` denotes

`gmtimeR_spec`: the fields of `gmtime_r` are in their ranges and make up the seconds. A year of 16
bits keeps them (`instant_of_fits`); any other one puts the instant off by at least 65535 years
(`instant_of_wraps`).
-/

set_option autoImplicit false

namespace Sky

open Base

variable {t : Int} {tm : Tm} {s : SkySystemTime}

/-- The ranges of the fields of `struct tm`. -/
structure Tm.InRange (tm : Tm) : Prop where
  sec : 0 ≤ tm.tmSec ∧ tm.tmSec < 60
  min : 0 ≤ tm.tmMin ∧ tm.tmMin < 60
  hour : 0 ≤ tm.tmHour ∧ tm.tmHour < 24
  mday : 1 ≤ tm.tmMday ∧ tm.tmMday ≤ 31
  mon : 0 ≤ tm.tmMon ∧ tm.tmMon < 12
  wday : 0 ≤ tm.tmWday ∧ tm.tmWday < 7
  yday : 0 ≤ tm.tmYday ∧ tm.tmYday < 366

def Tm.seconds (tm : Tm) : Int :=
  utcSeconds (tm.tmYear + 1900) tm.tmMon.toNat tm.tmMday tm.tmHour tm.tmMin tm.tmSec

theorem gmtimeR_spec (h : gmtimeR t = some tm) :
    tm.InRange ∧ tm.seconds = t ∧ tm.tmIsdst = 0 := by
  unfold gmtimeR at h
  dsimp only at h
  split at h
  · obtain rfl := Option.some.inj h
    obtain ⟨hle, hlt⟩ := yearOf_yday (t / 86400)
    generalize hy : yearOf (t / 86400) = year at *
    generalize hd : t / 86400 - daysBeforeYear year = yday at *
    have hyday : yday.toNat < daysInYear (isLeap year) := by omega
    obtain ⟨hmon, hstart, hend⟩ := monthOf_spec (isLeap year) hyday
    have hmax : daysInYear (isLeap year) ≤ 366 := by
      unfold daysInYear
      split <;> decide
    have hsecs : t = t / 86400 * 86400 + t % 86400 := by omega
    refine ⟨⟨?_, ?_, ?_, ?_, ?_, ?_, ?_⟩, ?_, rfl⟩
    · dsimp only
      omega
    · dsimp only
      omega
    · dsimp only
      omega
    · dsimp only
      omega
    · dsimp only
      omega
    · dsimp only
      omega
    · dsimp only
      omega
    · unfold Tm.seconds utcSeconds daysOf
      dsimp only
      rw [Int.sub_add_cancel, Int.toNat_natCast]
      omega
  · cases h

/-! ## Fields of 16 bits -/

theorem toNat_ofInt {x : Int} (h : 0 ≤ x ∧ x < 65536) : ((UInt16.ofInt x).toNat : Int) = x := by
  rw [UInt16.ofInt, UInt16.toNat_ofNat']
  omega

theorem toNat_ofInt_mod (x : Int) : ((UInt16.ofInt x).toNat : Int) = x % 65536 := by
  rw [UInt16.ofInt, UInt16.toNat_ofNat']
  omega

/-- The year of `tm` fits into the `uint16_t`. -/
def Tm.FitsYear (tm : Tm) : Prop := 0 ≤ tm.tmYear + 1900 ∧ tm.tmYear + 1900 < 65536

/-- The seconds of the calendar fields, read as UTC. -/
def SkySystemTime.calendarSeconds (s : SkySystemTime) : Int :=
  utcSeconds s.year.toNat (s.month.toNat - 1) s.day.toNat s.hour.toNat s.minute.toNat
    s.second.toNat

/-- The instant: the calendar fields are `timezone` minutes behind UTC, and an hour ahead while
daylight saving time is in effect. -/
def SkySystemTime.instant (s : SkySystemTime) : Int :=
  s.calendarSeconds + 60 * s.timezone.toInt - if 0 < s.dstflag.toInt then 3600 else 0

theorem calendarSeconds_eq (h : tm.InRange) : (tmTimeToSysTime tm s).calendarSeconds =
    utcSeconds ((tm.tmYear + 1900) % 65536) tm.tmMon.toNat tm.tmMday tm.tmHour tm.tmMin
      tm.tmSec := by
  have hmon : (UInt16.ofInt (tm.tmMon + 1)).toNat - 1 = tm.tmMon.toNat := by
    have hm := toNat_ofInt (x := tm.tmMon + 1) (by have := h.mon; omega)
    have := h.mon
    omega
  have hday := toNat_ofInt (x := tm.tmMday) (by have := h.mday; omega)
  have hhour := toNat_ofInt (x := tm.tmHour) (by have := h.hour; omega)
  have hmin := toNat_ofInt (x := tm.tmMin) (by have := h.min; omega)
  have hsec := toNat_ofInt (x := tm.tmSec) (by have := h.sec; omega)
  unfold SkySystemTime.calendarSeconds
  simp only [tmTimeToSysTime]
  rw [hmon, hday, hhour, hmin, hsec, toNat_ofInt_mod]

theorem calendarSeconds_of_fits (h : tm.InRange) (hfit : tm.FitsYear) :
    (tmTimeToSysTime tm s).calendarSeconds = tm.seconds := by
  rw [calendarSeconds_eq h, Int.emod_eq_of_lt hfit.1 hfit.2]
  rfl

/-- One that does not is thousands of years off. -/
theorem calendarSeconds_of_wraps (h : tm.InRange) (hfit : ¬ tm.FitsYear) :
    (tmTimeToSysTime tm s).calendarSeconds + 1000000 < tm.seconds ∨
      tm.seconds + 1000000 < (tmTimeToSysTime tm s).calendarSeconds := by
  rw [calendarSeconds_eq h]
  unfold Tm.seconds utcSeconds daysOf
  unfold Tm.FitsYear at hfit
  generalize tm.tmYear + 1900 = y at *
  have hleap := monthStart_leap (isLeap y) tm.tmMon.toNat
  have hleap' := monthStart_leap (isLeap (y % 65536)) tm.tmMon.toNat
  rcases Int.le_total (y % 65536) y with hle | hle
  · have hmono := daysBeforeYear_mono hle
    omega
  · have hmono := daysBeforeYear_mono hle
    omega

/-! ## Instants -/

/-- What is produced, if anything is, denotes `t`. -/
def Denotes (r : Option SkySystemTime) (t : Int) : Prop := ∀ s, r = some s → s.instant = t

/-- The zone in the struct, with calendar fields of `tm`. -/
theorem instant_eq {m : Int} (hm : -1500 < m ∧ m < 1500) (hz : s.timezone = .ofInt m)
    (hd : s.dstflag = 0) : (tmTimeToSysTime tm s).instant =
      (tmTimeToSysTime tm s).calendarSeconds + 60 * m := by
  have hzone : (tmTimeToSysTime tm s).timezone.toInt = m := by
    change s.timezone.toInt = m
    rw [hz]
    exact Int16.toInt_ofInt_of_le (by omega) (by omega)
  have hflag : (tmTimeToSysTime tm s).dstflag.toInt = 0 := by
    change s.dstflag.toInt = 0
    rw [hd]
    rfl
  unfold SkySystemTime.instant
  rw [hzone, hflag]
  omega

/-- Calendar fields of `u` with the zone `m` denote `u` and `m` minutes, unless the year is lost. -/
theorem instant_iff {u m t : Int} (h : gmtimeR u = some tm) (hm : -1500 < m ∧ m < 1500)
    (hz : s.timezone = .ofInt m) (hd : s.dstflag = 0) (hnear : u - t < 500000 ∧ t - u < 500000) :
    (tmTimeToSysTime tm s).instant = t ↔ tm.FitsYear ∧ u + 60 * m = t := by
  obtain ⟨hrange, hsec, -⟩ := gmtimeR_spec h
  rw [instant_eq hm hz hd]
  by_cases hfit : tm.FitsYear
  · rw [calendarSeconds_of_fits hrange hfit, hsec]
    exact ⟨fun heq => ⟨hfit, heq⟩, fun heq => heq.2⟩
  · have hoff := calendarSeconds_of_wraps (s := s) hrange hfit
    refine ⟨fun heq => ?_, fun heq => absurd heq.1 hfit⟩
    omega

/-- A producer is a conversion followed by the copy of its fields. -/
theorem denotes_map {r : Option Tm} {t : Int} :
    Denotes (r.map fun tm => tmTimeToSysTime tm s) t ↔
      ∀ tm, r = some tm → (tmTimeToSysTime tm s).instant = t := by
  constructor
  · intro h tm htm
    exact h _ (by rw [htm]; rfl)
  · intro h s' hs'
    obtain ⟨tm, htm, rfl⟩ := Option.map_eq_some_iff.1 hs'
    exact h tm htm

/-- The struct before the calendar fields are copied to it. -/
def zoned (s : SkySystemTime) (m : Int) (milliseconds : UInt16) : SkySystemTime :=
  { s with timezone := .ofInt m, dstflag := 0, milliseconds := milliseconds }

theorem getTime_eq (convert : Int → Option Tm) (Z : Zone) (t : Int64) (usec : Int)
    (s : SkySystemTime) :
    getTime convert Z (some ⟨t, usec⟩) s = (convert t.toInt).map fun tm =>
      tmTimeToSysTime tm (zoned s Z.minutesWest (.ofInt (usec.tdiv 1000))) := by
  have hzone : Z.timezone.tdiv 60 = Z.minutesWest := Int.mul_tdiv_cancel_left _ (by decide)
  unfold getTime
  rw [hzone]
  cases hc : convert t.toInt <;> simp [hc, zoned]

section
variable (Z : Zone) (t : Int64) (s : SkySystemTime)

theorem localtime_denotes_iff (usec : Int) :
    Denotes (skyTimeGetLocaltime Z (some ⟨t, usec⟩) s) t.toInt ↔
      ∀ tm, localtimeR Z t.toInt = some tm → tm.FitsYear ∧ Z.inDst t.toInt = false := by
  have hbound := Z.bounded
  rw [skyTimeGetLocaltime, getTime_eq, denotes_map]
  refine forall_congr' fun tm => imp_congr_right fun htm => ?_
  obtain ⟨tm', hgm, rfl⟩ := Option.map_eq_some_iff.1 htm
  have hzone : Z.timezone = 60 * Z.minutesWest := rfl
  have hiff := instant_iff (s := zoned s Z.minutesWest (.ofInt (usec.tdiv 1000))) (t := t.toInt)
    hgm hbound rfl rfl (by constructor <;> split <;> omega)
  refine hiff.trans (and_congr_right fun _ => ?_)
  cases Z.inDst t.toInt with
  | true =>
    rw [if_pos rfl]
    exact ⟨fun h => by omega, fun h => by cases h⟩
  | false =>
    rw [if_neg (by decide)]
    exact ⟨fun _ => rfl, fun _ => by omega⟩

theorem gmtime_denotes_iff (usec : Int) :
    Denotes (skyTimeGetGmtime Z (some ⟨t, usec⟩) s) t.toInt ↔
      ∀ tm, gmtimeR t.toInt = some tm → tm.FitsYear ∧ Z.minutesWest = 0 := by
  rw [skyTimeGetGmtime, getTime_eq, denotes_map]
  refine forall_congr' fun tm => imp_congr_right fun htm => ?_
  refine (instant_iff htm Z.bounded rfl rfl (by omega)).trans (and_congr_right fun _ => ?_)
  omega

theorem toSysTime_denotes_iff (useconds : UInt32) :
    Denotes (skyTimeToSysTime ⟨t.toUInt64, useconds⟩ s) t.toInt ↔
      ∀ tm, gmtimeR t.toInt = some tm → tm.FitsYear := by
  have hcall : skyTimeToSysTime ⟨t.toUInt64, useconds⟩ s = (gmtimeR t.toInt).map fun tm =>
      tmTimeToSysTime tm (zoned s 0 (useconds / 1000).toUInt16) := by
    unfold skyTimeToSysTime
    rw [Int64.toInt64_toUInt64]
    cases gmtimeR t.toInt <;> rfl
  rw [hcall, denotes_map]
  refine forall_congr' fun tm => imp_congr_right fun htm => ?_
  refine (instant_iff htm (by decide) rfl rfl (by omega)).trans ⟨fun h => h.1, fun h => ⟨h, ?_⟩⟩
  omega

end

/-- For every zone and instant, and whatever is in the struct before. What `sky_time_get_localtime`
produces denotes the instant if and only if daylight saving time is not in effect then, what
`sky_time_get_gmtime` produces if and only if the zone is that of Greenwich, and what
`sky_time_to_sys_time` produces does; all of them only while the year fits into the struct. -/
theorem denotes_iff (Z : Zone) (t : Int64) (usec : Int) (useconds : UInt32) (s : SkySystemTime) :
    (Denotes (skyTimeGetLocaltime Z (some ⟨t, usec⟩) s) t.toInt ↔
      ∀ tm, localtimeR Z t.toInt = some tm → tm.FitsYear ∧ Z.inDst t.toInt = false) ∧
    (Denotes (skyTimeGetGmtime Z (some ⟨t, usec⟩) s) t.toInt ↔
      ∀ tm, gmtimeR t.toInt = some tm → tm.FitsYear ∧ Z.minutesWest = 0) ∧
    (Denotes (skyTimeToSysTime ⟨t.toUInt64, useconds⟩ s) t.toInt ↔
      ∀ tm, gmtimeR t.toInt = some tm → tm.FitsYear) :=
  ⟨localtime_denotes_iff Z t s usec, gmtime_denotes_iff Z t s usec,
    toSysTime_denotes_iff t s useconds⟩

theorem bounded_greenwich : (-1500 : Int) < 0 ∧ (0 : Int) < 1500 := by decide

theorem bounded_hourWest : (-1500 : Int) < 60 ∧ (60 : Int) < 1500 := by decide

/-- Greenwich in summer, and an hour west of it in winter, at the start of 1970. -/
theorem not_denotes :
    ¬ Denotes (skyTimeGetLocaltime ⟨0, fun _ => true, bounded_greenwich⟩ (some ⟨0, 0⟩)
      ⟨0, 0, 0, 0, 0, 0, 0, 0, 0, 0, 0⟩) 0 ∧
    ¬ Denotes (skyTimeGetGmtime ⟨60, fun _ => false, bounded_hourWest⟩ (some ⟨0, 0⟩)
      ⟨0, 0, 0, 0, 0, 0, 0, 0, 0, 0, 0⟩) 0 := by
  have hlocal : skyTimeGetLocaltime ⟨0, fun _ => true, bounded_greenwich⟩ (some ⟨0, 0⟩)
      ⟨0, 0, 0, 0, 0, 0, 0, 0, 0, 0, 0⟩ = some ⟨1970, 1, 5, 1, 1, 1, 0, 0, 0, 0, 0⟩ := by decide
  have hgm : skyTimeGetGmtime ⟨60, fun _ => false, bounded_hourWest⟩ (some ⟨0, 0⟩)
      ⟨0, 0, 0, 0, 0, 0, 0, 0, 0, 0, 0⟩ = some ⟨1970, 1, 5, 1, 1, 0, 0, 0, 0, 60, 0⟩ := by decide
  -- both read as an hour later
  constructor
  · intro h
    exact absurd (h _ hlocal) (by decide)
  · intro h
    exact absurd (h _ hgm) (by decide)

/-! ## The round trip -/

/-- The fields survive the struct. -/
theorem sysTimeToTmTime_eq (h : tm.InRange) (hfit : tm.FitsYear) (hdst : tm.tmIsdst = 0) :
    sysTimeToTmTime (tmTimeToSysTime tm s) = tm := by
  have hyear := toNat_ofInt hfit
  have hmon := toNat_ofInt (x := tm.tmMon + 1) (by have := h.mon; omega)
  have hwday := toNat_ofInt (x := tm.tmWday + 1) (by have := h.wday; omega)
  have hyday := toNat_ofInt (x := tm.tmYday + 1) (by have := h.yday; omega)
  have hday := toNat_ofInt (x := tm.tmMday) (by have := h.mday; omega)
  have hhour := toNat_ofInt (x := tm.tmHour) (by have := h.hour; omega)
  have hmin := toNat_ofInt (x := tm.tmMin) (by have := h.min; omega)
  have hsec := toNat_ofInt (x := tm.tmSec) (by have := h.sec; omega)
  simp only [sysTimeToTmTime, tmTimeToSysTime, hyear, hmon, hwday, hyday, hday, hhour, hmin, hsec,
    Int.add_sub_cancel, ← hdst]

theorem useconds_eq {useconds : UInt32} (h : useconds.toNat < 1000000)
    (hmul : useconds.toNat % 1000 = 0) :
    (useconds / 1000).toUInt16.toUInt32 * 1000 = useconds := by
  have hdiv : useconds.toNat / 1000 < 1000 := Nat.div_lt_of_lt_mul h
  apply UInt32.toNat_inj.1
  rw [UInt32.toNat_mul]
  change useconds.toNat / 1000 % 2 ^ 16 * 1000 % 2 ^ 32 = _
  rw [Nat.mod_eq_of_lt (a := useconds.toNat / 1000) (by omega), Nat.mod_eq_of_lt (by omega)]
  omega

theorem nonneg_of_year (h : gmtimeR t = some tm) (hyear : 1970 ≤ tm.tmYear + 1900) : 0 ≤ t := by
  obtain ⟨hrange, hsec, -⟩ := gmtimeR_spec h
  have hmono := daysBeforeYear_mono hyear
  have hstart : daysBeforeYear 1970 = 0 := rfl
  have hmday := hrange.mday
  have hhour := hrange.hour
  have hmin := hrange.min
  have hrest := hrange.sec
  unfold Tm.seconds utcSeconds daysOf at hsec
  omega

/-- For every zone at a fixed offset, whose `mktime` is the inverse of `gmtime_r` shifted by it, and
every time from 1970 to 9999 in whole milliseconds: both conversions succeed and the second one
gives the time back if and only if the offset is 0. -/
theorem sysTime_roundTrip_iff (off : Int64) (mktime : Tm → Int64)
    (hmktime : ∀ t tm, gmtimeR t = some tm → mktime tm = .ofInt t + off) (time : SkyTime)
    (s : SkySystemTime) (tm : Tm) (htm : gmtimeR time.time.toInt64.toInt = some tm)
    (hyear : 1970 ≤ tm.tmYear + 1900 ∧ tm.tmYear + 1900 ≤ 9999)
    (husec : time.useconds.toNat < 1000000 ∧ time.useconds.toNat % 1000 = 0) :
    (∃ sysTime, skyTimeToSysTime time s = some sysTime ∧
      skyTimeFromSysTime mktime sysTime = some time) ↔ off = 0 := by
  obtain ⟨hrange, -, hdst⟩ := gmtimeR_spec htm
  have hto : skyTimeToSysTime time s =
      some (tmTimeToSysTime tm (zoned s 0 (time.useconds / 1000).toUInt16)) := by
    unfold skyTimeToSysTime
    rw [htm]
    rfl
  have hback : sysTimeToTmTime
      (tmTimeToSysTime tm (zoned s 0 (time.useconds / 1000).toUInt16)) = tm :=
    sysTimeToTmTime_eq hrange (by unfold Tm.FitsYear; omega) hdst
  have hfrom : skyTimeFromSysTime mktime
      (tmTimeToSysTime tm (zoned s 0 (time.useconds / 1000).toUInt16)) =
        if time.time.toInt64 + off = -1 then none
        else some { time := (time.time.toInt64 + off).toUInt64, useconds := time.useconds } := by
    have hflag : (tmTimeToSysTime tm (zoned s 0 (time.useconds / 1000).toUInt16)).dstflag.toInt =
        tm.tmIsdst := hdst.symm
    unfold skyTimeFromSysTime
    rw [hback, hflag]
    change (if mktime tm = -1 then none else some (SkyTime.mk (mktime tm).toUInt64
      ((time.useconds / 1000).toUInt16.toUInt32 * 1000))) = _
    rw [hmktime _ _ htm, Int64.ofInt_toInt, useconds_eq husec.1 husec.2]
  rw [hto]
  constructor
  · intro h
    obtain ⟨sysTime, hsys, hret⟩ := h
    obtain rfl := Option.some.inj hsys
    rw [hfrom] at hret
    split at hret
    · cases hret
    · have htime := congrArg SkyTime.time (Option.some.inj hret)
      have hsum : time.time.toInt64 + off = time.time.toInt64 := congrArg UInt64.toInt64 htime
      exact Int64.add_eq_left.1 hsum
  · intro hoff
    refine ⟨_, rfl, ?_⟩
    rw [hfrom, hoff, Int64.add_zero, if_neg]
    · rfl
    · intro hneg
      have hpos := nonneg_of_year htm hyear.1
      rw [hneg] at hpos
      exact absurd hpos (by decide)

/-- The `mktime` of a zone at a fixed offset. -/
def mktimeAt (off : Int64) (tm : Tm) : Int64 := .ofInt tm.seconds + off

theorem mktimeAt_gmtimeR (off : Int64) (t : Int) (tm : Tm) (h : gmtimeR t = some tm) :
    mktimeAt off tm = .ofInt t + off := by
  rw [mktimeAt, (gmtimeR_spec h).2.1]

/-- 2001-09-09 01:46:40.123, in UTC. -/
theorem sysTime_roundTrip_utc : ∃ sysTime,
    skyTimeToSysTime ⟨1000000000, 123000⟩ ⟨0, 0, 0, 0, 0, 0, 0, 0, 0, 0, 0⟩ = some sysTime ∧
      skyTimeFromSysTime (mktimeAt 0) sysTime = some ⟨1000000000, 123000⟩ :=
  (sysTime_roundTrip_iff 0 (mktimeAt 0) (mktimeAt_gmtimeR 0) ⟨1000000000, 123000⟩
    ⟨0, 0, 0, 0, 0, 0, 0, 0, 0, 0, 0⟩ ⟨40, 46, 1, 9, 8, 101, 0, 251, 0⟩ (by decide) (by decide)
    (by decide)).2 rfl

/-- An hour west of Greenwich the start of 1970 comes back an hour later. -/
theorem sysTime_shifts : ¬ ∃ sysTime,
    skyTimeToSysTime ⟨0, 0⟩ ⟨0, 0, 0, 0, 0, 0, 0, 0, 0, 0, 0⟩ = some sysTime ∧
      skyTimeFromSysTime (mktimeAt 3600) sysTime = some ⟨0, 0⟩ := by
  have hto : skyTimeToSysTime ⟨0, 0⟩ ⟨0, 0, 0, 0, 0, 0, 0, 0, 0, 0, 0⟩ =
      some ⟨1970, 1, 5, 1, 1, 0, 0, 0, 0, 0, 0⟩ := by decide
  have hfrom : skyTimeFromSysTime (mktimeAt 3600) ⟨1970, 1, 5, 1, 1, 0, 0, 0, 0, 0, 0⟩ =
      some ⟨3600, 0⟩ := by decide
  intro h
  obtain ⟨sysTime, hsys, hret⟩ := h
  rw [hto] at hsys
  obtain rfl := Option.some.inj hsys
  rw [hfrom] at hret
  exact absurd hret (by decide)

end Sky
