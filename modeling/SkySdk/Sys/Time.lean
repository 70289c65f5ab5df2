import SkySdk.Base.Calendar

/-!
# `sky_sys.c`: times

The conversions between seconds, `struct tm` and `SKY_SYSTEM_TIME`. Of the C library, `gmtime_r` is
the Gregorian calendar and fails where the year does not fit into its `int`; a `Zone` gives
`localtime_r` and the global `timezone`; `mktime` is a parameter. A function that returns `false`
gives `none`.
-/

set_option autoImplicit false

namespace Sky

open Base

structure SkyTime where
  time : UInt64
  useconds : UInt32
deriving DecidableEq, Repr

structure SkySystemTime where
  year : UInt16
  month : UInt16
  dayOfWeek : UInt16
  dayOfYear : UInt16
  day : UInt16
  hour : UInt16
  minute : UInt16
  second : UInt16
  milliseconds : UInt16
  timezone : Int16
  dstflag : Int16
deriving DecidableEq, Repr

/-! ## The C library -/

structure Tm where
  tmSec : Int
  tmMin : Int
  tmHour : Int
  tmMday : Int
  tmMon : Int
  tmYear : Int
  tmWday : Int
  tmYday : Int
  tmIsdst : Int
deriving DecidableEq, Repr

/-- The seconds from 1970-01-01 00:00:00 to a time of a day, in UTC. -/
def utcSeconds (year : Int) (mon : Nat) (mday hour min sec : Int) : Int :=
  daysOf year mon mday * 86400 + hour * 3600 + min * 60 + sec

def gmtimeR (t : Int) : Option Tm :=
  let day := t / 86400
  let year := yearOf day
  let yday := day - daysBeforeYear year
  let mon := monthOf (isLeap year) yday.toNat
  if -2147483648 ≤ year - 1900 ∧ year - 1900 ≤ 2147483647 then
    some
      { tmSec := t % 60
        tmMin := t % 3600 / 60
        tmHour := t % 86400 / 3600
        tmMday := yday - monthStart (isLeap year) mon + 1
        tmMon := mon
        tmYear := year - 1900
        -- 1970-01-01 was a Thursday
        tmWday := (day + 4) % 7
        tmYday := yday
        tmIsdst := 0 }
  else none

/-- A time zone: how far it is west of Greenwich, which is less than 25 hours, and at which instants
daylight saving time is in effect, an hour ahead. -/
structure Zone where
  minutesWest : Int
  inDst : Int → Bool
  bounded : -1500 < minutesWest ∧ minutesWest < 1500

/-- The global `timezone`: the seconds that standard time is behind UTC. -/
def Zone.timezone (Z : Zone) : Int := 60 * Z.minutesWest

def localtimeR (Z : Zone) (t : Int) : Option Tm :=
  (gmtimeR (t - Z.timezone + if Z.inDst t then 3600 else 0)).map fun tm =>
    { tm with tmIsdst := if Z.inDst t then 1 else 0 }

/-- What `gettimeofday` gives. -/
structure Timeval where
  tvSec : Int64
  tvUsec : Int

/-! ## Conversions -/

def tmTimeToSysTime (tm : Tm) (sysTime : SkySystemTime) : SkySystemTime :=
  { sysTime with
    year := .ofInt (tm.tmYear + 1900)
    month := .ofInt (tm.tmMon + 1)
    dayOfWeek := .ofInt (tm.tmWday + 1)
    dayOfYear := .ofInt (tm.tmYday + 1)
    day := .ofInt tm.tmMday
    hour := .ofInt tm.tmHour
    minute := .ofInt tm.tmMin
    second := .ofInt tm.tmSec }

def sysTimeToTmTime (sysTime : SkySystemTime) : Tm :=
  { tmYear := (sysTime.year.toNat : Int) - 1900
    tmMon := (sysTime.month.toNat : Int) - 1
    tmWday := (sysTime.dayOfWeek.toNat : Int) - 1
    tmYday := (sysTime.dayOfYear.toNat : Int) - 1
    tmMday := sysTime.day.toNat
    tmHour := sysTime.hour.toNat
    tmMin := sysTime.minute.toNat
    tmSec := sysTime.second.toNat
    tmIsdst := 0 }

/-- `sky_time_get_localtime` and `sky_time_get_gmtime`, which differ in the conversion only; `now`
is `none` where `gettimeofday` fails. -/
def getTime (convert : Int → Option Tm) (Z : Zone) (now : Option Timeval)
    (sysTime : SkySystemTime) : Option SkySystemTime := do
  let tv ← now
  let tm ← convert tv.tvSec.toInt
  let sysTime := { sysTime with
    timezone := .ofInt (Z.timezone.tdiv 60)
    dstflag := 0
    milliseconds := .ofInt (tv.tvUsec.tdiv 1000) }
  pure (tmTimeToSysTime tm sysTime)

def skyTimeGetLocaltime (Z : Zone) : Option Timeval → SkySystemTime → Option SkySystemTime :=
  getTime (localtimeR Z) Z

def skyTimeGetGmtime (Z : Zone) : Option Timeval → SkySystemTime → Option SkySystemTime :=
  getTime gmtimeR Z

def skyTimeToSysTime (time : SkyTime) (sysTime : SkySystemTime) : Option SkySystemTime := do
  let tm ← gmtimeR time.time.toInt64.toInt
  let sysTime := { sysTime with
    timezone := 0
    dstflag := 0
    milliseconds := (time.useconds / 1000).toUInt16 }
  pure (tmTimeToSysTime tm sysTime)

def skyTimeFromSysTime (mktime : Tm → Int64) (sysTime : SkySystemTime) : Option SkyTime :=
  let tm := { sysTimeToTmTime sysTime with tmIsdst := sysTime.dstflag.toInt }
  let t := mktime tm
  if t = -1 then none
  else some { time := t.toUInt64, useconds := sysTime.milliseconds.toUInt32 * 1000 }

end Sky
