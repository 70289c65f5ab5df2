import SkySdk.Base.Prog

/-!
# `sky_sys.c`: ticks and sleeping

`sky_systick_get` on the readings of the clock that it makes, and `sky_systick_sleep` among signals.
A sleep is described by how long each of its calls goes on before a signal is delivered to the
thread, in nanoseconds; a call that is over by then is not interrupted. A call that is not
interrupted may sleep longer than it was asked to, by `late`.
-/

set_option autoImplicit false

namespace Sky

open Base

structure Timespec where
  tvSec : Int
  tvNsec : Int
deriving DecidableEq, Repr

/-- `tp.tv_sec * 1000 + tp.tv_nsec / ( 1000 * 1000 )` -/
def Timespec.millis (tp : Timespec) : Int := tp.tvSec * 1000 + tp.tvNsec.tdiv (1000 * 1000)

def Timespec.nanos (tp : Timespec) : Int := tp.tvSec * 1000000000 + tp.tvNsec

/-- A time in seconds and the nanoseconds beyond them. -/
def Timespec.ofNanos (ns : Int) : Timespec := ⟨ns / 1000000000, ns % 1000000000⟩

def tickOf (tp : Timespec) : UInt32 := .ofInt tp.millis

/-- The clock is read until the tick is not 0. -/
def skySystickGet : List Timespec → Except Fault UInt32
  | [] => .error .endless
  | tp :: readings => if tickOf tp = 0 then skySystickGet readings else .ok (tickOf tp)

/-! ## Sleeping -/

/-- How long a sleep has lasted, in nanoseconds, and what `nanosleep` was asked for. -/
structure Slept where
  nanos : Int
  passed : List Timespec
deriving DecidableEq, Repr

def usleep (late : Nat) (signals : List Nat) (usec : UInt32) : Int :=
  match signals with
  | [] => usec.toNat * 1000 + late
  | s :: _ => if s < usec.toNat * 1000 then s else usec.toNat * 1000 + late

/-- The result of `nanosleep`: 0, -1 with `EINTR` and what remains, or -1 with `EINVAL`. -/
inductive NanosleepResult
  | done
  | interrupted (rem : Timespec)
  | invalid
deriving DecidableEq, Repr

/-- The call that a signal would interrupt after `signal` nanoseconds, and how long it sleeps. -/
def nanosleep (late : Nat) (signal : Option Nat) (req : Timespec) : NanosleepResult × Int :=
  if req.tvSec < 0 ∨ req.tvNsec < 0 ∨ 999999999 < req.tvNsec then (.invalid, 0)
  else match signal with
    | none => (.done, req.nanos + late)
    | some s =>
      if s < req.nanos then (.interrupted (.ofNanos (req.nanos - s)), s)
      else (.done, req.nanos + late)

/-- The `while ( 1 )` of `sky_systick_sleep`. -/
def sleepLoop (late : Nat) : List Nat → Timespec → Slept
  | [], req => ⟨(nanosleep late none req).2, [req]⟩
  | s :: signals, req =>
    match nanosleep late (some s) req with
    | (.interrupted rem, ns) =>
      let rest := sleepLoop late signals rem
      ⟨ns + rest.nanos, req :: rest.passed⟩
    | (_, ns) => ⟨ns, [req]⟩

def skySystickSleep (late : Nat) (signals : List Nat) (milliseconds : UInt32) : Slept :=
  let milliseconds := if 1 > milliseconds then 1 else milliseconds
  if milliseconds < 1000 then ⟨usleep late signals (milliseconds * 1000), []⟩
  else
    let req : Timespec :=
      { tvSec := (milliseconds / 1000).toNat
        tvNsec := (milliseconds % 1000).toNat * (1000 * 1000) }
    sleepLoop late signals req

end Sky
