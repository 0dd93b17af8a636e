import LibWebserver.Exception
import Mathlib.Algebra.Ring.Int.Defs

/-! The clocks and timers. Seconds and nanoseconds are signed 64-bit numbers; an
operation that overflows is undefined in the source and has no result here. -/

namespace LibWebserver

def nanoclock.second : Int := 1000000000

/-- A result of `time_t` or `long` arithmetic. -/
def signed (x : Int) : Option Int := if -2 ^ 63 ≤ x ∧ x < 2 ^ 63 then some x else none

structure Timespec where
  sec : Int
  nsec : Int
  deriving DecidableEq, Repr

structure HiResClock where
  sec : Int
  nsec : Int
  deriving DecidableEq, Repr

namespace HiResClock

variable (self : HiResClock)

def toTimespec : Timespec := { sec := self.sec, nsec := self.nsec }

/-- `sec_` and `nsec_` after more of both; `/` and `%` truncate towards zero. -/
def carried (sec nsec : Int) : Option HiResClock := do
  let sum ← signed (self.nsec + nsec)
  let seconds ← signed (sec + sum.tdiv nanoclock.second)
  return { sec := ← signed (self.sec + seconds), nsec := sum.tmod nanoclock.second }

/-- `operator+`, which changes the clock it is called on. -/
def add (src : HiResClock) : Option HiResClock := self.carried src.sec src.nsec

/-- `operator-`, which changes the clock it is called on. -/
def sub (src : HiResClock) : Option HiResClock := do
  let n ← signed (self.nsec - src.nsec)
  if n < 0 then
    let seconds ← signed (src.sec - 1)
    return { sec := ← signed (self.sec - seconds), nsec := ← signed (nanoclock.second + n) }
  else return { sec := ← signed (self.sec - src.sec), nsec := n }

/-- `Advance`, for what `Now()` reads. -/
def advance (now : HiResClock) (sec nsec : Int) : Except Exception (Option HiResClock) :=
  if nsec < 0 then .error (.invalidRange "Attempt to travel back in time.")
  else .ok (now.carried sec nsec)

end HiResClock

structure HiResTimer where
  sec0 : Int
  sec1 : Int
  nsec0 : Int
  nsec1 : Int
  deriving DecidableEq, Repr

namespace HiResTimer

variable (self : HiResTimer)

def reset (now : Timespec) : HiResTimer := { self with sec0 := now.sec, nsec0 := now.nsec }

/-- `HiResTimer()`, for the monotonic time it starts at. -/
def start (now : Timespec) : HiResTimer := ({ sec0 := 0, sec1 := 0, nsec0 := 0, nsec1 := 0 } : HiResTimer).reset now

def mark (now : Timespec) : HiResTimer := { self with sec1 := now.sec, nsec1 := now.nsec }

def difference : Option Timespec := do
  let n ← signed (self.nsec1 - self.nsec0)
  if n < 0 then
    let seconds ← signed (self.sec1 - self.sec0)
    return { sec := ← signed (seconds - 1), nsec := ← signed (nanoclock.second + n) }
  else return { sec := ← signed (self.sec1 - self.sec0), nsec := n }

end HiResTimer
end LibWebserver
