import Octet.Session.Basic

/-!
# Clocks

A `Clock` runs a session in time: once started, it executes one instruction at the end of every
period until the machine stops running. Time is what `advance` is told, so a clock is a plain value:
the session, the period, and, while it is running, the time that is left until the next tick.

At most one run is live. Editing the session does not stop the clock, so a machine that faults under
an edit is found out at the next tick only. Joining a clock is waiting for its end: what becomes of a
clock when the waiting is given up cannot be told by a `Clock`.
-/

namespace Octet

/-- A session under a clock. Times are in milliseconds. -/
structure Clock where
  session : Session
  period : Nat
  /-- Whether there is anything that could run a clock. -/
  hosted : Bool := true
  /-- The time until the next tick, if the clock is running. -/
  wait : Option Nat := none

namespace Clock

/-- What keeps a clock from being started. -/
inductive Error where
  | zeroPeriod
  | notHosted
  deriving DecidableEq

/-- The wording of an error. -/
def Error.message : Error → String
  | zeroPeriod => "clock period must be non-zero"
  | notHosted => "no host for a clock"

/-- A clock with the period of the configuration. -/
def ofSession (session : Session) : Clock where
  session
  period := session.config.clockPeriod

/-- Whether the clock is running. -/
def isRunning (c : Clock) : Bool :=
  c.wait.isSome

/-- Starts the clock, unless it is running already or the machine is not. Says whether it did. The
first tick is one period away. -/
def start (c : Clock) : Clock × Except Error Bool :=
  if c.period = 0 then (c, .error .zeroPeriod)
  else if c.isRunning || !c.session.isRunning then (c, .ok false)
  else if c.hosted then ({ c with wait := some c.period }, .ok true)
  else (c, .error .notHosted)

/-- Stops the clock. Says whether it was running. -/
def stop (c : Clock) : Clock × Bool :=
  ({ c with wait := none }, c.isRunning)

/-- Stops the clock and executes one instruction, whatever state the machine is in. -/
def singleStep (c : Clock) : Clock × Option Entry :=
  let (session, entry) := c.session.forceRunning.step
  ({ c.stop.1 with session }, entry)

/-- Stops the clock and resets the session. -/
def reset (c : Clock) : Clock :=
  { c.stop.1 with session := c.session.reset }

/-! ## The passing of time -/

/-- What a tick does: it executes an instruction, and says whether there will be another tick. There
will be if there was one to execute and the machine is still running. -/
def tick (s : Session) : Session × Bool :=
  let (next, entry) := s.step
  (next, entry.isSome && next.isRunning)

/-- The session after at most `n` ticks, and whether there will be another one. -/
def ticks (s : Session) : Nat → Session × Bool
  | 0 => (s, true)
  | n + 1 =>
    match tick s with
    | (next, true) => ticks next n
    | (next, false) => (next, false)

/-- Lets time pass. A tick that is due at the very end is included. -/
def advance (c : Clock) (time : Nat) : Clock :=
  match c.wait with
  | none => c
  | some wait =>
    if time < wait then { c with wait := some (wait - time) }
    else
      let late := time - wait
      let (session, live) := ticks c.session (late / c.period + 1)
      { c with session, wait := if live then some (c.period - late % c.period) else none }

/-- More than the number of states that a machine can be in while its program runs: 256 bytes of
data, eight registers and a program counter with 256 values each, and fewer than 16 states of flags
and run state. The instruction memory does not change, and nothing reads trace and output. -/
def stateBound : Nat := Nat.pow 256 (256 + 8 + 1) * 16

/-- Ticks until there is no other tick, at most `n` times. -/
def finishWithin (s : Session) : Nat → Option Session
  | 0 => none
  | n + 1 =>
    match tick s with
    | (next, true) => finishWithin next n
    | (next, false) => some next

/-- Lets the clock run until it stops by itself. There is no such time if the machine comes back to
a state that it has been in, which is so if it runs for more steps than there are states. -/
def join (c : Clock) : Option Clock :=
  if c.isRunning then
    (finishWithin c.session stateBound).map fun session => { c with session, wait := none }
  else some c

/-! ## Description -/

/-- A time, in seconds with as many places as it takes if it is a second or more. -/
def timeText (milliseconds : Nat) : String :=
  if milliseconds = 0 then "0ns"
  else if milliseconds < 1000 then s!"{milliseconds}ms"
  else
    let places := (Nat.toDigits 10 (1000 + milliseconds % 1000)).drop 1
    let places := (places.reverse.dropWhile (· == '0')).reverse
    let fraction := if places.isEmpty then "" else "." ++ String.ofList places
    toString (milliseconds / 1000) ++ fraction ++ "s"

/-- The clock, for a log. -/
def describe (c : Clock) : String :=
  Text.record "Driver" [("period", timeText c.period), ("running", toString c.isRunning)]

end Clock

end Octet
