import Keyspace.Clock
import Keyspace.Command.Reply

/-!
# Lifetimes

The commands on the deadline of a key set it, take it away or tell how much time is left. None of
them touches the value of a key that is there.
-/

namespace Keyspace

/-- The commands on the deadline of a key. -/
inductive Lifetime
  | expire (seconds : Int)
  | expireAt (timestamp : Int)
  | ttl
  | pttl
  | persist
  deriving DecidableEq, Repr

namespace Lifetime

/-- The seconds that remain until a deadline, in 64 bits that wrap around. -/
def secondsLeft (clock : Clock) (d : Deadline) : Int :=
  (Int64.ofNat d.expiresAt - Int64.ofNat clock.seconds).toInt

/-- The deadline in milliseconds, or the end of the 64 bits where it does not fit. -/
def dueMillis (d : Deadline) : Int64 := Int64.ofIntClamp ((Int64.ofNat d.expiresAt).toInt * 1000)

/-- The milliseconds that remain until a deadline, in 64 bits that wrap around. -/
def millisLeft (clock : Clock) (d : Deadline) : Int :=
  (dueMillis d - Int64.ofNat clock.millis).toInt

/-- The answer about the remaining time of a key whose slot is settled. -/
def remaining (left : Deadline → Int) (s : Slot) : Int :=
  if s.value.isNone then Deadline.notFound
  else match s.deadline? with
    | none => Deadline.persistent
    | some d => if left d ≤ 0 then Deadline.notFound else left d

/-- Gives a settled slot a deadline, if there is a key to have one. -/
def restrict (deadline : Except Deadline.Refusal Deadline) (s : Slot) :
    Except Error (Bool × Slot) :=
  if s.value.isNone then .ok (false, s)
  else match deadline with
    | .ok d => .ok (true, { s with deadline := some d.encode })
    | .error r => .error r.toError

/-- Takes the deadline of a settled slot away. -/
def release (s : Slot) : Bool × Slot :=
  if s.value.isNone then (false, s) else (s.deadline.isSome, { s with deadline := none })

/-- What a command on the deadline of `key` answers and leaves. A point in time that is not ahead
is refused before anything is looked at. -/
def run (key : Bytes) (clock : Clock) (s : Slot) : Lifetime → Except Error (Reply × Slot)
  | expire seconds => do
    let s ← s.settle key clock.seconds
    let (b, s) ← restrict (Deadline.ofDuration clock.seconds seconds) s
    return (.flag b, s)
  | expireAt timestamp =>
    if timestamp ≤ clock.seconds then return (.flag false, s)
    else do
      let s ← s.settle key clock.seconds
      let (b, s) ← restrict (Deadline.ofTimestamp clock.seconds timestamp) s
      return (.flag b, s)
  | ttl => do
    let s ← s.settle key clock.seconds
    return (.number (remaining (secondsLeft clock) s), s)
  | pttl => do
    let s ← s.settle key clock.seconds
    return (.number (remaining (millisLeft clock) s), s)
  | persist => do
    let s ← s.settle key clock.seconds
    let (b, s) := release s
    return (.flag b, s)

end Lifetime

end Keyspace
