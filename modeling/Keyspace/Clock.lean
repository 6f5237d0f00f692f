import Keyspace.Bytes

/-!
# Clocks

Two clocks measure time in milliseconds. The wall clock counts from 1970, may be set back and may
stand before 1970, which reads as zero; deadlines of keys are measured on it. The steady clock only
goes forward; deadlines of requests are measured on it. A wall clock of 64 bits cannot get near the
end of the seconds that a record can hold (`seconds_le`).
-/

namespace Keyspace

/-- The readings of both clocks, in milliseconds. -/
structure Clock where
  wall : Int64
  steady : Nat
  deriving DecidableEq, Repr

namespace Clock

/-- The milliseconds since 1970. -/
def millis (c : Clock) : Nat := c.wall.toInt.toNat

/-- The whole seconds since 1970. -/
def seconds (c : Clock) : Nat := c.millis / 1000

/-- Both clocks `ms` later. -/
def advance (c : Clock) (ms : Nat) : Clock :=
  { wall := Int64.ofInt (c.wall.toInt + ms), steady := c.steady + ms }

/-- The wall clock set to `ms`. -/
def setWall (c : Clock) (ms : Int64) : Clock := { c with wall := ms }

/-- The steady clock `ms` later, in a time too short for the wall clock to show. -/
def elapse (c : Clock) (ms : Nat) : Clock := { c with steady := c.steady + ms }

theorem millis_lt (c : Clock) : c.millis < 0x8000000000000000 := by
  have := c.wall.toInt_lt
  simp only [millis]
  omega

theorem seconds_le (c : Clock) : c.seconds ≤ 0x8000000000000000 / 1000 := by
  have := c.millis_lt
  simp only [seconds]
  omega

end Clock

end Keyspace
