import Keyspace.Bytes

/-!
# Scores

A score is a double-precision number given by its 64 bits, so that signed zeros, infinities and
the payloads of NaNs are exact. Two orders matter. `rank` is the total order of the bit patterns:
below zero by falling magnitude, `-0` before `+0`, NaNs beyond the infinities on their own side.
`lt` and `le` compare the numbers themselves: both zeros are one number, and a NaN is comparable
with nothing. `rank_injective` says that the total order tells all patterns apart, and
`rank_lt_of_lt` that it refines the numeric one.
-/

namespace Keyspace

/-- A double-precision number, by its bits. -/
structure Score where
  bits : UInt64
  deriving DecidableEq, Repr

namespace Score

/-- The bits below the sign, read as a number. They grow with the absolute value. -/
def magnitude (s : Score) : Nat := s.bits.toNat % 0x8000000000000000

/-- The sign bit is set. -/
def isNegative (s : Score) : Bool := 0x8000000000000000 ≤ s.bits.toNat

/-- The magnitude of the infinities; a NaN has a larger one. -/
def infiniteMagnitude : Nat := 0x7ff0000000000000

/-- The bits write no number. -/
def isNaN (s : Score) : Bool := infiniteMagnitude < s.magnitude

/-- The place of the pattern in the total order. -/
def rank (s : Score) : Int :=
  if s.isNegative then -(s.magnitude : Int) - 1 else s.magnitude

/-- The magnitude with its sign, in which both zeros are one number. -/
def signed (s : Score) : Int := if s.isNegative then -(s.magnitude : Int) else s.magnitude

/-- The number `a` is below the number `b`. -/
def lt (a b : Score) : Bool := !a.isNaN && !b.isNaN && a.signed < b.signed

/-- The number `a` is below or equal to the number `b`. -/
def le (a b : Score) : Bool := !a.isNaN && !b.isNaN && a.signed ≤ b.signed

theorem rank_injective {a b : Score} (h : a.rank = b.rank) : a = b := by
  have ha := a.bits.toNat_lt
  have hb := b.bits.toNat_lt
  have : a.bits.toNat = b.bits.toNat := by
    simp only [rank, magnitude, isNegative, decide_eq_true_eq] at h
    split at h <;> split at h <;> omega
  cases a; cases b
  simpa using UInt64.toNat_inj.1 this

theorem rank_lt_of_lt {a b : Score} (h : a.lt b = true) : a.rank < b.rank := by
  simp only [lt, Bool.and_eq_true, decide_eq_true_eq] at h
  have hsigned := h.2
  simp only [signed, rank] at hsigned ⊢
  cases ha : a.isNegative <;> cases hb : b.isNegative <;>
  · simp only [ha, hb, Bool.false_eq_true, if_true, if_false] at hsigned ⊢
    omega

end Score

end Keyspace
