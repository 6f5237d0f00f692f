import Keyspace.Bytes

/-!
# Positions in a sequence

A position counts from the head when it is not negative and from the tail otherwise, `-1` being
the last element; `absolute` is the place that it means. `resolve` turns a position into an index
and `clamp` a pair of positions into the first and last index of the span between them, cut to the
sequence. `resolve_eq_some_iff` and `clamp_eq_some_iff` say exactly which. Positions are signed
64-bit numbers, and only a sequence whose length is one too, at most `longest`, has any.
-/

namespace Keyspace.Position

/-- The place that the position `i` means in a sequence of `n` elements; it may lie outside. -/
def absolute (n : Nat) (i : Int) : Int := if i < 0 then n + i else i

/-- The length of the longest sequence with positions. -/
def longest : Nat := 0x7fffffffffffffff

/-- The index at a position, if the sequence has an element there. -/
def resolve (n : Nat) (i : Int) : Option Nat :=
  if n ≤ longest ∧ 0 ≤ absolute n i ∧ absolute n i < n then some (absolute n i).toNat else none

/-- The first and last index from `start` to `stop`, both included, if there is any. -/
def clamp (n : Nat) (start stop : Int) : Option (Nat × Nat) :=
  let first := max (absolute n start) 0
  let last := min (absolute n stop) (n - 1)
  if n ≤ longest ∧ first ≤ last then some (first.toNat, last.toNat) else none

/-- The elements of a sequence from `start` to `stop`, both included. -/
def slice {α : Type} (l : List α) (start stop : Int) : List α :=
  match clamp l.length start stop with
  | none => []
  | some (first, last) => (l.take (last + 1)).drop first

theorem resolve_eq_some_iff {n k : Nat} {i : Int} :
    resolve n i = some k ↔ n ≤ longest ∧ absolute n i = k ∧ k < n := by
  unfold resolve
  split <;> simp <;> omega

theorem clamp_eq_some_iff {n a b : Nat} {start stop : Int} :
    clamp n start stop = some (a, b) ↔
      n ≤ longest ∧ a ≤ b ∧ (a : Int) = max (absolute n start) 0 ∧
        (b : Int) = min (absolute n stop) (n - 1) := by
  simp only [clamp]
  split <;> simp <;> omega

end Keyspace.Position
