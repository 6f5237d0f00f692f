import Keyspace.Bytes.Decimal

/-!
# Counters

A counter is a number of the signed 64-bit range, kept as decimal text. `encode` writes the
shortest text. `decode` reads one optional sign and then one or more digits, leading zeros
allowed, as long as the value lies in the range.
-/

namespace Keyspace.Counter

open scoped Powers

/-- The least counter. -/
def least : Int := -0x8000000000000000

/-- The greatest counter. -/
def greatest : Int := 0x7fffffffffffffff

/-- A counter can hold the number. -/
def Fits (n : Int) : Prop := least ≤ n ∧ n ≤ greatest

instance (n : Int) : Decidable (Fits n) := inferInstanceAs (Decidable (_ ∧ _))

/-- The number if a counter can hold it. -/
def fit? (n : Int) : Option Int := if least ≤ n ∧ n ≤ greatest then some n else none

/-- The text of a counter. -/
def encode (n : Int) : Bytes := Decimal.ofInt n

/-- The most digits that a counter takes. -/
def width : Nat := 19

/-- The value of one or more digits, if it is not wider than a counter. -/
def digits? (b : Bytes) : Option Nat :=
  if b ≠ [] ∧ b.all (Decimal.IsDigit ·) then Decimal.toNatBelow width b else none

/-- The counter that a text holds. -/
def decode (b : Bytes) : Option Int :=
  match b with
  | 45 :: r => (digits? r).bind fun n => fit? (-n)
  | 43 :: r => (digits? r).bind fun n => fit? n
  | r => (digits? r).bind fun n => fit? n

theorem fit?_eq_some_iff {m n : Int} : fit? m = some n ↔ m = n ∧ least ≤ n ∧ n ≤ greatest := by
  unfold fit?
  split <;> simp <;> omega

theorem fit?_of_fits {n : Int} (h : Fits n) : fit? n = some n := if_pos h

theorem fit?_of_not_fits {n : Int} (h : ¬ Fits n) : fit? n = none := if_neg h

theorem digits?_eq_some_iff {b : Bytes} {n : Nat} :
    digits? b = some n ↔
      b ≠ [] ∧ (∀ x ∈ b, Decimal.IsDigit x) ∧ Decimal.toNat b = n ∧ n < 10 ^ width := by
  have hall : b.all (Decimal.IsDigit ·) = true ↔ ∀ x ∈ b, Decimal.IsDigit x := by simp
  rw [← and_assoc, digits?, ← hall]
  split <;> rename_i h
  · rw [Decimal.toNatBelow_eq_some_iff (hall.1 h.2)]
    exact ⟨fun e => ⟨h, e⟩, And.right⟩
  · simp only [reduceCtorEq, false_iff]
    exact fun h' => h h'.1

theorem digits?_ofNat {n : Nat} (h : n < 10 ^ width) : digits? (Decimal.ofNat n) = some n :=
  digits?_eq_some_iff.2
    ⟨Decimal.ofNat_ne_nil n, fun _ => Decimal.isDigit_of_mem_ofNat, Decimal.toNat_ofNat n, h⟩

/-- A counter is not wider than `width`. -/
theorem natAbs_lt {n : Int} (h : least ≤ n) (h' : n ≤ greatest) : n.natAbs < 10 ^ width := by
  simp only [least, greatest, width] at *
  omega

/-- Digits without a sign are read as they stand. -/
theorem decode_of_isDigit {b : Bytes} (h : ∀ x ∈ b, Decimal.IsDigit x) :
    decode b = (digits? b).bind fun n => fit? n := by
  unfold decode
  split
  · exact absurd (h 45 List.mem_cons_self) (by decide)
  · exact absurd (h 43 List.mem_cons_self) (by decide)
  · rfl

/-- A counter's text reads back. -/
theorem decode_encode {n : Int} (h : least ≤ n) (h' : n ≤ greatest) :
    decode (encode n) = some n := by
  have hd := digits?_ofNat (natAbs_lt h h')
  unfold encode Decimal.ofInt
  split
  · simp only [decode, hd, Option.bind_some, fit?_eq_some_iff]
    exact ⟨by omega, h, h'⟩
  · rw [decode_of_isDigit fun _ => Decimal.isDigit_of_mem_ofNat, hd, Option.bind_some,
      fit?_eq_some_iff]
    exact ⟨by omega, h, h'⟩

end Keyspace.Counter
