import Keyspace.Bytes

/-!
# Numbers in decimal text

`ofNat` and `ofInt` write a number in ASCII digits without leading zeros; `toNat` reads any run
of digits. `toNat_ofNat` says that a written number reads back, so no two numbers have the same
text (`ofNat_injective`), and `isDigit_of_mem_ofNat` that only digits are written. `toNatBelow`
reads a number of bounded width without ever computing a greater one, as
`toNatBelow_eq_some_iff` says.
-/

namespace Keyspace.Decimal

open scoped Powers

/-- The byte is one of the ten ASCII digits. -/
def IsDigit (x : UInt8) : Prop := 48 ≤ x ∧ x ≤ 57

instance (x : UInt8) : Decidable (IsDigit x) := inferInstanceAs (Decidable (_ ∧ _))

/-- The shortest run of digits for `n`. -/
def ofNat (n : Nat) : Bytes := (Nat.toDigits 10 n).map fun c => UInt8.ofNat c.toNat

/-- The number that a run of digits writes, leading zeros allowed. -/
def toNat (b : Bytes) : Nat := b.foldl (fun n x => 10 * n + (x.toNat - 48)) 0

/-- The number that a run of digits writes, if it takes at most `width` digits: what is left
without the leading zeros. -/
def toNatBelow (width : Nat) (b : Bytes) : Option Nat :=
  let digits := b.dropWhile (· == 48)
  if digits.length ≤ width then some (toNat digits) else none

/-- The digits of the absolute value, after a minus sign when the number is negative. -/
def ofInt (n : Int) : Bytes := if n < 0 then 45 :: ofNat n.natAbs else ofNat n.natAbs

/-- The ASCII digits are the characters whose codes lie between those of `0` and `9`. -/
theorem toNat_of_isDigit {c : Char} (h : c.isDigit = true) : 48 ≤ c.toNat ∧ c.toNat ≤ 57 := by
  simp only [Char.isDigit, Bool.and_eq_true, decide_eq_true_eq, ge_iff_le,
    UInt32.le_iff_toNat_le] at h
  exact h

theorem isDigit_of_mem_ofNat {n : Nat} {x : UInt8} (h : x ∈ ofNat n) : IsDigit x := by
  simp only [ofNat, List.mem_map] at h
  obtain ⟨c, hc, rfl⟩ := h
  have hd := toNat_of_isDigit (Nat.isDigit_of_mem_toDigits (by decide) (by decide) hc)
  simp only [IsDigit, UInt8.le_iff_toNat_le, UInt8.toNat_ofNat']
  rw [Nat.mod_eq_of_lt (by omega)]
  exact hd

theorem ofNat_ne_nil (n : Nat) : ofNat n ≠ [] := by simp [ofNat]

theorem toNat_ofNat (n : Nat) : toNat (ofNat n) = n := by
  have h : ∀ (l : List Char) (k : Nat), (∀ c ∈ l, c.isDigit = true) →
      (l.map fun c => UInt8.ofNat c.toNat).foldl (fun n x => 10 * n + (x.toNat - 48)) k =
        Nat.ofDigitChars 10 l k := by
    intro l
    induction l with
    | nil => intros; rfl
    | cons c l ih =>
      intro k hl
      have hc := toNat_of_isDigit (hl c (by simp))
      rw [List.map_cons, List.foldl_cons, Nat.ofDigitChars_cons, UInt8.toNat_ofNat',
        Nat.mod_eq_of_lt (by omega), ih _ fun d hd => hl d (by simp [hd])]
      rfl
  rw [toNat, ofNat, h _ _ fun c hc => Nat.isDigit_of_mem_toDigits (by decide) (by decide) hc,
    Nat.ofDigitChars_toDigits (by decide) (by decide)]

theorem ofNat_injective {m n : Nat} (h : ofNat m = ofNat n) : m = n := by
  rw [← toNat_ofNat m, h, toNat_ofNat]

/-! ## Numbers of bounded width -/

theorem toNat_cons (x : UInt8) (b : Bytes) :
    toNat (x :: b) = (x.toNat - 48) * 10 ^ b.length + toNat b := by
  have h : ∀ (b : Bytes) (k : Nat),
      b.foldl (fun n x => 10 * n + (x.toNat - 48)) k = k * 10 ^ b.length + toNat b := by
    intro b
    induction b with
    | nil => simp [toNat]
    | cons y b ih =>
      intro k
      rw [toNat, List.foldl_cons, List.foldl_cons, ih, ih, List.length_cons, Nat.pow_succ]
      grind
  rw [toNat, List.foldl_cons, h]
  simp

theorem toNat_dropWhile (b : Bytes) : toNat (b.dropWhile (· == 48)) = toNat b := by
  induction b with
  | nil => rfl
  | cons x b ih =>
    rw [List.dropWhile_cons]
    split
    · rename_i h
      rw [ih, toNat_cons, eq_of_beq h]
      simp
    · rfl

/-- A run of digits writes a number of at most its length in digits. -/
theorem toNat_lt {b : Bytes} (h : ∀ x ∈ b, IsDigit x) : toNat b < 10 ^ b.length := by
  induction b with
  | nil => decide
  | cons x b ih =>
    have hb := ih fun y hy => h y (by simp [hy])
    have hx := h x (by simp)
    simp only [IsDigit, UInt8.le_iff_toNat_le] at hx
    have := Nat.mul_le_mul_right (10 ^ b.length) (show x.toNat - 48 ≤ 9 by
      have : (57 : UInt8).toNat = 57 := rfl
      omega)
    rw [toNat_cons, List.length_cons, Nat.pow_succ]
    omega

/-- Without a leading zero it writes one of exactly that many digits. -/
theorem le_toNat_cons {x : UInt8} (b : Bytes) (h : IsDigit x) (h' : x ≠ 48) :
    10 ^ b.length ≤ toNat (x :: b) := by
  simp only [IsDigit, UInt8.le_iff_toNat_le] at h
  have hx : x.toNat ≠ 48 := fun e => h' (UInt8.toNat_inj.1 e)
  have h48 : (48 : UInt8).toNat = 48 := rfl
  have := Nat.mul_le_mul_right (10 ^ b.length) (show 1 ≤ x.toNat - 48 by omega)
  rw [toNat_cons]
  omega

/-- Exactly the numbers below `10 ^ width` take at most `width` digits. -/
theorem toNatBelow_eq_some_iff {width n : Nat} {b : Bytes} (h : ∀ x ∈ b, IsDigit x) :
    toNatBelow width b = some n ↔ toNat b = n ∧ n < 10 ^ width := by
  have hd : ∀ x ∈ b.dropWhile (· == 48), IsDigit x :=
    fun x hx => h x ((List.dropWhile_sublist _).subset hx)
  have hw : (b.dropWhile (· == 48)).length ≤ width ↔ toNat b < 10 ^ width := by
    rw [← toNat_dropWhile b]
    constructor
    · exact fun hl => Nat.lt_of_lt_of_le (toNat_lt hd) (Nat.pow_le_pow_right (by decide) hl)
    · intro hl
      cases hb : b.dropWhile (· == 48) with
      | nil => simp
      | cons x r =>
        have hx : x ≠ 48 := by
          have := List.head?_dropWhile_not (· == (48 : UInt8)) b
          rw [hb] at this
          simpa using this
        rw [hb] at hl hd
        have := le_toNat_cons r (hd x (by simp)) hx
        exact (Nat.pow_lt_pow_iff_right (by decide)).1 (Nat.lt_of_le_of_lt this hl)
  simp only [toNatBelow, toNat_dropWhile, hw]
  split <;> simp <;> omega

end Keyspace.Decimal
