import Keyspace.Score
import Mathlib.Algebra.Order.Field.Power
import Mathlib.Data.Int.ConditionallyCompleteOrder
import Mathlib.Data.Rat.Cast.Order
import Mathlib.Order.WithBot
import Mathlib.Tactic.Linarith
import Mathlib.Tactic.Positivity

/-!
# The numbers that scores write

`Score.value` is the number that the bits of a score write in double precision, with eleven bits of
exponent and 52 bits of fraction below the sign. `Score.lt` and `Score.le` compare signed magnitudes
and know nothing of exponents. They compare the numbers all the same (`lt_iff_value_lt`,
`le_iff_value_le`), as one magnitude more is a larger fraction, or the next exponent after the
largest fraction (`strictMono_absolute`).
-/

namespace Keyspace.Score

/-! ## Magnitudes -/

/-- The number of fractions that an exponent goes with. -/
def fractions : Nat := 2 ^ 52

/-- The number with a biased exponent and a fraction. With the lowest exponent it is subnormal, and
there is no leading one. -/
def scaled (exponent fraction : Nat) : ℚ :=
  if exponent = 0 then (fraction / fractions : ℚ) * 2 ^ (-1022 : ℤ)
  else (1 + fraction / fractions : ℚ) * 2 ^ ((exponent : ℤ) - 1023)

/-- The absolute value that a magnitude below that of the infinities writes. -/
def absolute (m : Nat) : ℚ := scaled (m / fractions) (m % fractions)

theorem fractions_pos : (0 : ℚ) < fractions := by
  rw [fractions]
  norm_num

theorem scaled_lt_scaled_succ (e f : Nat) : scaled e f < scaled e (f + 1) := by
  have hstep : (f / fractions : ℚ) < (f + 1 : Nat) / fractions := by
    rw [div_lt_div_iff_of_pos_right fractions_pos]
    exact_mod_cast f.lt_succ_self
  unfold scaled
  split
  · exact mul_lt_mul_of_pos_right hstep (by positivity)
  · exact mul_lt_mul_of_pos_right (by linarith) (by positivity)

/-- The numbers with one exponent are below the first with the next. -/
theorem scaled_lt_scaled_zero (e : Nat) {f : Nat} (hf : f < fractions) :
    scaled e f < scaled (e + 1) 0 := by
  have hpart : (f / fractions : ℚ) < 1 := by
    rw [div_lt_one fractions_pos]
    exact_mod_cast hf
  have hnext : scaled (e + 1) 0 = 2 ^ ((e : ℤ) - 1022) := by
    have he : ((e + 1 : Nat) : ℤ) - 1023 = (e : ℤ) - 1022 := by omega
    rw [scaled, if_neg (Nat.succ_ne_zero e), he]
    simp
  rw [hnext]
  unfold scaled
  split
  · rename_i he
    subst he
    exact mul_lt_of_lt_one_left (by positivity) hpart
  · have htwo : (2 : ℚ) ^ ((e : ℤ) - 1022) = 2 * 2 ^ ((e : ℤ) - 1023) := by
      rw [← zpow_one_add₀ two_ne_zero]
      congr 1
      omega
    rw [htwo]
    exact mul_lt_mul_of_pos_right (by linarith) (by positivity)

theorem absolute_add (e : Nat) {f : Nat} (hf : f < fractions) :
    absolute (fractions * e + f) = scaled e f := by
  have hpos : 0 < fractions := Nat.two_pow_pos 52
  have hdiv : (fractions * e + f) / fractions = e := by
    rw [Nat.mul_add_div hpos, Nat.div_eq_of_lt hf, Nat.add_zero]
  rw [absolute, hdiv, Nat.mul_add_mod, Nat.mod_eq_of_lt hf]

@[simp] theorem absolute_zero : absolute 0 = 0 := by simp [absolute, scaled]

/-- **A larger magnitude writes a larger number.** -/
theorem strictMono_absolute : StrictMono absolute := by
  refine strictMono_nat_of_lt_succ fun m => ?_
  have hpos : 0 < fractions := Nat.two_pow_pos 52
  obtain ⟨e, f, hf, rfl⟩ : ∃ e f, f < fractions ∧ m = fractions * e + f :=
    ⟨m / fractions, m % fractions, Nat.mod_lt m hpos, (Nat.div_add_mod m fractions).symm⟩
  rw [absolute_add e hf]
  rcases Nat.lt_or_eq_of_le hf with hnext | hcarry
  · rw [Nat.add_assoc, absolute_add e hnext]
    exact scaled_lt_scaled_succ e f
  · have hsucc : fractions * e + f + 1 = fractions * (e + 1) + 0 := by
      rw [Nat.mul_succ, Nat.add_zero, Nat.add_assoc]
      exact congrArg (fractions * e + ·) hcarry
    rw [hsucc, absolute_add (e + 1) hpos]
    exact scaled_lt_scaled_zero e hf

/-! ## Signs -/

/-- The number that a signed magnitude writes. -/
def ofSigned (z : ℤ) : ℚ := if z < 0 then -absolute z.natAbs else absolute z.natAbs

@[simp] theorem ofSigned_natCast (m : Nat) : ofSigned m = absolute m := by
  rw [ofSigned, if_neg (by omega), Int.natAbs_natCast]

/-- With either sign, zero is zero. -/
theorem ofSigned_neg (m : Nat) : ofSigned (-m) = -absolute m := by
  rcases m.eq_zero_or_pos with rfl | hm
  · simp [ofSigned]
  · rw [ofSigned, if_pos (by omega), Int.natAbs_neg, Int.natAbs_natCast]

theorem strictMono_ofSigned : StrictMono ofSigned := by
  refine strictMono_int_of_lt_succ fun z => ?_
  rcases lt_or_ge z 0 with hneg | hpos
  · obtain ⟨m, rfl⟩ : ∃ m : Nat, z = -(m + 1 : Nat) := ⟨(-z - 1).toNat, by omega⟩
    have hsucc : (-(m + 1 : Nat) + 1 : ℤ) = -m := by omega
    rw [hsucc, ofSigned_neg, ofSigned_neg, neg_lt_neg_iff]
    exact strictMono_absolute m.lt_succ_self
  · obtain ⟨m, rfl⟩ := Int.eq_ofNat_of_zero_le hpos
    rw [← Nat.cast_succ, ofSigned_natCast, ofSigned_natCast]
    exact strictMono_absolute m.lt_succ_self

/-- The number or the infinity that a signed magnitude writes. -/
def extended (z : ℤ) : WithBot (WithTop ℚ) :=
  if z.natAbs < infiniteMagnitude then ((ofSigned z : WithTop ℚ) : WithBot (WithTop ℚ))
  else if z < 0 then ⊥ else ⊤

theorem strictMonoOn_extended :
    StrictMonoOn extended (Set.Icc (-infiniteMagnitude) infiniteMagnitude) := by
  intro z hz z' hz' hlt
  obtain ⟨hlow, -⟩ := hz
  obtain ⟨-, hhigh⟩ := hz'
  unfold extended
  rcases Nat.lt_or_ge z.natAbs infiniteMagnitude with hfin | hinf
  · rw [if_pos hfin]
    rcases Nat.lt_or_ge z'.natAbs infiniteMagnitude with hfin' | hinf'
    · rw [if_pos hfin']
      exact_mod_cast strictMono_ofSigned hlt
    · rw [if_neg (Nat.not_lt.2 hinf'), if_neg (by omega)]
      exact WithBot.coe_lt_coe.2 (WithTop.coe_lt_top _)
  · have hpos : 0 < infiniteMagnitude := by decide
    rw [if_neg (Nat.not_lt.2 hinf), if_pos (by omega)]
    split
    · exact WithBot.bot_lt_coe _
    · rw [if_neg (by omega)]
      exact bot_lt_top

/-! ## Scores -/

/-- The number that the bits write, or one of the infinities. Of a NaN it means nothing. -/
def value (s : Score) : WithBot (WithTop ℚ) :=
  if s.magnitude < infiniteMagnitude then
    ((if s.isNegative then -absolute s.magnitude else absolute s.magnitude : ℚ) : WithTop ℚ)
  else if s.isNegative then ⊥ else ⊤

example : value ⟨0xc004000000000000⟩ = ((-5 / 2 : ℚ) : WithTop ℚ) := by decide +kernel

theorem value_eq_extended (s : Score) : s.value = extended s.signed := by
  have hpos : 0 < infiniteMagnitude := by decide
  unfold value extended signed
  cases s.isNegative with
  | true =>
    simp only [if_true, Int.natAbs_neg, Int.natAbs_natCast, ofSigned_neg]
    split
    · rfl
    · rw [if_pos (by omega)]
  | false =>
    simp only [Bool.false_eq_true, if_false, Int.natAbs_natCast, ofSigned_natCast]
    split
    · rfl
    · rw [if_neg (by omega)]

theorem signed_mem {s : Score} (h : s.isNaN = false) :
    s.signed ∈ Set.Icc (-(infiniteMagnitude : ℤ)) infiniteMagnitude := by
  have hle : s.magnitude ≤ infiniteMagnitude := Nat.not_lt.1 (of_decide_eq_false h)
  unfold signed
  constructor <;> split <;> omega

/-- **Scores are compared as the numbers that they write.** -/
theorem lt_iff_value_lt {a b : Score} :
    a.lt b = true ↔ a.isNaN = false ∧ b.isNaN = false ∧ a.value < b.value := by
  rw [lt, Bool.and_eq_true, Bool.and_eq_true, Bool.not_eq_true', Bool.not_eq_true',
    decide_eq_true_iff, and_assoc]
  refine and_congr_right fun ha => and_congr_right fun hb => ?_
  rw [value_eq_extended, value_eq_extended,
    strictMonoOn_extended.lt_iff_lt (signed_mem ha) (signed_mem hb)]

theorem le_iff_value_le {a b : Score} :
    a.le b = true ↔ a.isNaN = false ∧ b.isNaN = false ∧ a.value ≤ b.value := by
  rw [le, Bool.and_eq_true, Bool.and_eq_true, Bool.not_eq_true', Bool.not_eq_true',
    decide_eq_true_iff, and_assoc]
  refine and_congr_right fun ha => and_congr_right fun hb => ?_
  rw [value_eq_extended, value_eq_extended,
    strictMonoOn_extended.le_iff_le (signed_mem ha) (signed_mem hb)]

end Keyspace.Score
