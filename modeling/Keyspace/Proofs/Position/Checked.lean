import Keyspace.Proofs.Position
import Mathlib.Order.Interval.Set.Basic
import Mathlib.Algebra.Group.Int.Defs

/-!
# Positions in numbers of 64 bits

Lengths and positions are numbers of 64 bits, so a sum on the way from a position to an index may
overflow, and a part of a sequence may be asked for that is not there. `Position.Checked` resolves
positions by such sums, one after the other, and cuts sequences with a look at their bounds; a
result is `none` when one of these goes wrong. In a sequence that is not longer than
`Position.longest` none does, and what comes out is what `Position.resolve`, `Position.clamp` and
`Position.slice` say (`Checked.resolve_eq`, `Checked.clamp_eq`, `Checked.slice_eq`).

These are in turn what positions mean without any bound on numbers: `Position.clamp` finds the ends
of `Position.span` (`clamp_eq_some_iff_span`), and none just if it is empty
(`clamp_eq_none_iff_span`).
-/

namespace Keyspace.Position

/-! ## Spans -/

/-- The indices in a sequence of `n` elements whose places lie from one position to another. -/
def span (n : Nat) (start stop : Int) : Set Nat :=
  {k | k < n ∧ absolute n start ≤ k ∧ (k : Int) ≤ absolute n stop}

variable {n a b : Nat} {start stop : Int}

theorem span_of_clamp (h : clamp n start stop = some (a, b)) :
    span n start stop = Set.Icc a b ∧ a ≤ b ∧ b < n := by
  obtain ⟨-, hab, ha, hb⟩ := clamp_eq_some_iff.1 h
  refine ⟨?_, hab, by omega⟩
  ext k
  simp only [span, Set.mem_ofPred_eq, Set.mem_Icc]
  omega

theorem clamp_eq_none_iff_span (h : n ≤ longest) :
    clamp n start stop = none ↔ span n start stop = ∅ := by
  constructor
  · intro hnone
    refine Set.eq_empty_iff_forall_notMem.2 fun k hk => ?_
    simp only [span, Set.mem_ofPred_eq] at hk
    have hsome : clamp n start stop = some ((max (absolute n start) 0).toNat,
        (min (absolute n stop) (n - 1)).toNat) :=
      clamp_eq_some_iff.2 ⟨h, by omega, by omega, by omega⟩
    rw [hnone] at hsome
    cases hsome
  · intro hempty
    cases hclamp : clamp n start stop with
    | none => rfl
    | some p =>
      obtain ⟨hspan, hle, -⟩ := span_of_clamp hclamp
      have hmem : p.1 ∈ span n start stop := hspan ▸ ⟨Nat.le_refl _, hle⟩
      rw [hempty] at hmem
      exact absurd hmem (Set.notMem_empty _)

/-- A span is found by its ends. -/
theorem clamp_eq_some_iff_span (h : n ≤ longest) :
    clamp n start stop = some (a, b) ↔ a ≤ b ∧ span n start stop = Set.Icc a b := by
  constructor
  · intro hclamp
    obtain ⟨hspan, hle, -⟩ := span_of_clamp hclamp
    exact ⟨hle, hspan⟩
  · rintro ⟨hle, hspan⟩
    cases hclamp : clamp n start stop with
    | none =>
      rw [(clamp_eq_none_iff_span h).1 hclamp] at hspan
      exact absurd hspan.symm (Set.nonempty_Icc.2 hle).ne_empty
    | some p =>
      obtain ⟨hspan', hle', -⟩ := span_of_clamp hclamp
      rw [hspan', Set.Icc_eq_Icc_iff hle'] at hspan
      rw [← hspan.1, ← hspan.2]

/-! ## Numbers of 64 bits -/

namespace Checked

/-- The sum of two numbers, unless it overflows. -/
def add (a b : Int64) : Option Int64 :=
  if a.toBitVec.saddOverflow b.toBitVec then none else some (a + b)

/-- The difference of two numbers, unless it overflows. -/
def sub (a b : Int64) : Option Int64 :=
  if a.toBitVec.ssubOverflow b.toBitVec then none else some (a - b)

/-- The place that the position `i` means in a sequence of `len` elements. -/
def absolute (len i : Int64) : Option Int64 := if i < 0 then add len i else some i

/-- The index at a position, if the sequence has an element there. -/
def resolve (n : Nat) (i : Int64) : Option (Option Nat) := do
  let len := Int64.ofNat n
  let place ← absolute len i
  return if place < 0 ∨ len ≤ place then none else some place.toUInt64.toNat

/-- Two places as indices, if they are in order. -/
def ends (first last : Int64) : Option (Nat × Nat) :=
  if last < first then none else some (first.toUInt64.toNat, last.toUInt64.toNat)

/-- The first and last index from `start` to `stop`, both included, if there is any. -/
def clamp (n : Nat) (start stop : Int64) : Option (Option (Nat × Nat)) :=
  if n = 0 then some none
  else do
    let len := Int64.ofNat n
    let first ← absolute len start
    let last ← absolute len stop
    let greatest ← sub len 1
    return ends (max first 0) (min last greatest)

/-- The element at a position, if the sequence has one there. -/
def element {α : Type} (l : List α) (i : Int64) : Option (Option α) := do
  match ← resolve l.length i with
  | none => return none
  | some k => (l[k]?).map some

/-- The elements of a sequence from one index to another, if both lie within its bounds. -/
def cut {α : Type} (l : List α) (first last : Nat) : Option (List α) :=
  if first ≤ last + 1 ∧ last + 1 ≤ l.length then some ((l.take (last + 1)).drop first) else none

/-- The elements of a sequence from `start` to `stop`, both included. -/
def slice {α : Type} (l : List α) (start stop : Int64) : Option (List α) := do
  match ← clamp l.length start stop with
  | none => return []
  | some (first, last) => cut l first last

/-! ## Nothing goes wrong -/

theorem exists_add {a b : Int64} (h : -2 ^ 63 ≤ a.toInt + b.toInt)
    (h' : a.toInt + b.toInt < 2 ^ 63) :
    ∃ c, add a b = some c ∧ c.toInt = a.toInt + b.toInt := by
  have hover : ¬ a.toBitVec.saddOverflow b.toBitVec = true := by
    simp only [BitVec.saddOverflow, Int64.toInt_toBitVec, Bool.or_eq_true, decide_eq_true_eq]
    omega
  refine ⟨a + b, if_neg hover, ?_⟩
  exact BitVec.toInt_add_of_not_saddOverflow hover

theorem exists_sub {a b : Int64} (h : -2 ^ 63 ≤ a.toInt - b.toInt)
    (h' : a.toInt - b.toInt < 2 ^ 63) :
    ∃ c, sub a b = some c ∧ c.toInt = a.toInt - b.toInt := by
  have hover : ¬ a.toBitVec.ssubOverflow b.toBitVec = true := by
    simp only [BitVec.ssubOverflow, Int64.toInt_toBitVec, Bool.or_eq_true, decide_eq_true_eq]
    omega
  refine ⟨a - b, if_neg hover, ?_⟩
  exact BitVec.toInt_sub_of_not_ssubOverflow hover

theorem toInt_ofNat (h : n ≤ longest) : (Int64.ofNat n).toInt = n :=
  Int64.toInt_ofNat_of_lt (by unfold longest at h; omega)

theorem toInt_max (a b : Int64) : (max a b).toInt = max a.toInt b.toInt := by
  have hmax : max a b = if a ≤ b then b else a := rfl
  rw [hmax, Int.max_def]
  simp only [Int64.le_iff_toInt_le]
  split <;> rfl

theorem toInt_min (a b : Int64) : (min a b).toInt = min a.toInt b.toInt := by
  have hmin : min a b = if a ≤ b then a else b := rfl
  rw [hmin, Int.min_def]
  simp only [Int64.le_iff_toInt_le]
  split <;> rfl

theorem toNat_toUInt64 {a : Int64} (h : 0 ≤ a.toInt) : a.toUInt64.toNat = a.toInt.toNat := by
  have hbits : a.toInt = a.toBitVec.toInt := rfl
  have hnat : a.toUInt64.toNat = a.toBitVec.toNat := rfl
  have hlt := a.toBitVec.isLt
  rw [hnat]
  rw [hbits, BitVec.toInt_eq_toNat_cond] at h ⊢
  split <;> split at h <;> omega

theorem ends_eq {first last : Int64} (h : 0 ≤ first.toInt) :
    ends first last = if first.toInt ≤ last.toInt then some (first.toInt.toNat, last.toInt.toNat)
      else none := by
  simp only [ends, Int64.lt_iff_toInt_lt]
  by_cases hle : first.toInt ≤ last.toInt
  · rw [if_neg (Int.not_lt.2 hle), if_pos hle, toNat_toUInt64 h, toNat_toUInt64 (h.trans hle)]
  · rw [if_pos (Int.not_le.1 hle), if_neg hle]

/-- The sum by which a position is counted from the tail does not overflow. -/
theorem exists_absolute (h : n ≤ longest) (i : Int64) :
    ∃ place, absolute (Int64.ofNat n) i = some place ∧
      place.toInt = Position.absolute n i.toInt := by
  have hlen := toInt_ofNat h
  have hlow := i.le_toInt
  unfold longest at h
  by_cases hi : i < 0
  · have hneg : i.toInt < 0 := Int64.lt_iff_toInt_lt.1 hi
    obtain ⟨place, hadd, hplace⟩ := exists_add (a := Int64.ofNat n) (b := i) (by omega) (by omega)
    refine ⟨place, (if_pos hi).trans hadd, ?_⟩
    rw [hplace, hlen, Position.absolute, if_pos hneg]
  · have hpos : ¬ i.toInt < 0 := fun hneg => hi (Int64.lt_iff_toInt_lt.2 hneg)
    refine ⟨i, if_neg hi, ?_⟩
    rw [Position.absolute, if_neg hpos]

theorem resolve_eq (h : n ≤ longest) (i : Int64) :
    resolve n i = some (Position.resolve n i.toInt) := by
  have hlen := toInt_ofNat h
  obtain ⟨place, habsolute, hplace⟩ := exists_absolute h i
  rw [resolve, habsolute]
  simp only [Option.bind_eq_bind, Option.bind_some, Int64.lt_iff_toInt_lt, Int64.le_iff_toInt_le,
    Int64.toInt_zero, hlen]
  rw [Position.resolve, ← hplace]
  by_cases hin : 0 ≤ place.toInt ∧ place.toInt < n
  · rw [if_neg (by omega), if_pos ⟨h, hin⟩, toNat_toUInt64 hin.1]
    rfl
  · rw [if_pos (by omega), if_neg fun hall => hin hall.2]
    rfl

theorem clamp_eq (h : n ≤ longest) (start stop : Int64) :
    clamp n start stop = some (Position.clamp n start.toInt stop.toInt) := by
  by_cases hn : n = 0
  · have hnone : Position.clamp n start.toInt stop.toInt = none := by
      refine (clamp_eq_none_iff_span h).2 (Set.eq_empty_iff_forall_notMem.2 fun k hk => ?_)
      exact absurd hk.1 (by omega)
    rw [clamp, if_pos hn, hnone]
  · have hlen := toInt_ofNat h
    have hone : (1 : Int64).toInt = 1 := rfl
    obtain ⟨first, hfirst, hfirst'⟩ := exists_absolute h start
    obtain ⟨last, hlast, hlast'⟩ := exists_absolute h stop
    obtain ⟨greatest, hgreatest, hgreatest'⟩ :=
      exists_sub (a := Int64.ofNat n) (b := 1) (by omega) (by unfold longest at h; omega)
    rw [hlen, hone] at hgreatest'
    have hmax := toInt_max first 0
    have hmin := toInt_min last greatest
    rw [hfirst', Int64.toInt_zero] at hmax
    rw [hlast', hgreatest'] at hmin
    simp only [clamp, if_neg hn, hfirst, hlast, hgreatest, Option.bind_eq_bind, Option.bind_some]
    rw [ends_eq (by omega), hmax, hmin, Position.clamp]
    simp only [h, true_and]
    rfl

theorem element_eq {α : Type} {l : List α} (h : l.length ≤ longest) (i : Int64) :
    element l i = some ((Position.resolve l.length i.toInt).bind (l[·]?)) := by
  rw [element, resolve_eq h]
  cases hk : Position.resolve l.length i.toInt with
  | none => rfl
  | some k =>
    obtain ⟨-, -, hlt⟩ := resolve_eq_some_iff.1 hk
    simp only [Option.bind_eq_bind, Option.bind_some, List.getElem?_eq_getElem hlt, Option.map_some]

/-- What is cut out of a sequence lies within its bounds. -/
theorem slice_eq {α : Type} {l : List α} (h : l.length ≤ longest) (start stop : Int64) :
    slice l start stop = some (Position.slice l start.toInt stop.toInt) := by
  rw [slice, clamp_eq h, Position.slice]
  cases hclamp : Position.clamp l.length start.toInt stop.toInt with
  | none => rfl
  | some p =>
    obtain ⟨-, hle, hlt⟩ := span_of_clamp hclamp
    exact if_pos ⟨Nat.le_succ_of_le hle, hlt⟩

end Checked

end Keyspace.Position
