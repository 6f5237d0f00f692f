import Keyspace.Proofs.Record.RoundTrip
import Keyspace.Proofs.Record.Upsert
import Keyspace.Proofs.Score

/-!
# The order of rankings is total and numeric

Rankings are sorted and checked by `ScoredMember.order`, which puts the total order of the scores
before the order of the members. `order_total` says that this is sound for all bit patterns. No two
scored members are equal in the order, so a list has one arrangement in the order
(`Ranking.sort_unique`). The order is transitive, so the reader of a ranking need only compare
neighbours (`Ranking.pairwise_of_decode`). And where scores are numbers, the order is the one of the
numbers (`order_of_value_lt`).
-/

namespace Keyspace

namespace ScoredMember

theorem order_eq_eq_iff_bits {a b : ScoredMember} :
    order a b = .eq ↔ a.score.bits = b.score.bits ∧ a.member = b.member := by
  rw [order_eq_eq_iff]
  obtain ⟨⟨x⟩, m⟩ := a
  obtain ⟨⟨y⟩, n⟩ := b
  simp

/-- A lower number comes first, whatever the members are. -/
theorem order_of_value_lt {a b : ScoredMember} (ha : a.score.isNaN = false)
    (hb : b.score.isNaN = false) (h : a.score.value < b.score.value) : order a b = .lt := by
  have hlt : a.score.lt b.score = true := Score.lt_iff_value_lt.2 ⟨ha, hb, h⟩
  exact lt_iff.2 (.inl (Score.rank_lt_of_lt hlt))

end ScoredMember

namespace Ranking

open ScoredMember

/-- No element is greater than one to its right, as the order has it. -/
theorem sorted_iff_order {l : List ScoredMember} :
    Sorted l ↔ l.Pairwise fun x y => order x y ≠ .gt := by
  simp only [Sorted, ne_eq, order_eq_gt_iff]

/-- **Sorting has one result.** -/
theorem sort_unique {l l' : List ScoredMember} :
    (l'.Perm l ∧ l'.Pairwise fun x y => order x y ≠ .gt) ↔ l' = sort l := by
  rw [← sorted_iff_order]
  constructor
  · rintro ⟨hperm, hsorted⟩
    exact hsorted.eq_of_perm (sorted_sort l) (hperm.trans (perm_sort l).symm)
  · rintro rfl
    exact ⟨perm_sort l, sorted_sort l⟩

/-- With neighbours in strict order, all elements are. -/
theorem isChain_order_iff {l : List ScoredMember} :
    (l.IsChain fun x y => order x y = .lt) ↔ l.Pairwise fun x y => order x y = .lt :=
  List.isChain_iff_pairwise (R := fun x y : ScoredMember => x < y)

theorem pairwise_of_decode {b : Bytes} {l : List ScoredMember} (h : decode b = .ok l) :
    l.Pairwise fun x y => order x y = .lt :=
  isChain_order_iff.1 (decode_eq_ok_iff.1 h).2.2.2

end Ranking

namespace ScoredMember

/-- **The order of scored members.** On all bit patterns and all members, two scored members are
equal in the order if they are the same, the order is reversed when they change places, and it is
transitive. Where both scores are numbers or infinities, the lower one comes first. So a list is
sorted in one way only, and a list with neighbours in strict order, such as a record that can be
read, has all its elements in strict order. -/
theorem order_total (a b c : ScoredMember) :
    (order a b = .eq ↔ a.score.bits = b.score.bits ∧ a.member = b.member) ∧
    order b a = (order a b).swap ∧
    (order a b = .lt → order b c = .lt → order a c = .lt) ∧
    (a.score.isNaN = false → b.score.isNaN = false → a.score.value < b.score.value →
      order a b = .lt) ∧
    (∀ l l', (l'.Perm l ∧ l'.Pairwise fun x y => order x y ≠ .gt) ↔ l' = Ranking.sort l) ∧
    (∀ l : List ScoredMember,
      (l.IsChain fun x y => order x y = .lt) ↔ l.Pairwise fun x y => order x y = .lt) ∧
    ∀ bytes l, Ranking.decode bytes = .ok l → l.Pairwise fun x y => order x y = .lt :=
  ⟨order_eq_eq_iff_bits, order_swap a b, lt_trans, order_of_value_lt,
    fun _ _ => Ranking.sort_unique, fun _ => Ranking.isChain_order_iff,
    fun _ _ => Ranking.pairwise_of_decode⟩

/-- Infinity, a subnormal number, both zeros and NaNs with either sign: the zeros are apart, the
NaNs are at the ends, and the numbers between them are in their order. -/
theorem order_total_extremes :
    let infinity : ScoredMember := ⟨⟨0x7ff0000000000000⟩, [0]⟩
    let tiny : ScoredMember := ⟨⟨1⟩, [1]⟩
    let zero : ScoredMember := ⟨⟨0⟩, []⟩
    let minusZero : ScoredMember := ⟨⟨0x8000000000000000⟩, [2]⟩
    let nan : ScoredMember := ⟨⟨0x7ff8000000000000⟩, []⟩
    let minusNan : ScoredMember := ⟨⟨0xfff8000000000000⟩, [3]⟩
    tiny.score.value < infinity.score.value ∧ order tiny infinity = .lt ∧
      order minusNan zero = .lt ∧ order zero minusZero ≠ .eq ∧
      Ranking.sort [infinity, nan, zero, tiny, minusNan, minusZero] =
        [minusNan, minusZero, zero, tiny, infinity, nan] ∧
      ∃ record, Ranking.decode record = .ok [minusZero, zero, infinity] ∧
        [minusZero, zero, infinity].Pairwise fun x y => order x y = .lt := by
  intro infinity tiny zero minusZero nan minusNan
  have hvalue : tiny.score.value < infinity.score.value :=
    (Score.lt_iff_value_lt.1 (by decide)).2.2
  have hread : ∃ record, Ranking.decode record = .ok [minusZero, zero, infinity] :=
    ⟨_, Ranking.decode_eq_ok_iff.2 ⟨by decide, rfl, by decide, by decide⟩⟩
  obtain ⟨-, -, -, hnumeric, hsort, -, hpairwise⟩ := order_total tiny infinity zero
  obtain ⟨-, -, htrans, -⟩ := order_total minusNan minusZero zero
  obtain ⟨hbits, -⟩ := order_total zero minusZero zero
  refine ⟨hvalue, hnumeric (by decide) (by decide) hvalue, htrans (by decide) (by decide),
    fun h => absurd (hbits.1 h).1 (by decide), ((hsort _ _).1 ⟨?_, by decide⟩).symm,
    hread.imp fun record h => ⟨h, hpairwise record _ h⟩⟩
  exact (List.isPerm_iff (α := ScoredMember)).1 (by decide)

end ScoredMember

end Keyspace
