import Keyspace.Position

/-!
# Positions without bounds

`Position.index?` and `Position.between` say what positions mean for a sequence of any length: the
index of an element, and the elements whose indices lie between two places. As long as lengths are
signed 64-bit numbers, `Position.resolve` and `Position.slice` find just these (`resolve_eq_index?`,
`slice_eq_between`).
-/

namespace Keyspace.Position

/-- The index that a position means, if the sequence has an element there. -/
def index? (n : Nat) (i : Int) : Option Nat :=
  if 0 ≤ absolute n i ∧ absolute n i < n then some (absolute n i).toNat else none

/-- The elements whose places lie from the one of `start` to the one of `stop`. -/
def between {α : Type} (l : List α) (start stop : Int) : List α :=
  (l.zipIdx.filter fun p =>
    decide (absolute l.length start ≤ p.2 ∧ (p.2 : Int) ≤ absolute l.length stop)).map (·.1)

theorem resolve_eq_index? {n : Nat} (h : n ≤ longest) (i : Int) : resolve n i = index? n i := by
  simp only [resolve, index?, h, true_and]

/-- The elements with an index from `a` to `b`, counted from `k`. -/
theorem map_filter_zipIdx {α : Type} (l : List α) (a b k : Nat) :
    ((l.zipIdx k).filter fun p => decide (a ≤ p.2 ∧ p.2 ≤ b)).map (·.1) =
      (l.take (b + 1 - k)).drop (a - k) := by
  induction l generalizing k with
  | nil => simp
  | cons x l ih =>
    rw [List.zipIdx_cons]
    by_cases hx : a ≤ k ∧ k ≤ b
    · rw [List.filter_cons_of_pos (by simpa using hx), List.map_cons, ih]
      obtain ⟨ha, hb⟩ := hx
      have hb' : b + 1 - k = b + 1 - (k + 1) + 1 := by omega
      have ha' : a - k = 0 := by omega
      have ha'' : a - (k + 1) = 0 := by omega
      rw [hb', ha', ha'', List.take_succ_cons, List.drop_zero, List.drop_zero]
    · rw [List.filter_cons_of_neg (by simpa using hx), ih]
      rcases Nat.lt_or_ge b k with hb | hb
      · have h₁ : b + 1 - k = 0 := by omega
        have h₂ : b + 1 - (k + 1) = 0 := by omega
        simp [h₁, h₂]
      · have h₁ : b + 1 - k = b + 1 - (k + 1) + 1 := by omega
        have h₂ : a - k = a - (k + 1) + 1 := by omega
        rw [h₁, h₂, List.take_succ_cons, List.drop_succ_cons]

/-- Places that mean the indices from `a` to `b` cut these elements out. -/
theorem between_eq {α : Type} {l : List α} {start stop : Int} {a b : Nat}
    (h : ∀ k < l.length,
      (absolute l.length start ≤ k ∧ (k : Int) ≤ absolute l.length stop ↔ a ≤ k ∧ k ≤ b)) :
    between l start stop = (l.take (b + 1)).drop a := by
  have hcut := map_filter_zipIdx l a b 0
  rw [Nat.sub_zero, Nat.sub_zero] at hcut
  rw [between, ← hcut]
  congr 1
  refine List.filter_congr fun p hp => ?_
  simp only [h p.2 (by simpa using List.snd_lt_add_of_mem_zipIdx hp)]

/-- From the first element to the last one there are all. -/
theorem between_all {α : Type} (l : List α) : between l 0 (-1) = l := by
  have hall : between l 0 (-1) = (l.take (l.length - 1 + 1)).drop 0 := by
    refine between_eq fun k hk => ?_
    simp only [absolute]
    omega
  rw [hall, List.drop_zero, List.take_of_length_le (by omega)]

theorem slice_eq_between {α : Type} {l : List α} (h : l.length ≤ longest) (start stop : Int) :
    slice l start stop = between l start stop := by
  unfold slice
  cases hclamp : clamp l.length start stop with
  | none =>
    -- no index lies between the places, as none lies from one to zero
    have hempty : between l start stop = (l.take (0 + 1)).drop 1 := by
      refine between_eq fun k hk => ⟨fun hplace => ?_, fun hk' => by omega⟩
      have hsome : clamp l.length start stop = some ((max (absolute l.length start) 0).toNat,
          (min (absolute l.length stop) (l.length - 1)).toNat) :=
        clamp_eq_some_iff.2 ⟨h, by omega, by omega, by omega⟩
      rw [hclamp] at hsome
      cases hsome
    rw [hempty]
    exact (List.drop_eq_nil_of_le (List.length_take_le _ _)).symm
  | some p =>
    obtain ⟨a, b⟩ := p
    obtain ⟨-, hab, ha, hb⟩ := clamp_eq_some_iff.1 hclamp
    exact (between_eq fun k hk => by omega).symm

/-- The part from one index to just before another one. -/
theorem slice_eq_drop {α : Type} {l : List α} {a m : Nat} (hlen : l.length ≤ longest)
    (ham : a < m) (hm : m ≤ l.length) : slice l a (m - 1) = (l.take m).drop a := by
  have hclamp : clamp l.length a (m - 1) = some (a, m - 1) := by
    refine clamp_eq_some_iff.2 ⟨hlen, by omega, ?_, ?_⟩ <;> simp only [absolute] <;> omega
  have hlast : m - 1 + 1 = m := by omega
  rw [slice, hclamp]
  dsimp only
  rw [hlast]

/-- All of a sequence. -/
theorem slice_all {α : Type} {l : List α} (hlen : l.length ≤ longest) :
    slice l 0 (-1) = l := by
  rw [slice_eq_between hlen, between_all]

end Keyspace.Position
