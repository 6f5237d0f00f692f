import Keyspace.Proofs.Kind.Spans
import Keyspace.Proofs.Store.Rescoring

/-!
# Scores and ranks

A sorted set is ranked by the total order of its scores, but members are counted by the numbers
that the scores are: `-0` and `+0` are one number with two places in the order. On numbers the
total order refines the other one (`Score.le_of_rank_le`), so what lies below a bound is the
beginning of a ranking, and what lies between two bounds is what one beginning has more than
another (`filter_initial`): the part between two ranks (`Ranking.counted_eq`).
`SortedSet.zcount_agrees_with_ranks` says what this means for the commands.
-/

namespace Keyspace

/-! ## Numbers -/

namespace Score

/-- The number lies between the bounds, both included. -/
def within (min max s : Score) : Bool := min.le s && s.le max

/-- The bits write the same number, as those of the two zeros do. -/
def Same (a b : Score) : Prop := a.le b = true ∧ b.le a = true

instance (a b : Score) : Decidable (a.Same b) :=
  inferInstanceAs (Decidable (a.le b = true ∧ b.le a = true))

/-- Below all other numbers. -/
def negInf : Score := ⟨0xfff0000000000000⟩

/-- Above all other numbers. -/
def posInf : Score := ⟨0x7ff0000000000000⟩

variable {a b c : Score}

theorem le_iff : a.le b = true ↔ a.isNaN = false ∧ b.isNaN = false ∧ a.signed ≤ b.signed := by
  simp only [le, Bool.and_eq_true, Bool.not_eq_true', decide_eq_true_eq, and_assoc]

theorem le_trans (h : a.le b = true) (h' : b.le c = true) : a.le c = true := by
  obtain ⟨ha, -, hab⟩ := le_iff.1 h
  obtain ⟨-, hc, hbc⟩ := le_iff.1 h'
  exact le_iff.2 ⟨ha, hc, Int.le_trans hab hbc⟩

theorem same_self (h : a.isNaN = false) : a.Same a :=
  ⟨le_iff.2 ⟨h, h, Int.le_refl _⟩, le_iff.2 ⟨h, h, Int.le_refl _⟩⟩

theorem not_le_of_lt (h : b.lt a = true) : a.le b = false := by
  rw [Bool.eq_false_iff, Ne, le_iff]
  rintro ⟨-, -, hle⟩
  simp only [lt, Bool.and_eq_true, decide_eq_true_eq] at h
  omega

/-- The total order refines that of the numbers. -/
theorem le_of_rank_le (ha : a.isNaN = false) (hb : b.isNaN = false) (h : a.rank ≤ b.rank) :
    a.le b = true := by
  refine le_iff.2 ⟨ha, hb, Int.not_lt.1 fun hlt => ?_⟩
  have hrank : b.rank < a.rank := rank_lt_of_lt (by simp [lt, ha, hb, hlt])
  omega

theorem within_eq_false_of_lt {s : Score} (h : b.lt a = true) : within a b s = false := by
  rw [Bool.eq_false_iff, within, Ne, Bool.and_eq_true]
  rintro ⟨hmin, hmax⟩
  have hle := le_trans hmin hmax
  rw [not_le_of_lt h] at hle
  cases hle

theorem within_eq_false_of_isNaN {s : Score} (h : a.isNaN = true ∨ b.isNaN = true) :
    within a b s = false := by
  rcases h with h | h <;> simp [within, le, h]

/-- Between the infinities lie all numbers. -/
theorem within_inf {s : Score} (h : s.isNaN = false) : within negInf posInf s = true := by
  have hmagnitude : s.magnitude ≤ infiniteMagnitude := by simpa [isNaN] using h
  have hneg : negInf.signed = -(infiniteMagnitude : Int) := by decide
  have hpos : posInf.signed = infiniteMagnitude := by decide
  have hsigned : -(infiniteMagnitude : Int) ≤ s.signed ∧ s.signed ≤ infiniteMagnitude := by
    unfold signed
    split <;> omega
  rw [within, Bool.and_eq_true, le_iff, le_iff, hneg, hpos]
  exact ⟨⟨by decide, h, hsigned.1⟩, h, by decide, hsigned.2⟩

/-- Only the numbers decide what lies between what. -/
theorem within_congr {a' b' c' : Score} (ha : a.Same a') (hb : b.Same b') (hc : c.Same c') :
    within a b c = within a' b' c' := by
  rw [Bool.eq_iff_iff, within, within, Bool.and_eq_true, Bool.and_eq_true]
  constructor
  · rintro ⟨hac, hcb⟩
    exact ⟨le_trans ha.2 (le_trans hac hc.1), le_trans hc.2 (le_trans hcb hb.1)⟩
  · rintro ⟨hac, hcb⟩
    exact ⟨le_trans ha.1 (le_trans hac hc.2), le_trans hc.1 (le_trans hcb hb.2)⟩

end Score

/-! ## Beginnings of a list -/

section Initial

variable {α : Type} {l : List α} {p q : α → Bool}

/-- The elements with the property come before those without. -/
def Initial (p : α → Bool) (l : List α) : Prop := l.Pairwise fun x y => p y = true → p x = true

theorem Initial.eq_false {x : α} (h : Initial p (x :: l)) (hx : p x = false) :
    ∀ y ∈ l, p y = false := by
  intro y hy
  rw [Bool.eq_false_iff]
  exact fun hpy => absurd ((List.pairwise_cons.1 h).1 y hy hpy) (by rw [hx]; nofun)

/-- What has one of two initial properties and not the other one is a part of the list. -/
theorem filter_initial (hp : Initial p l) (hq : Initial q l) :
    (l.filter fun x => !p x && q x) = (l.take (l.countP q)).drop (l.countP p) := by
  induction l with
  | nil => rfl
  | cons x l ih =>
    have htail := ih (List.pairwise_cons.1 hp).2 (List.pairwise_cons.1 hq).2
    cases hqx : q x with
    | false =>
      have hnone := hq.eq_false hqx
      have hcount : (x :: l).countP q = 0 := by
        simpa [List.countP_eq_zero, hqx] using hnone
      rw [hcount, List.take_zero, List.drop_nil, List.filter_eq_nil_iff]
      simpa [hqx] using fun y hy _ => hnone y hy
    | true =>
      cases hpx : p x with
      | true =>
        rw [List.filter_cons_of_neg (by simp [hpx]), htail, List.countP_cons_of_pos hqx,
          List.countP_cons_of_pos hpx, List.take_succ_cons, List.drop_succ_cons]
      | false =>
        -- the part begins here: nothing that follows has the property `p`
        have hcount : l.countP p = 0 := by
          simpa [List.countP_eq_zero] using hp.eq_false hpx
        rw [List.filter_cons_of_pos (by simp [hpx, hqx]), htail, List.countP_cons_of_pos hqx,
          List.countP_cons_of_neg (by simp [hpx]), hcount, List.take_succ_cons,
          List.drop_zero, List.drop_zero]

end Initial

/-! ## Rankings -/

namespace Ranking

variable {l : List ScoredMember}

/-- The elements with a score between the bounds. -/
def counted (min max : Score) (l : List ScoredMember) : List ScoredMember :=
  l.filter fun x => Score.within min max x.score

/-- Numbers do not fall along a ranking. -/
theorem pairwise_le (hnum : ∀ x ∈ l, x.score.isNaN = false) (hinc : l.IsChain (· < ·)) :
    l.Pairwise fun x y => x.score.le y.score = true := by
  refine (List.isChain_iff_pairwise.1 hinc).imp_of_mem fun hx hy hlt => ?_
  refine Score.le_of_rank_le (hnum _ hx) (hnum _ hy) ?_
  rcases ScoredMember.lt_iff.1 hlt with h | ⟨h, -⟩
  · exact Int.le_of_lt h
  · rw [h]

/-- The elements between two bounds are those from one rank to another. -/
theorem counted_eq {b : Bytes} (h : decode b = .ok l) (min max : Score) :
    counted min max l = (l.take (l.countP fun x => x.score.le max)).drop
      (l.countP fun x => !min.le x.score) := by
  obtain ⟨-, -, hnum, hinc⟩ := decode_eq_ok_iff.1 h
  have hle := pairwise_le hnum hinc
  have hbelow : Initial (fun x : ScoredMember => !min.le x.score) l := by
    refine hle.imp fun {x y} hxy hy => ?_
    rw [Bool.not_eq_true', Bool.eq_false_iff] at hy ⊢
    exact fun hx => hy (Score.le_trans hx hxy)
  have hupto : Initial (fun x : ScoredMember => x.score.le max) l :=
    hle.imp fun hxy hy => Score.le_trans hxy hy
  rw [← filter_initial hbelow hupto]
  simp only [counted, Score.within, Bool.not_not]

/-- The elements between two bounds are the part from some rank on. -/
theorem exists_counted_eq_slice {b : Bytes} (h : decode b = .ok l)
    (hlen : l.length ≤ Position.longest) (min max : Score) :
    ∃ r, r + (counted min max l).length ≤ l.length ∧
      (0 < (counted min max l).length →
        Position.slice l r (r + (counted min max l).length - 1) = counted min max l) := by
  have hcounted := counted_eq h min max
  have hbelow := l.countP_le_length (p := fun x => !min.le x.score)
  have hupto := l.countP_le_length (p := fun x => x.score.le max)
  generalize l.countP (fun x => !min.le x.score) = a at hcounted hbelow
  generalize l.countP (fun x => x.score.le max) = m at hcounted hupto
  have hlength : (counted min max l).length = m - a := by
    rw [hcounted, List.length_drop, List.length_take_of_le hupto]
  refine ⟨a, by omega, fun hpos => ?_⟩
  have hstop : (a : Int) + (counted min max l).length - 1 = m - 1 := by omega
  rw [hstop, Position.slice_eq_drop hlen (by omega) hupto, ← hcounted]

theorem counted_congr {min min' max max' : Score} (hnum : ∀ x ∈ l, x.score.isNaN = false)
    (hmin : min.Same min') (hmax : max.Same max') : counted min max l = counted min' max' l :=
  List.filter_congr fun x hx => Score.within_congr hmin hmax (Score.same_self (hnum x hx))

theorem counted_inf (hnum : ∀ x ∈ l, x.score.isNaN = false) : counted .negInf .posInf l = l :=
  List.filter_eq_self.2 fun x hx => Score.within_inf (hnum x hx)

theorem counted_of_isNaN {min max : Score} (h : min.isNaN = true ∨ max.isNaN = true) :
    counted min max l = [] :=
  List.filter_eq_nil_iff.2 fun x _ => by simp [Score.within_eq_false_of_isNaN h]

end Ranking

/-! ## Commands on a ranking -/

namespace Store.Reaches

variable {s : Store} {c : Call} {key b : Bytes} {l : List ScoredMember}

theorem zrangeWithScores_eq (h : s.Reaches c key)
    (hvalue : (s.storage.slot c.db key).value = some b) (hread : Ranking.decode b = .ok l)
    (start stop : Int) : s.answer c key (.query (.zrangeWithScores start stop)) =
      .ok (.ranked (Position.slice l start stop)) := by
  have hanswer := h.answer_query (q := .zrangeWithScores start stop) rfl nofun
  rw [Store.answer, hanswer, hvalue, SortedSet.range_of_decode hread]

/-- The members are counted, unless the bounds alone say that there is none. -/
theorem zcount_eq (h : s.Reaches c key)
    (hvalue : (s.storage.slot c.db key).value = some b) (hread : Ranking.decode b = .ok l)
    (min max : Score) : s.answer c key (.query (.zcount min max)) =
      .ok (.count (Ranking.counted min max l).length) := by
  cases hlt : max.lt min with
  | true =>
    have hshort : (KeyCommand.query (.zcount min max)).shortcut = some (.ok (.number 0)) :=
      if_pos hlt
    have hnone : Ranking.counted min max l = [] :=
      List.filter_eq_nil_iff.2 fun x _ => by simp [Score.within_eq_false_of_lt hlt]
    rw [Store.answer, perform_of_shortcut h.isKey hshort, hnone]
    rfl
  | false =>
    have hshort : (KeyCommand.query (.zcount min max)).shortcut = none := if_neg (by simp [hlt])
    have hanswer := h.answer_query hshort (by simp)
    rw [Store.answer, hanswer, hvalue, SortedSet.count_of_decode hread, Ranking.counted,
      ← List.countP_eq_length_filter]
    rfl

end Store.Reaches

namespace SortedSet

open Ranking

/-- **Members are counted by consecutive ranks.** In a live sorted set the members between two
bounds are those from one rank to another: a count is the number of the elements with a score
between the bounds, and the part of the ranking that begins at some rank and has as many elements
consists of just these. Bounds and scores count by their numbers, so either zero does for the other
one. Between the infinities lie all members, and there is none on either side of a bound that is no
number. As that of any byte string in memory, the length of the record is a number of 64 bits with a
sign; otherwise there would be no ranks. -/
theorem zcount_agrees_with_ranks {s : Store} {c : Call} {key b : Bytes} {l : List ScoredMember}
    (h : s.Reaches c key) (hvalue : (s.storage.slot c.db key).value = some b)
    (hread : decode b = .ok l) (hlen : b.length ≤ Position.longest) :
    let ask (q : Query) := s.answer c key (.query q)
    ask (.zrangeWithScores 0 (-1)) = .ok (.ranked l) ∧
    (∀ min max, min.le max = true → ∃ r n : Nat,
      ask (.zcount min max) = .ok (.count n) ∧ n = (counted min max l).length ∧ r + n ≤ l.length ∧
        (0 < n → ask (.zrangeWithScores r (r + n - 1)) = .ok (.ranked (counted min max l)))) ∧
    (∀ min min' max max', min.Same min' → max.Same max' →
      counted min max l = counted min' max' l ∧ ask (.zcount min max) = ask (.zcount min' max') ∧
        ∀ x ∈ l, ∀ y ∈ l, x.score.Same y.score →
          (x ∈ counted min max l ↔ y ∈ counted min' max' l)) ∧
    ask (.zcount .negInf .posInf) = ask .zcard ∧ ask .zcard = .ok (.count l.length) ∧
    ∀ min max, min.isNaN = true ∨ max.isNaN = true → ask (.zcount min max) = .ok (.count 0) := by
  intro ask
  have hshort : l.length ≤ Position.longest := (length_le_of_decode hread).trans hlen
  have hnum := (decode_eq_ok_iff.1 hread).2.2.1
  have hcount : ∀ min max, ask (.zcount min max) = .ok (.count (counted min max l).length) :=
    h.zcount_eq hvalue hread
  have hrange : ∀ start stop, ask (.zrangeWithScores start stop) =
      .ok (.ranked (Position.slice l start stop)) := h.zrangeWithScores_eq hvalue hread
  have hcard : ask .zcard = .ok (.count l.length) := h.zcard_eq hvalue hread
  refine ⟨?_, fun min max _ => ?_, fun min min' max max' hmin hmax => ⟨?_, ?_, ?_⟩, ?_,
    hcard, fun min max hnan => ?_⟩
  · rw [hrange, Position.slice_all hshort]
  · obtain ⟨r, hr, hslice⟩ := exists_counted_eq_slice hread hshort min max
    refine ⟨r, _, hcount min max, rfl, hr, fun hpos => ?_⟩
    rw [hrange, hslice hpos]
  · exact counted_congr hnum hmin hmax
  · rw [hcount, hcount, counted_congr hnum hmin hmax]
  · intro x hx y hy hxy
    simp only [counted, List.mem_filter, hx, hy, true_and, Score.within_congr hmin hmax hxy]
  · rw [hcount, hcard, counted_inf hnum]
  · rw [hcount, counted_of_isNaN hnan]
    rfl

/-- The record of `a` at `-0`, `b` at `+0` and `c` at one. -/
def zerosRecord : Bytes :=
  [0, 0, 0, 0, 0, 0, 0, 3,
    0x80, 0, 0, 0, 0, 0, 0, 0, 0, 0, 0, 1, 97,
    0, 0, 0, 0, 0, 0, 0, 0, 0, 0, 0, 1, 98,
    0x3f, 0xf0, 0, 0, 0, 0, 0, 0, 0, 0, 0, 1, 99]

/-- Two members at the two zeros and one above them. From `+0` to `-0` there are the first two. -/
theorem zcount_agrees_with_ranks_zeros :
    let zero : Score := ⟨0⟩
    let negZero : Score := ⟨0x8000000000000000⟩
    let l : List ScoredMember := [⟨negZero, [97]⟩, ⟨zero, [98]⟩, ⟨.one, [99]⟩]
    let s := Store.holding zerosRecord
    let c : Call := .alone 0 ⟨1000, 0⟩ .none
    let ask (q : Query) := s.answer c [122] (.query q)
    s.Reaches c [122] ∧ decode zerosRecord = .ok l ∧ zero.Same negZero ∧
      negZero.rank < zero.rank ∧ ask (.zcount zero negZero) = .ok (.count 2) ∧
      counted zero negZero l = [⟨negZero, [97]⟩, ⟨zero, [98]⟩] ∧
      ask (.zcount .negInf .posInf) = .ok (.count 3) ∧
      ask (.zcount zero ⟨0x7ff8000000000000⟩) = .ok (.count 0) := by
  intro zero negZero l s c ask
  have hslot : s.storage.slot c.db [122] = ⟨some zerosRecord, none⟩ :=
    Storage.slot_setSlot_self _ _ _ _
  have hreaches : s.Reaches c [122] := ⟨rfl, by rfl, rfl, by rw [hslot]; rfl, by rw [hslot]; rfl⟩
  have hread : decode zerosRecord = .ok l := by decide +kernel
  obtain ⟨-, hranks, -, hall, hcard, hnan⟩ :=
    zcount_agrees_with_ranks hreaches (by rw [hslot]) hread (by decide)
  obtain ⟨r, n, hcount, hn, -, -⟩ := hranks zero negZero (by decide)
  have hcounted : counted zero negZero l = [⟨negZero, [97]⟩, ⟨zero, [98]⟩] := by decide
  rw [hcounted] at hn
  obtain rfl : n = 2 := hn
  exact ⟨hreaches, hread, by decide, by decide, hcount, hcounted, hall.trans hcard,
    hnan zero ⟨0x7ff8000000000000⟩ (.inr (by decide))⟩

end SortedSet

end Keyspace
