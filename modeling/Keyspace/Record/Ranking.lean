import Keyspace.Record.Layout
import Keyspace.Score

/-!
# Rankings

A ranking is the content of a sorted set: scored members in increasing order, first by score and
then by member. `order` is that order; it is total on arbitrary bit patterns (`order_eq_eq_iff`,
`order_swap`, `lt_trans`). `upsert` gives a member its score and restores the order. `encode`
writes scored members as they come and `decode` reads only what is in strictly increasing order
and free of NaNs.
-/

namespace Keyspace

/-- A member with its score. -/
structure ScoredMember where
  score : Score
  member : Bytes
  deriving DecidableEq, Repr

namespace ScoredMember

/-! ## The order -/

/-- Scores decide by their total order, members break ties. -/
def order (a b : ScoredMember) : Ordering :=
  (compareOfLessAndEq a.score.rank b.score.rank).then (compareOfLessAndEq a.member b.member)

/-- `a` stands strictly before `b`. -/
instance : LT ScoredMember := ⟨fun a b => order a b = .lt⟩

instance (a b : ScoredMember) : Decidable (a < b) := inferInstanceAs (Decidable (order a b = .lt))

theorem lt_iff_order {a b : ScoredMember} : a < b ↔ order a b = .lt := Iff.rfl

theorem lt_iff {a b : ScoredMember} :
    a < b ↔ a.score.rank < b.score.rank ∨ a.score = b.score ∧ a.member < b.member := by
  rw [lt_iff_order, order, Ordering.then_eq_lt, compareOfLessAndEq_eq_lt, compareOfLessAndEq_eq_lt,
    compareOfLessAndEq_eq_eq]
  · constructor
    · exact Or.imp_right (And.imp_left Score.rank_injective)
    · exact Or.imp_right (And.imp_left (congrArg Score.rank))
  all_goals intros; omega

theorem lt_irrefl (a : ScoredMember) : ¬ a < a := by
  rw [lt_iff]
  rintro (h | ⟨_, h⟩)
  · omega
  · exact List.lt_irrefl _ h

/-- The order is transitive. -/
theorem lt_trans {a b c : ScoredMember} (h : a < b) (h' : b < c) : a < c := by
  rw [lt_iff] at *
  rcases h with h | ⟨h, hm⟩ <;> rcases h' with h' | ⟨h', hm'⟩
  · exact .inl (Int.lt_trans h h')
  · exact .inl (h' ▸ h)
  · exact .inl (h ▸ h')
  · exact .inr ⟨h.trans h', List.lt_trans hm hm'⟩

/-- Of two scored members one stands before the other, or they are the same. -/
theorem lt_trichotomy (a b : ScoredMember) : a < b ∨ a = b ∨ b < a := by
  simp only [lt_iff]
  rcases Int.lt_trichotomy a.score.rank b.score.rank with h | h | h
  · exact .inl (.inl h)
  · have hs := Score.rank_injective h
    by_cases h₁ : a.member < b.member
    · exact .inl (.inr ⟨hs, h₁⟩)
    · by_cases h₂ : b.member < a.member
      · exact .inr (.inr (.inr ⟨hs.symm, h₂⟩))
      · refine .inr (.inl ?_)
        have hm : a.member = b.member := Std.Trichotomous.trichotomous _ _ h₁ h₂
        cases a; cases b; simp_all
  · exact .inr (.inr (.inl h))

theorem order_eq_eq_iff {a b : ScoredMember} : order a b = .eq ↔ a = b := by
  rw [order, Ordering.then_eq_eq, compareOfLessAndEq_eq_eq, compareOfLessAndEq_eq_eq]
  · constructor
    · rintro ⟨h, h'⟩
      have := Score.rank_injective h
      cases a; cases b; simp_all
    · rintro rfl; exact ⟨rfl, rfl⟩
  · exact fun x => List.le_refl x
  · exact List.not_le
  · exact fun x => Int.le_refl x
  · exact Int.not_le

theorem order_eq_gt_iff {a b : ScoredMember} : order a b = .gt ↔ b < a := by
  rcases lt_trichotomy a b with h | h | h
  · rw [lt_iff_order] at h
    rw [h]
    exact ⟨nofun, fun h' => absurd (lt_trans (lt_iff_order.2 h) h') (lt_irrefl a)⟩
  · rw [order_eq_eq_iff.2 h, h]
    exact ⟨nofun, fun h' => absurd h' (lt_irrefl b)⟩
  · refine ⟨fun _ => h, fun _ => ?_⟩
    cases ho : order a b with
    | lt => exact absurd (lt_trans h (lt_iff_order.2 ho)) (lt_irrefl b)
    | eq => rw [order_eq_eq_iff.1 ho] at h; exact absurd h (lt_irrefl b)
    | gt => rfl

/-- The order of two scored members is reversed when they change places. -/
theorem order_swap (a b : ScoredMember) : order b a = (order a b).swap := by
  cases h : order a b with
  | lt => exact order_eq_gt_iff.2 h
  | eq => exact order_eq_eq_iff.2 (order_eq_eq_iff.1 h).symm
  | gt => exact order_eq_gt_iff.1 h

end ScoredMember

namespace Ranking

open Layout

/-! ## Change -/

/-- The sorted list with `x` put before the first element that does not stand before it. -/
def place (x : ScoredMember) : List ScoredMember → List ScoredMember
  | [] => [x]
  | y :: l => if y < x then y :: place x l else x :: y :: l

/-- The scored members in increasing order. -/
def sort : List ScoredMember → List ScoredMember
  | [] => []
  | x :: l => place x (sort l)

/-- The list with the score of the first element for `member` replaced, if there is one. -/
def rescore (score : Score) (member : Bytes) : List ScoredMember → Option (List ScoredMember)
  | [] => none
  | x :: l =>
    if x.member = member then some (⟨score, member⟩ :: l)
    else (rescore score member l).map (x :: ·)

/-- Gives `member` its score and restores the order; the flag says that the member is new. -/
def upsert (score : Score) (member : Bytes) (l : List ScoredMember) : Bool × List ScoredMember :=
  match rescore score member l with
  | some l' => (false, sort l')
  | none => (true, sort (l ++ [⟨score, member⟩]))

/-! ## Writing and reading -/

/-- The scored members one after the other, each score before its member. -/
def writeAll : List ScoredMember → Except EncodeError Bytes
  | [] => .ok []
  | x :: l => do
    let b ← writeMember x.member
    let r ← writeAll l
    return BigEndian.ofNat 8 x.score.bits.toNat ++ b ++ r

/-- The record of scored members in the given order. -/
def encode (l : List ScoredMember) : Except EncodeError Bytes :=
  (writeAll l).map fun b => writeCount l.length ++ b

/-- The next score, which must be a number. -/
def readScore (total : Nat) (rest : Bytes) : Except DecodeError (Score × Bytes) := do
  let (n, rest) ← readNat total 8 rest
  let score : Score := ⟨UInt64.ofNat n⟩
  if score.isNaN then throw .invalidScore else return (score, rest)

/-- The element `x` may follow `previous`, if there is one. -/
def mayFollow (previous : Option ScoredMember) (x : ScoredMember) : Bool :=
  match previous with
  | none => true
  | some y => y < x

/-- The next `n` scored members, the first of which follows `previous`. -/
def readAll (total : Nat) :
    Option ScoredMember → Nat → Bytes → Except DecodeError (List ScoredMember × Bytes)
  | _, 0, rest => .ok ([], rest)
  | previous, n + 1, rest => do
    let (score, rest) ← readScore total rest
    let (member, rest) ← readMember total rest
    if mayFollow previous ⟨score, member⟩ then
      let (l, rest) ← readAll total (some ⟨score, member⟩) n rest
      return (⟨score, member⟩ :: l, rest)
    else throw .unsorted

/-- The ranking that a record holds. -/
def decode (b : Bytes) : Except DecodeError (List ScoredMember) := do
  let (n, rest) ← readCount b
  let (l, rest) ← readAll b.length none n rest
  finish rest
  return l

end Ranking

end Keyspace
