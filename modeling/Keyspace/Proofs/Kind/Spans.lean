import Keyspace.Proofs.Kind.Spelling
import Keyspace.Proofs.Position.Checked

/-!
# Elements and parts of sequences

`positions_resolve_exactly` says what comes of positions: an index or a pair of ends is found just
where the positions mean one, no number of 64 bits overflows on the way to it, and the commands
that read an element or a part of a list or of a sorted set never look beyond its bounds. The part
of a list from a position to itself is the element there (`Store.answer_lrange_self`).

That a stored sequence is short enough for its positions follows from the length of its record
(`Members.length_le_of_decode`, `Ranking.length_le_of_decode`), which is a number of 64 bits too.
-/

namespace Keyspace

open Layout

/-! ## The length of a stored sequence -/

theorem Members.length_le_of_decode {b : Bytes} {l : List Bytes} (h : decode b = .ok l) :
    l.length ≤ b.length := by
  obtain ⟨w, hw, rfl⟩ := encode_eq_ok_iff.1 ((decode_eq_ok_iff (length_lt_of_decode h)).1 h)
  have hlen := length_of_writeAll hw
  rw [show lengthWidth = 4 from rfl] at hlen
  rw [List.length_append]
  omega

theorem Ranking.length_le_of_decode {b : Bytes} {l : List ScoredMember} (h : decode b = .ok l) :
    l.length ≤ b.length := by
  obtain ⟨w, hw, rfl⟩ := encode_eq_ok_iff.1 (decode_eq_ok_iff.1 h).2.1
  have hlen := length_of_writeAll hw
  rw [show lengthWidth = 4 from rfl] at hlen
  rw [List.length_append]
  omega

/-! ## The part from a position to itself -/

/-- The part of a sequence from a position to itself is the element there, if there is one. -/
theorem Position.slice_self {α : Type} (l : List α) (i : Int) :
    slice l i i = ((resolve l.length i).bind (l[·]?)).toList := by
  cases hk : resolve l.length i with
  | none =>
    have hclamp : clamp l.length i i = none := by
      refine Option.eq_none_iff_forall_ne_some.2 fun p hp => ?_
      obtain ⟨hle, hab, ha, hb⟩ := clamp_eq_some_iff.1 hp
      have hsome : resolve l.length i = some p.1 :=
        resolve_eq_some_iff.2 ⟨hle, by omega, by omega⟩
      rw [hk] at hsome
      cases hsome
    rw [slice, hclamp]
    rfl
  | some k =>
    obtain ⟨hle, habsolute, hlt⟩ := resolve_eq_some_iff.1 hk
    have hclamp : clamp l.length i i = some (k, k) :=
      clamp_eq_some_iff.2 ⟨hle, Nat.le_refl k, by omega, by omega⟩
    have htake : (l.take k).length = k := List.length_take_of_le (Nat.le_of_lt hlt)
    rw [slice, hclamp, Option.bind_some]
    dsimp only
    rw [List.take_add_one, List.drop_left' htake]

namespace Reply

/-- The answer about one element as an answer about several. -/
def listed : Reply → Reply
  | .missing => .members []
  | .bytes b => .members [b]
  | r => r

theorem listed_bytes? (o : Option Bytes) : (bytes? o).listed = .members o.toList := by
  cases o <;> rfl

end Reply

theorem Query.answer_lrange_self (key : Bytes) (value : Option Bytes) (i : Int) :
    Query.answer key value (.lrange i i) = (Query.answer key value (.lindex i)).map .listed := by
  simp only [answer, Sequence.range, Sequence.element]
  cases Sequence.read .read key value with
  | error e => rfl
  | ok l =>
    simp only [bind, Except.bind, pure, Except.pure, Except.map, Reply.listed_bytes?,
      Position.slice_self]

/-- Whatever is stored, the part of a list from a position to itself is the element there. -/
theorem Store.answer_lrange_self (s : Store) (c : Call) (key : Bytes) (i : Int) :
    s.answer c key (.query (.lrange i i)) =
      (s.answer c key (.query (.lindex i))).map .listed := by
  cases hkey : checkKey key with
  | error e =>
    simp only [answer, perform, performOnKey, hkey]
    rfl
  | ok _ =>
    cases hgate : s.refusal c with
    | some e =>
      simp only [answer, perform, performOnKey, hkey, runOnKey, run_of_refusal hgate]
      rfl
    | none =>
      cases hpending : c.pendingInterruption with
      | some e =>
        rw [answer, answer, perform_of_pending hkey rfl hgate hpending,
          perform_of_pending hkey rfl hgate hpending]
        rfl
      | none =>
        rw [answer, answer, perform_onKey hkey rfl hgate hpending,
          perform_onKey hkey rfl hgate hpending]
        simp only [KeyCommand.run]
        cases (s.storage.slot c.db key).settle key c.clock.seconds with
        | error e => rfl
        | ok t =>
          simp only [bind, Except.bind, Query.answer_lrange_self]
          cases Query.answer key t.value (.lindex i) <;> cases c.lateInterruption <;> rfl

namespace Position

/-- **Positions are resolved exactly.** In a sequence that is not longer than a signed number of 64
bits can say, two positions are clamped to the first and the last of the indices whose places lie
between theirs, and to nothing just if there is none; a position is resolved to the index of its
place just if that lies in the sequence. The sums by which this is done are exact, none of them
overflows. So the commands that read an element or a part of a list, or a part of a sorted set, stay
within its bounds, however long a record it is stored in. Whatever is stored, the part of a list
from a position to itself is the element there, or empty if there is none. -/
theorem positions_resolve_exactly :
    (∀ (n : Nat) (start stop i : Int64), n ≤ longest →
      let between := span n start.toInt stop.toInt
      (∀ a b, clamp n start.toInt stop.toInt = some (a, b) ↔ a ≤ b ∧ between = Set.Icc a b) ∧
      (clamp n start.toInt stop.toInt = none ↔ between = ∅) ∧
      (∀ k, resolve n i.toInt = some k ↔ absolute n i.toInt = k ∧ k < n) ∧
      Checked.clamp n start stop = some (clamp n start.toInt stop.toInt) ∧
      Checked.resolve n i = some (resolve n i.toInt)) ∧
    (∀ (key b : Bytes) (start stop i : Int64), b.length ≤ longest →
      let answer (q : Query) := q.answer key (some b)
      (∀ l, Members.decode b = .ok l → ∃ part x,
        Checked.slice l start stop = some part ∧
        answer (.lrange start.toInt stop.toInt) = .ok (.members part) ∧
        Checked.element l i = some x ∧ answer (.lindex i.toInt) = .ok (.bytes? x)) ∧
      ∀ l, Ranking.decode b = .ok l → ∃ part,
        Checked.slice l start stop = some part ∧
        answer (.zrangeWithScores start.toInt stop.toInt) = .ok (.ranked part) ∧
        answer (.zrange start.toInt stop.toInt) = .ok (.members (part.map (·.member)))) ∧
    ∀ (s : Store) (c : Call) (key : Bytes) (i : Int),
      s.answer c key (.query (.lrange i i)) =
        (s.answer c key (.query (.lindex i))).map .listed := by
  refine ⟨fun n start stop i hn => ?_,
    fun key b start stop i hb => ⟨fun l hl => ?_, fun l hl => ?_⟩, Store.answer_lrange_self⟩
  · refine ⟨fun a b => clamp_eq_some_iff_span hn, clamp_eq_none_iff_span hn, fun k => ?_,
      Checked.clamp_eq hn start stop, Checked.resolve_eq hn i⟩
    rw [resolve_eq_some_iff]
    exact and_iff_right hn
  · have hlen : l.length ≤ longest := (Members.length_le_of_decode hl).trans hb
    have hread : Sequence.read .read key (some b) = .ok (some l) := by
      rw [Sequence.read, Value.read, hl]
    refine ⟨_, _, Checked.slice_eq hlen start stop, ?_, Checked.element_eq hlen i, ?_⟩
    · simp only [Query.answer, Sequence.range, hread]
      rfl
    · simp only [Query.answer, Sequence.element, hread]
      rfl
  · have hlen : l.length ≤ longest := (Ranking.length_le_of_decode hl).trans hb
    have hread : SortedSet.read .read key (some b) = .ok (some l) := by
      rw [SortedSet.read, Value.read, hl]
    refine ⟨_, Checked.slice_eq hlen start stop, ?_, ?_⟩ <;>
    · simp only [Query.answer, SortedSet.range, hread]
      rfl

/-- The longest sequence with the least and the greatest position, and a list of two elements with a
part that begins before the list. -/
theorem positions_resolve_exactly_extremes :
    let key : Bytes := [107]
    let l : List Bytes := [[97], [98]]
    let b : Bytes := [0, 0, 0, 0, 0, 0, 0, 2, 0, 0, 0, 1, 97, 0, 0, 0, 1, 98]
    let s : Store := .fresh {} (Storage.empty.setSlot 0 key ⟨some b, none⟩)
    let c : Call := .alone 0 ⟨1000, 0⟩ .none
    Checked.clamp longest Int64.minValue Int64.maxValue = some (some (0, longest - 1)) ∧
      span longest Int64.minValue.toInt Int64.maxValue.toInt = Set.Icc 0 (longest - 1) ∧
      Checked.resolve longest Int64.minValue = some none ∧
      Members.decode b = .ok l ∧
      Checked.slice l (-3) (-2) = some [[97]] ∧
      Query.answer key (some b) (.lrange (-3) (-2)) = .ok (.members [[97]]) ∧
      s.answer c key (.query (.lrange (-1) (-1))) = .ok (.members [[98]]) := by
  intro key l b s c
  obtain ⟨hwords, hstored, hself⟩ := positions_resolve_exactly
  obtain ⟨hsome, -, -, hclamp, hresolve⟩ :=
    hwords longest Int64.minValue Int64.maxValue Int64.minValue (Nat.le_refl _)
  have hends : clamp longest Int64.minValue.toInt Int64.maxValue.toInt = some (0, longest - 1) := by
    decide
  have hnone : resolve longest Int64.minValue.toInt = none := by decide
  have hencode : Members.encode [[97], [98]] = .ok b := by rfl
  have hdecode : Members.decode b = .ok l := (Members.decode_eq_ok_iff (by decide)).2 hencode
  obtain ⟨part, x, hslice, hrange, helement, hindex⟩ :=
    (hstored key b (-3) (-2) (-1) (by decide)).1 l hdecode
  have hpart : Checked.slice l (-3) (-2) = some [[97]] := by decide
  have hlast : Checked.element l (-1) = some (some [98]) := by decide
  obtain rfl := Option.some.inj (hslice.symm.trans hpart)
  obtain rfl := Option.some.inj (helement.symm.trans hlast)
  have hreaches : s.Reaches c key := ⟨rfl, by rfl, rfl, by rfl, by rfl⟩
  have hslot : s.storage.slot c.db key = ⟨some b, none⟩ := Storage.slot_setSlot_self _ _ _ _
  have hanswer : s.answer c key (.query (.lindex (-1))) = .ok (.bytes [98]) := by
    rw [Store.answer, hreaches.answer_query (q := .lindex (-1)) rfl (by simp), hslot]
    exact hindex
  refine ⟨hclamp.trans (by rw [hends]), ((hsome _ _).1 hends).2, hresolve.trans (by rw [hnone]),
    hdecode, hslice, hrange, ?_⟩
  rw [hself, hanswer]
  rfl

end Position

end Keyspace
