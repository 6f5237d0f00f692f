import Keyspace.Position
import Keyspace.Proofs.Record.RoundTrip
import Keyspace.Value.MemberSet
import Mathlib.Algebra.Group.Nat.Defs

/-!
# Records as values

`Value.Holds` says that a value is the record of some elements, of which an empty list has none.
What is read from such a value are the elements (`Value.Holds.read`). To write elements of which one
is new comes down to the check that this one is not too long (`Members.agree_put`,
`Ranking.agree_put`): the first member that is too long is the one that writing refuses.
-/

namespace Keyspace

open Layout

/-- A member must not be too long for a record. -/
def checkMember (m : Bytes) : Except Error Unit :=
  if m.length ≤ maxMember then .ok () else .error (.valueTooLarge m.length maxMember)

theorem writeMember_eq_error {m : Bytes} (h : maxMember < m.length) :
    writeMember m = .error (.memberTooLarge m.length) := by
  rw [writeMember, memberLength, if_neg (Nat.not_le.2 h)]
  rfl

/-- The count can say a number by one greater than that of the elements with positions. -/
theorem succ_lt_of_le_longest {n : Nat} (h : n ≤ Position.longest) : n + 1 < 256 ^ countWidth := by
  unfold Position.longest at h
  unfold countWidth
  omega

namespace Value

variable {α : Type} {encode : List α → Except EncodeError Bytes}
  {decode : Bytes → Except DecodeError (List α)} {l : List α} {value : Option Bytes}

/-- The value is the record of the elements, or there is no value and there are no elements. -/
def Holds (decode : Bytes → Except DecodeError (List α)) (l : List α) : Option Bytes → Prop
  | none => l = []
  | some b => l ≠ [] ∧ decode b = .ok l

namespace Holds

theorem read (h : Holds decode l value) (access : Access) (key : Bytes) :
    Value.read decode access key value = .ok (value.map fun _ => l) := by
  cases value with
  | none => rfl
  | some b => simp only [Value.read, h.2, Option.map_some]

theorem getD (h : Holds decode l value) : (value.map fun _ => l).getD [] = l := by
  cases value with
  | none => exact h.symm
  | some b => rfl

theorem isSome_iff (h : Holds decode l value) : value.isSome = true ↔ l ≠ [] := by
  cases value with
  | none => exact ⟨nofun, fun hl => absurd h hl⟩
  | some b => exact ⟨fun _ => h.1, fun _ => rfl⟩

end Holds

/-- To write elements of which `y` alone may have too long a member comes down to the check of this
member, if short members are written and the first long one is refused. -/
theorem agree_put_of_mem (member : α → Bytes) {y : α} (hy : y ∈ l)
    (hother : ∀ x ∈ l, x = y ∨ (member x).length ≤ maxMember)
    (hshort : (∀ x ∈ l, (member x).length ≤ maxMember) → ∃ b, encode l = .ok b ∧ decode b = .ok l)
    (hlong : ∀ n, (∃ x ∈ l, maxMember < (member x).length) →
      (∀ x ∈ l, maxMember < (member x).length → (member x).length = n) →
      encode l = .error (.memberTooLarge n)) :
    Agree (fun w _ => ∃ b, w = .put b ∧ decode b = .ok l) (put (encode l))
      (checkMember (member y)) := by
  unfold checkMember
  split
  · rename_i h
    obtain ⟨b, hb, hd⟩ := hshort fun x hx => (hother x hx).elim (fun he => he ▸ h) id
    rw [hb]
    exact .ok ⟨b, rfl, hd⟩
  · rename_i h
    have hn : ∀ x ∈ l, maxMember < (member x).length → (member x).length = (member y).length := by
      intro x hx hgt
      rcases hother x hx with rfl | hle
      · rfl
      · omega
    rw [hlong _ ⟨y, hy, Nat.lt_of_not_le h⟩ hn]
    exact .error _

end Value

/-! ## Member sequences -/

namespace Members

variable {ms : List Bytes} {b : Bytes}

theorem short_of_decode (h : decode b = .ok ms) {m : Bytes} (hm : m ∈ ms) :
    m.length ≤ maxMember :=
  exists_encode_iff.1 ⟨b, (decode_eq_ok_iff (length_lt_of_decode h)).1 h⟩ m hm

theorem short_of_holds {value : Option Bytes} (h : Value.Holds decode ms value) {m : Bytes}
    (hm : m ∈ ms) : m.length ≤ maxMember := by
  cases value with
  | none =>
    obtain rfl : ms = [] := h
    cases hm
  | some b => exact short_of_decode h.2 hm

theorem exists_record (hlen : ms.length < 256 ^ countWidth)
    (hshort : ∀ m ∈ ms, m.length ≤ maxMember) : ∃ b, encode ms = .ok b ∧ decode b = .ok ms := by
  obtain ⟨b, hb⟩ := exists_encode_iff.2 hshort
  exact ⟨b, hb, (decode_eq_ok_iff hlen).2 hb⟩

theorem writeAll_eq_error {n : Nat} (hlong : ∃ m ∈ ms, maxMember < m.length)
    (hn : ∀ m ∈ ms, maxMember < m.length → m.length = n) :
    writeAll ms = .error (.memberTooLarge n) := by
  induction ms with
  | nil => simp at hlong
  | cons m ms ih =>
    rw [writeAll]
    obtain ⟨hm, hms⟩ := List.forall_mem_cons.1 hn
    by_cases h : maxMember < m.length
    · rw [writeMember_eq_error h, hm h]
      rfl
    · obtain ⟨w, hw⟩ := exists_writeMember_iff.2 (Nat.le_of_not_lt h)
      have hrest : ∃ m ∈ ms, maxMember < m.length := by simpa [h] using hlong
      rw [hw, ih hrest hms]
      rfl

/-- To write members of which `v` alone may be too long comes down to the check of `v`. -/
theorem agree_put {v : Bytes} (hv : v ∈ ms) (hother : ∀ m ∈ ms, m = v ∨ m.length ≤ maxMember)
    (hlen : ms.length < 256 ^ countWidth) :
    Agree (fun w _ => ∃ b, w = .put b ∧ decode b = .ok ms) (Value.put (encode ms))
      (checkMember v) := by
  refine Value.agree_put_of_mem id hv hother (exists_record hlen) fun n hlong hn => ?_
  rw [encode, writeAll_eq_error hlong hn]
  rfl

/-- The value of a set holds a sequence without repetitions. -/
theorem holds_distinct_iff {value : Option Bytes} :
    Value.Holds decodeDistinct ms value ↔ Value.Holds decode ms value ∧ ms.Nodup := by
  cases value with
  | none =>
    refine ⟨fun h => ⟨h, ?_⟩, And.left⟩
    obtain rfl : ms = [] := h
    exact .nil
  | some b => exact (and_congr_right fun _ => decodeDistinct_eq_ok_iff).trans and_assoc.symm

end Members

namespace MemberSet

variable {l : List Bytes} {value : Option Bytes}

/-- A sequence is a set if nothing occurs in it twice. -/
theorem read_of_holds (h : Value.Holds Members.decode l value) (access : Access) (key : Bytes) :
    read access key value = if l.Nodup then .ok (value.map fun _ => l) else .error .wrongType := by
  cases value with
  | none =>
    obtain rfl : l = [] := h
    rfl
  | some b =>
    simp only [read, Value.read, Members.decodeDistinct, h.2, bind, Except.bind]
    by_cases hl : l.Nodup
    · simp only [hl, if_true]
      rfl
    · simp only [hl, if_false]
      cases access <;> rfl

end MemberSet

/-! ## Rankings -/

namespace Ranking

variable {l : List ScoredMember} {b : Bytes}

theorem short_of_decode (h : decode b = .ok l) {x : ScoredMember} (hx : x ∈ l) :
    x.member.length ≤ maxMember :=
  exists_encode_iff.1 ⟨b, (decode_eq_ok_iff.1 h).2.1⟩ x hx

theorem short_of_holds {value : Option Bytes} (h : Value.Holds decode l value) {x : ScoredMember}
    (hx : x ∈ l) : x.member.length ≤ maxMember := by
  cases value with
  | none =>
    obtain rfl : l = [] := h
    cases hx
  | some b => exact short_of_decode h.2 hx

theorem isNaN_of_holds {value : Option Bytes} (h : Value.Holds decode l value) {x : ScoredMember}
    (hx : x ∈ l) : x.score.isNaN = false := by
  cases value with
  | none =>
    obtain rfl : l = [] := h
    cases hx
  | some b => exact (decode_eq_ok_iff.1 h.2).2.2.1 x hx

theorem exists_record (hlen : l.length < 256 ^ countWidth)
    (hnum : ∀ x ∈ l, x.score.isNaN = false) (hinc : l.IsChain (· < ·))
    (hshort : ∀ x ∈ l, x.member.length ≤ maxMember) :
    ∃ b, encode l = .ok b ∧ decode b = .ok l := by
  obtain ⟨b, hb⟩ := exists_encode_iff.2 hshort
  exact ⟨b, hb, decode_eq_ok_iff.2 ⟨hlen, hb, hnum, hinc⟩⟩

theorem writeAll_eq_error {n : Nat} (hlong : ∃ x ∈ l, maxMember < x.member.length)
    (hn : ∀ x ∈ l, maxMember < x.member.length → x.member.length = n) :
    writeAll l = .error (.memberTooLarge n) := by
  induction l with
  | nil => simp at hlong
  | cons x l ih =>
    rw [writeAll]
    obtain ⟨hx, hl⟩ := List.forall_mem_cons.1 hn
    by_cases h : maxMember < x.member.length
    · rw [writeMember_eq_error h, hx h]
      rfl
    · obtain ⟨w, hw⟩ := exists_writeMember_iff.2 (Nat.le_of_not_lt h)
      have hrest : ∃ x ∈ l, maxMember < x.member.length := by simpa [h] using hlong
      rw [hw, ih hrest hl]
      rfl

/-- To write numbers in increasing order, of which `y` alone may have too long a member, comes down
to the check of this member. -/
theorem agree_put {y : ScoredMember} (hy : y ∈ l)
    (hother : ∀ x ∈ l, x = y ∨ x.member.length ≤ maxMember) (hlen : l.length < 256 ^ countWidth)
    (hnum : ∀ x ∈ l, x.score.isNaN = false) (hinc : l.IsChain (· < ·)) :
    Agree (fun w _ => ∃ b, w = .put b ∧ decode b = .ok l) (Value.put (encode l))
      (checkMember y.member) := by
  refine Value.agree_put_of_mem (·.member) hy hother (exists_record hlen hnum hinc)
    fun n hlong hn => ?_
  rw [encode, writeAll_eq_error hlong hn]
  rfl

end Ranking

end Keyspace
