import Keyspace.Proofs.Answers
import Keyspace.Record.Counter
import Keyspace.Record.Members
import Keyspace.Record.Ranking
import Mathlib.Algebra.Group.Nat.Defs

/-!
# The shapes of records and the texts of counters

A record does not say of which kind it is, so a counter and a collection are told apart by nothing
but their bytes. The text of a counter has at most twenty bytes, from the minus sign up to the digit
nine (`Counter.isText_encode`). Such a byte is far from zero: what is read as a count or as the
length of a member is more than the text has room for, whereas what is read as a score is still a
number. So a text that is long enough for a count is `CutShort` whatever `Shape` it is read as
(`Shape.rejects_of_isText`).

In the other direction, the count of fewer than `2 ^ 56` elements begins with a zero byte, which
stands in no text of a counter (`Shape.Records.decode_counter`).
-/

namespace Keyspace

theorem BigEndian.le_toNat_cons (x : UInt8) (b : Bytes) :
    x.toNat * 256 ^ b.length ≤ toNat (x :: b) := Nat.le_add_right _ _

theorem BigEndian.toNat_cons_lt (x : UInt8) (b : Bytes) :
    toNat (x :: b) < (x.toNat + 1) * 256 ^ b.length := by
  have hb := toNat_lt b
  rw [Nat.add_mul, Nat.one_mul, toNat]
  omega

/-! ## Readings that are cut short -/

namespace Layout

variable {α β : Type} {total n : Nat} {b : Bytes}

/-- The reading asks for bytes beyond the end of the buffer. -/
def CutShort (total : Nat) (r : Except DecodeError α) : Prop :=
  ∃ needed, total < needed ∧ r = .error (.truncated needed total)

theorem CutShort.bind {r : Except DecodeError α} (h : CutShort total r)
    (f : α → Except DecodeError β) : CutShort total (r >>= f) := by
  obtain ⟨needed, hlt, rfl⟩ := h
  exact ⟨needed, hlt, rfl⟩

theorem cutShort_take (hn : b.length < n) (hb : b.length ≤ total) :
    CutShort total (take total n b) :=
  ⟨total - b.length + n, by omega, take_eq_error_iff.2 ⟨hn, rfl⟩⟩

theorem cutShort_readNat (hn : b.length < n) (hb : b.length ≤ total) :
    CutShort total (readNat total n b) := by
  obtain ⟨needed, hlt, h⟩ := cutShort_take hn hb
  exact ⟨needed, hlt, by rw [readNat, h]; rfl⟩

theorem readNat_of_le (h : n ≤ b.length) :
    readNat total n b = .ok (BigEndian.toNat (b.take n), b.drop n) := by
  have hread : readNat total n (b.take n ++ b.drop n) = _ :=
    readNat_append (b.drop n) (List.length_take_of_le h)
  rwa [List.take_append_drop] at hread

theorem readCount_of_lt (h : b.length < countWidth) :
    readCount b = .error (.missingHeader b.length) := if_pos h

end Layout

/-! ## Texts of counters -/

namespace Counter

open Layout

variable {b : Bytes} {n : Int}

/-- The bytes lie from the minus sign to the digit nine. -/
def AreTextual (b : Bytes) : Prop := ∀ x ∈ b, 45 ≤ x.toNat ∧ x.toNat ≤ 57

/-- The bytes and the length of the text of a counter. -/
structure IsText (b : Bytes) : Prop where
  bytes : AreTextual b
  length : b.length ≤ 20

theorem length_ofNat_le {k : Nat} (h : k < 10 ^ width) : (Decimal.ofNat k).length ≤ width := by
  rw [Decimal.ofNat, List.length_map]
  exact (Nat.length_toDigits_le_iff (by decide) (by decide)).2 h

theorem isText_encode (h : least ≤ n) (h' : n ≤ greatest) : IsText (encode n) := by
  have hlen := length_ofNat_le (natAbs_lt h h')
  have hdigits : AreTextual (Decimal.ofNat n.natAbs) := by
    intro x hx
    obtain ⟨hle, hge⟩ := Decimal.isDigit_of_mem_ofNat hx
    have hle' : 48 ≤ x.toNat := UInt8.le_iff_toNat_le.1 hle
    exact ⟨by omega, UInt8.le_iff_toNat_le.1 hge⟩
  unfold width at hlen
  unfold encode Decimal.ofInt
  split
  · refine ⟨List.forall_mem_cons.2 ⟨by decide, hdigits⟩, ?_⟩
    rw [List.length_cons]
    omega
  · exact ⟨hdigits, by omega⟩

namespace AreTextual

variable {total : Nat}

theorem drop (hb : AreTextual b) (n : Nat) : AreTextual (b.drop n) :=
  fun x hx => hb x (List.mem_of_mem_drop hx)

/-- The number that the first bytes of a text write is large, but not as large as it could be. -/
theorem toNat_take (hb : AreTextual b) {w : Nat} (hw : w + 1 ≤ b.length) :
    45 * 256 ^ w ≤ BigEndian.toNat (b.take (w + 1)) ∧
      BigEndian.toNat (b.take (w + 1)) < 58 * 256 ^ w := by
  cases b with
  | nil => simp at hw
  | cons x r =>
    obtain ⟨hle, hge⟩ := hb x List.mem_cons_self
    have hlen : (r.take w).length = w := List.length_take_of_le (by simpa using hw)
    have hlow := BigEndian.le_toNat_cons x (r.take w)
    have hhigh := BigEndian.toNat_cons_lt x (r.take w)
    rw [hlen] at hlow hhigh
    exact ⟨Nat.le_trans (Nat.mul_le_mul_right _ hle) hlow,
      Nat.lt_of_lt_of_le hhigh (Nat.mul_le_mul_right _ (by omega))⟩

/-- No member is read from a text, which is shorter than the length that it seems to say. -/
theorem cutShort_readMember (hb : AreTextual b) (hlen : b.length ≤ 20) (hle : b.length ≤ total) :
    CutShort total (readMember total b) := by
  unfold readMember
  by_cases hshort : b.length < lengthWidth
  · obtain ⟨needed, hlt, h⟩ := cutShort_readNat hshort hle
    rw [h]
    exact ⟨needed, hlt, rfl⟩
  · have hw : lengthWidth ≤ b.length := Nat.le_of_not_lt hshort
    rw [readNat_of_le hw]
    have hlarge : 45 * 256 ^ 3 ≤ BigEndian.toNat (b.take lengthWidth) := (hb.toNat_take hw).1
    have hdrop : (b.drop lengthWidth).length ≤ b.length := by simp
    exact cutShort_take (by omega) (by omega)

/-- A score is read from a text, if there are bytes enough. -/
theorem readScore_eq (hb : AreTextual b) (hw : 8 ≤ b.length) (total : Nat) :
    ∃ score, Ranking.readScore total b = .ok (score, b.drop 8) := by
  have hsmall : BigEndian.toNat (b.take 8) < 58 * 256 ^ 7 := (hb.toNat_take hw).2
  have hnum : (⟨UInt64.ofNat (BigEndian.toNat (b.take 8))⟩ : Score).isNaN = false := by
    simp only [Score.isNaN, Score.magnitude, Score.infiniteMagnitude, UInt64.toNat_ofNat',
      decide_eq_false_iff_not]
    omega
  refine ⟨⟨UInt64.ofNat (BigEndian.toNat (b.take 8))⟩, ?_⟩
  simp only [Ranking.readScore, readNat_of_le hw, bind, Except.bind, hnum]
  rfl

/-- A text is not long enough for a score and a member. -/
theorem cutShort_readAll (hb : AreTextual b) (hlen : b.length ≤ 20) (hle : b.length ≤ total)
    (previous : Option ScoredMember) (n : Nat) :
    CutShort total (Ranking.readAll total previous (n + 1) b) := by
  rw [Ranking.readAll]
  by_cases hshort : b.length < 8
  · refine CutShort.bind ?_ _
    obtain ⟨needed, hlt, h⟩ := cutShort_readNat hshort hle
    exact ⟨needed, hlt, by rw [Ranking.readScore, h]; rfl⟩
  · obtain ⟨score, hscore⟩ := hb.readScore_eq (Nat.le_of_not_lt hshort) total
    have hdrop : (b.drop 8).length ≤ b.length := by simp
    rw [hscore]
    exact ((hb.drop 8).cutShort_readMember (by omega) (by omega)).bind _

/-- A text has elements to count, by the first eight of its bytes. -/
theorem readCount_eq (hb : AreTextual b) (hw : countWidth ≤ b.length) :
    ∃ n, readCount b = .ok (n + 1, b.drop countWidth) := by
  have hpos : 45 * 256 ^ 7 ≤ BigEndian.toNat (b.take countWidth) := (hb.toNat_take hw).1
  refine ⟨BigEndian.toNat (b.take countWidth) - 1, ?_⟩
  rw [readCount, if_neg (Nat.not_lt.2 hw), readNat_of_le hw, Nat.sub_add_cancel (by omega)]

end AreTextual

end Counter

/-! ## Shapes -/

/-- The shapes of records of collections. -/
inductive Shape
  | sequence
  | set
  | ranking
  deriving DecidableEq, Repr

namespace Shape

open Layout

variable {b : Bytes} {e : DecodeError}

/-- The bytes fail to be a record of the shape. -/
def Rejects (b : Bytes) (e : DecodeError) : Shape → Prop
  | sequence => Members.decode b = .error e
  | set => Members.decodeDistinct b = .error e
  | ranking => Ranking.decode b = .error e

/-- Too few bytes for a count are a record of no shape. -/
theorem rejects_of_lt (h : b.length < countWidth) (shape : Shape) :
    shape.Rejects b (.missingHeader b.length) := by
  have hsequence : Members.decode b = .error (.missingHeader b.length) := by
    rw [Members.decode, readCount_of_lt h]
    rfl
  cases shape with
  | sequence => exact hsequence
  | set =>
    show Members.decodeDistinct b = _
    rw [Members.decodeDistinct, hsequence]
    rfl
  | ranking =>
    show Ranking.decode b = _
    rw [Ranking.decode, readCount_of_lt h]
    rfl

/-- The longer texts are cut short, whatever shape they are read as. -/
theorem rejects_of_isText (h : Counter.IsText b) (hw : countWidth ≤ b.length) (shape : Shape) :
    ∃ needed, b.length < needed ∧ shape.Rejects b (.truncated needed b.length) := by
  obtain ⟨n, hn⟩ := h.bytes.readCount_eq hw
  have hdrop : (b.drop countWidth).length ≤ b.length := by simp
  have hbytes := h.bytes.drop countWidth
  have hlen : (b.drop countWidth).length ≤ 20 := Nat.le_trans hdrop h.length
  have hsequence : CutShort b.length (Members.decode b) := by
    rw [Members.decode, hn]
    exact ((hbytes.cutShort_readMember hlen hdrop).bind _).bind _
  cases shape with
  | sequence => exact hsequence
  | set => exact hsequence.bind _
  | ranking =>
    show CutShort b.length (Ranking.decode b)
    rw [Ranking.decode, hn]
    exact (hbytes.cutShort_readAll hlen hdrop none n).bind _

/-- The bytes are the record of a collection with fewer than `2 ^ 56` elements, or none at all. -/
inductive Records (b : Bytes) : Shape → Prop
  | sequence {l : List Bytes} (hlen : l.length < 2 ^ 56) (h : Members.encode l = .ok b) :
    Records b sequence
  | set {l : List Bytes} (hnodup : l.Nodup) (hlen : l.length < 2 ^ 56)
    (h : Members.encode l = .ok b) : Records b set
  | ranking {z : List ScoredMember} (hlen : z.length < 2 ^ 56) (h : Ranking.encode z = .ok b) :
    Records b ranking

/-- The count of few enough elements begins with a zero byte. -/
theorem writeCount_eq_cons {n : Nat} (h : n < 2 ^ 56) : ∃ r, writeCount n = 0 :: r := by
  have hzero : n / 256 ^ 7 = 0 := Nat.div_eq_of_lt h
  refine ⟨BigEndian.ofNat 7 n, ?_⟩
  show UInt8.ofNat (n / 256 ^ 7) :: BigEndian.ofNat 7 n = _
  rw [hzero]
  rfl

theorem Records.eq_cons {shape : Shape} (h : shape.Records b) : ∃ r, b = 0 :: r := by
  cases h with
  | sequence hlen h | set _ hlen h | ranking hlen h =>
    obtain ⟨w, -, rfl⟩ := map_eq_ok_iff.1 h
    obtain ⟨r, hr⟩ := writeCount_eq_cons hlen
    exact ⟨r ++ w, by rw [hr]; rfl⟩

/-- No collection is read as a counter. -/
theorem Records.decode_counter {shape : Shape} (h : shape.Records b) : Counter.decode b = none := by
  obtain ⟨r, rfl⟩ := h.eq_cons
  have hdigits : Counter.digits? (0 :: r) = none := if_neg (by simp [Decimal.IsDigit])
  rw [Counter.decode]
  · rw [hdigits, Option.bind_none]
  · rintro _ ⟨⟩
  · rintro _ ⟨⟩

end Shape

end Keyspace
