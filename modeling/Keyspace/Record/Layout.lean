import Keyspace.Bytes.BigEndian

/-!
# The layout of composite records

A composite record is a count in eight bytes and then that many elements; an element ends in a
member, which is its length in four bytes and then its bytes. Nothing in a record says of which
kind it is, so reading is strict: `DecodeError` tells how a buffer fails to have the wanted shape.
The readers here take the length of the whole buffer, so that a failure can say at which size the
read would have succeeded, and give back what follows the part that they read.

`readMember_writeMember_append` and `eq_of_readMember` say that a member is read exactly from what
writing it produces.
-/

namespace Keyspace

open scoped Powers

/-- How a buffer fails to be a record of the wanted shape. -/
inductive DecodeError
  /-- The buffer is too short for a count. -/
  | missingHeader (length : Nat)
  /-- The count or the length of a member asks for bytes beyond the end. -/
  | truncated (needed available : Nat)
  /-- There are bytes after the last element. -/
  | trailingBytes (extra : Nat)
  /-- A set has a member twice. -/
  | duplicateMember
  /-- A score of a sorted set is not a number. -/
  | invalidScore
  /-- The elements of a sorted set are not in increasing order. -/
  | unsorted
  deriving DecidableEq, Repr

/-- The description of a failed reading. -/
def DecodeError.message : DecodeError → String
  | .missingHeader length => s!"buffer of {length} bytes has no count header"
  | .truncated needed available => s!"truncated: need {needed} bytes, {available} available"
  | .trailingBytes extra => s!"{extra} trailing bytes"
  | .duplicateMember => "duplicate set member"
  | .invalidScore => "NaN score"
  | .unsorted => "sorted set out of order"

/-- A member is too long for the length that precedes it. -/
inductive EncodeError
  | memberTooLarge (length : Nat)
  deriving DecidableEq, Repr

namespace Layout

/-- The number of bytes of a count. -/
def countWidth : Nat := 8

/-- The number of bytes of the length of a member. -/
def lengthWidth : Nat := 4

/-- The length of the longest member that a record can hold. -/
def maxMember : Nat := 256 ^ lengthWidth - 1

/-- The length of a member as it stands before the member. -/
def memberLength (n : Nat) : Except EncodeError Nat :=
  if n ≤ maxMember then .ok n else .error (.memberTooLarge n)

end Layout

/-- The description of a failed writing. -/
def EncodeError.message : EncodeError → String
  | .memberTooLarge length => s!"member of {length} bytes exceeds {Layout.maxMember} bytes"

namespace Layout

/-! ## Reading -/

/-- The next `n` bytes of a buffer of `total` bytes of which `rest` is left. -/
def take (total n : Nat) (rest : Bytes) : Except DecodeError (Bytes × Bytes) :=
  match Bytes.splitAt? n rest with
  | some cut => .ok cut
  | none => .error (.truncated (total - rest.length + n) total)

/-- The next number of `w` bytes. -/
def readNat (total w : Nat) (rest : Bytes) : Except DecodeError (Nat × Bytes) :=
  (take total w rest).map fun (b, rest) => (BigEndian.toNat b, rest)

/-- The next member. -/
def readMember (total : Nat) (rest : Bytes) : Except DecodeError (Bytes × Bytes) :=
  match readNat total lengthWidth rest with
  | .error e => .error e
  | .ok (n, rest) => take total n rest

/-- The count at the head of a record. -/
def readCount (b : Bytes) : Except DecodeError (Nat × Bytes) :=
  if b.length < countWidth then .error (.missingHeader b.length) else readNat b.length countWidth b

/-- Nothing may follow the last element. -/
def finish : Bytes → Except DecodeError Unit
  | [] => .ok ()
  | rest => .error (.trailingBytes rest.length)

/-! ## Writing -/

/-- A count as it stands at the head of a record. -/
def writeCount (n : Nat) : Bytes := BigEndian.ofNat countWidth n

/-- A member after its length. -/
def writeMember (m : Bytes) : Except EncodeError Bytes :=
  (memberLength m.length).map fun n => BigEndian.ofNat lengthWidth n ++ m

/-! ## Reading undoes writing -/

theorem take_eq_ok_iff {total n : Nat} {b p r : Bytes} :
    take total n b = .ok (p, r) ↔ b = p ++ r ∧ p.length = n := by
  rw [← Bytes.splitAt?_eq_some_iff, take]
  cases h : Bytes.splitAt? n b <;> simp

theorem take_eq_error_iff {total n : Nat} {b : Bytes} {e : DecodeError} :
    take total n b = .error e ↔ b.length < n ∧ e = .truncated (total - b.length + n) total := by
  rw [← Bytes.splitAt?_eq_none_iff, take]
  cases h : Bytes.splitAt? n b <;> simp [eq_comm]

theorem readNat_append {total w : Nat} {b : Bytes} (r : Bytes) (h : b.length = w) :
    readNat total w (b ++ r) = .ok (BigEndian.toNat b, r) := by
  rw [readNat, take_eq_ok_iff.2 ⟨rfl, h⟩]
  rfl

theorem readNat_eq_ok_iff {total w n : Nat} {b r : Bytes} :
    readNat total w b = .ok (n, r) ↔ b = BigEndian.ofNat w n ++ r ∧ n < 256 ^ w := by
  constructor
  · intro h
    rw [readNat] at h
    cases ht : take total w b with
    | error e => rw [ht] at h; cases h
    | ok q =>
      obtain ⟨p, s⟩ := q
      obtain ⟨rfl, rfl⟩ := take_eq_ok_iff.1 ht
      rw [ht] at h
      obtain ⟨rfl, rfl⟩ : BigEndian.toNat p = n ∧ s = r := by simpa [Except.map] using h
      exact ⟨by rw [BigEndian.ofNat_toNat], BigEndian.toNat_lt p⟩
  · rintro ⟨rfl, hn⟩
    rw [readNat_append _ (BigEndian.length_ofNat w n), BigEndian.toNat_ofNat_of_lt hn]

theorem readCount_eq_ok_iff {n : Nat} {b r : Bytes} :
    readCount b = .ok (n, r) ↔ b = writeCount n ++ r ∧ n < 256 ^ countWidth := by
  rw [readCount]
  split
  · rename_i h
    simp only [reduceCtorEq, false_iff, not_and]
    rintro rfl
    simp only [writeCount, List.length_append, BigEndian.length_ofNat] at h
    omega
  · exact readNat_eq_ok_iff

@[simp] theorem finish_eq_ok_iff {b : Bytes} {u : Unit} : finish b = .ok u ↔ b = [] := by
  cases b <;> simp [finish]

theorem writeMember_eq_ok_iff {m b : Bytes} :
    writeMember m = .ok b ↔
      m.length ≤ maxMember ∧ b = BigEndian.ofNat lengthWidth m.length ++ m := by
  unfold writeMember memberLength
  split <;> rename_i h
  · simp [Except.map, h, eq_comm]
  · simp [Except.map, h]

theorem readMember_eq_ok_iff {total : Nat} {m b r : Bytes} :
    readMember total b = .ok (m, r) ↔
      m.length ≤ maxMember ∧ b = BigEndian.ofNat lengthWidth m.length ++ m ++ r := by
  have hw : maxMember < 256 ^ lengthWidth := by decide
  constructor
  · intro h
    rw [readMember] at h
    cases hn : readNat total lengthWidth b with
    | error e => rw [hn] at h; cases h
    | ok q =>
      obtain ⟨n, s⟩ := q
      rw [hn] at h
      obtain ⟨rfl, hlt⟩ := readNat_eq_ok_iff.1 hn
      obtain ⟨rfl, rfl⟩ := take_eq_ok_iff.1 h
      have : 256 ^ lengthWidth = maxMember + 1 := by decide
      exact ⟨by omega, (List.append_assoc _ _ _).symm⟩
  · rintro ⟨hm, rfl⟩
    rw [readMember, List.append_assoc, readNat_eq_ok_iff.2 ⟨rfl, by omega⟩]
    exact take_eq_ok_iff.2 ⟨rfl, rfl⟩

/-- What writing a member produces is read back, whatever follows. -/
theorem readMember_writeMember_append {total : Nat} {m b : Bytes} (r : Bytes)
    (h : writeMember m = .ok b) : readMember total (b ++ r) = .ok (m, r) := by
  obtain ⟨hm, rfl⟩ := writeMember_eq_ok_iff.1 h
  exact readMember_eq_ok_iff.2 ⟨hm, rfl⟩

/-- A member is read only from what writing it produces. -/
theorem eq_of_readMember {total : Nat} {m b r : Bytes} (h : readMember total b = .ok (m, r)) :
    ∃ w, writeMember m = .ok w ∧ b = w ++ r := by
  obtain ⟨hm, rfl⟩ := readMember_eq_ok_iff.1 h
  exact ⟨_, writeMember_eq_ok_iff.2 ⟨hm, rfl⟩, rfl⟩

end Layout

end Keyspace
