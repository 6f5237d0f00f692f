import Keyspace.Record.Layout

/-!
# Member sequences

Lists and sets share one layout: the count and then the members. `encode` and `decode` write and
read it; `decodeDistinct` also asks that no member occurs twice, which is what makes a sequence a
set. `decode_eq_ok_iff` says that reading accepts exactly what writing produces.
-/

namespace Keyspace.Members

open Layout
open scoped Powers

/-- The members one after the other. -/
def writeAll : List Bytes → Except EncodeError Bytes
  | [] => .ok []
  | m :: ms => do
    let b ← writeMember m
    let r ← writeAll ms
    return b ++ r

/-- The record of a sequence of members. -/
def encode (ms : List Bytes) : Except EncodeError Bytes :=
  (writeAll ms).map fun b => writeCount ms.length ++ b

/-- The next `n` members. -/
def readAll (total : Nat) : Nat → Bytes → Except DecodeError (List Bytes × Bytes)
  | 0, rest => .ok ([], rest)
  | n + 1, rest => do
    let (m, rest) ← readMember total rest
    let (ms, rest) ← readAll total n rest
    return (m :: ms, rest)

/-- The sequence of members that a record holds. -/
def decode (b : Bytes) : Except DecodeError (List Bytes) := do
  let (n, rest) ← readCount b
  let (ms, rest) ← readAll b.length n rest
  finish rest
  return ms

/-- The members of a set: a sequence in which none occurs twice. -/
def decodeDistinct (b : Bytes) : Except DecodeError (List Bytes) := do
  let ms ← decode b
  if ms.Nodup then return ms else throw .duplicateMember

/-! ## Reading undoes writing -/

theorem readAll_eq_ok_iff {total n : Nat} {b r : Bytes} {ms : List Bytes} :
    readAll total n b = .ok (ms, r) ↔ ms.length = n ∧ ∃ w, writeAll ms = .ok w ∧ b = w ++ r := by
  induction n generalizing b ms with
  | zero =>
    simp only [readAll, Except.ok.injEq, Prod.mk.injEq, List.length_eq_zero_iff]
    constructor
    · rintro ⟨rfl, rfl⟩
      exact ⟨rfl, [], rfl, rfl⟩
    · rintro ⟨rfl, w, h, rfl⟩
      obtain rfl : [] = w := by simpa [writeAll] using h
      exact ⟨rfl, rfl⟩
  | succ n ih =>
    constructor
    · intro h
      rw [readAll] at h
      cases hm : readMember total b with
      | error e => rw [hm] at h; cases h
      | ok q =>
        obtain ⟨m, s⟩ := q
        rw [hm] at h
        simp only [bind, Except.bind] at h
        cases hs : readAll total n s with
        | error e => rw [hs] at h; cases h
        | ok q =>
          obtain ⟨ms', t⟩ := q
          rw [hs] at h
          obtain ⟨rfl, rfl⟩ : m :: ms' = ms ∧ t = r := by
            simpa [pure, Except.pure] using h
          obtain ⟨w, hw, rfl⟩ := eq_of_readMember hm
          obtain ⟨hl, w', hw', rfl⟩ := ih.1 hs
          refine ⟨by simp [hl], w ++ w', ?_, (List.append_assoc _ _ _).symm⟩
          rw [writeAll, hw, hw']
          rfl
    · rintro ⟨hl, w, hw, rfl⟩
      cases ms with
      | nil => simp at hl
      | cons m ms =>
        rw [writeAll] at hw
        cases h₁ : writeMember m with
        | error e => rw [h₁] at hw; cases hw
        | ok w₁ =>
          rw [h₁] at hw
          cases h₂ : writeAll ms with
          | error e => rw [h₂] at hw; cases hw
          | ok w₂ =>
            rw [h₂] at hw
            obtain rfl : w₁ ++ w₂ = w := by simpa [bind, Except.bind, pure, Except.pure] using hw
            rw [readAll, List.append_assoc, readMember_writeMember_append _ h₁]
            have := ih.2 ⟨by simpa using hl, w₂, h₂, rfl⟩
            simp only [bind, Except.bind]
            rw [this]
            rfl

/-- Reading a sequence of fewer than `256 ^ 8` members accepts exactly what writing it gives. -/
theorem decode_eq_ok_iff {b : Bytes} {ms : List Bytes} (h : ms.length < 256 ^ countWidth) :
    decode b = .ok ms ↔ encode ms = .ok b := by
  have hd : decode b = .ok ms ↔
      ∃ n r, readCount b = .ok (n, r) ∧ readAll b.length n r = .ok (ms, []) := by
    rw [decode]
    cases hc : readCount b with
    | error e => simp [bind, Except.bind]
    | ok q =>
      obtain ⟨n, r⟩ := q
      simp only [bind, Except.bind, Except.ok.injEq, Prod.mk.injEq, and_assoc, exists_and_left,
        exists_eq_left']
      cases readAll b.length n r with
      | error e => simp
      | ok q =>
        obtain ⟨l, s⟩ := q
        cases s <;> simp [finish, pure, Except.pure]
  have he : encode ms = .ok b ↔ ∃ w, writeAll ms = .ok w ∧ b = writeCount ms.length ++ w := by
    rw [encode]
    cases writeAll ms <;> simp [Except.map, eq_comm]
  rw [hd, he]
  constructor
  · rintro ⟨n, r, hc, hr⟩
    obtain ⟨rfl, w, hw, rfl⟩ := readAll_eq_ok_iff.1 hr
    exact ⟨w, hw, by simpa using (readCount_eq_ok_iff.1 hc).1⟩
  · rintro ⟨w, hw, rfl⟩
    exact ⟨_, w, readCount_eq_ok_iff.2 ⟨rfl, h⟩,
      readAll_eq_ok_iff.2 ⟨rfl, w, hw, by simp⟩⟩

end Keyspace.Members
