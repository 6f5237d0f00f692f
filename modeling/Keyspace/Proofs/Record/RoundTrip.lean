import Keyspace.Proofs.Answers
import Keyspace.Record.Members
import Keyspace.Record.Ranking
import Mathlib.Data.List.Chain
import Mathlib.Algebra.Group.Nat.Defs

/-!
# Records read back exactly

Reading a composite record and writing it are inverse to each other, in both directions: what is
written is read back, and nothing is read but what is written. `codecs_inverse` says so of member
sequences, sets and rankings, and which of them can be written at all.

The count at the head of a record is the length of what follows (`readCount_eq_ok_iff`), so each
reading comes down to that of the elements: `Members.readAll_eq_ok_iff` and
`Ranking.readAll_eq_ok_iff`. The latter carries the element before as the head of the list that has
to increase.
-/

namespace Keyspace

theorem Layout.exists_writeMember_iff {m : Bytes} :
    (∃ b, writeMember m = .ok b) ↔ m.length ≤ maxMember := by
  simp only [writeMember_eq_ok_iff, exists_and_left, exists_eq, and_true]

/-! ## Member sequences -/

namespace Members

open Layout

theorem exists_writeAll_iff {ms : List Bytes} :
    (∃ b, writeAll ms = .ok b) ↔ ∀ m ∈ ms, m.length ≤ maxMember := by
  induction ms with
  | nil => simp [writeAll]
  | cons m ms ih =>
    rw [List.forall_mem_cons, ← ih, ← exists_writeMember_iff]
    exact exists_bind_bind_eq_ok_iff

theorem exists_encode_iff {ms : List Bytes} :
    (∃ b, encode ms = .ok b) ↔ ∀ m ∈ ms, m.length ≤ maxMember :=
  exists_map_eq_ok_iff.trans exists_writeAll_iff

/-- A sequence that was read has no more members than its count can say. -/
theorem length_lt_of_decode {b : Bytes} {ms : List Bytes} (h : decode b = .ok ms) :
    ms.length < 256 ^ countWidth := by
  obtain ⟨⟨n, rest⟩, hc, h⟩ := bind_eq_ok_iff.1 h
  obtain ⟨⟨l, rest'⟩, hr, h⟩ := bind_eq_ok_iff.1 h
  obtain ⟨-, -, h⟩ := bind_eq_ok_iff.1 h
  obtain rfl := Except.ok.inj h
  rw [(readAll_eq_ok_iff.1 hr).1]
  exact (readCount_eq_ok_iff.1 hc).2

theorem decodeDistinct_eq_ok_iff {b : Bytes} {ms : List Bytes} :
    decodeDistinct b = .ok ms ↔ decode b = .ok ms ∧ ms.Nodup := by
  rw [decodeDistinct, bind_eq_ok_iff]
  constructor
  · rintro ⟨l, hl, h⟩
    split at h
    · rename_i hnodup
      obtain rfl := Except.ok.inj h
      exact ⟨hl, hnodup⟩
    · cases h
  · rintro ⟨hl, hnodup⟩
    exact ⟨ms, hl, if_pos hnodup⟩

end Members

/-! ## Rankings -/

namespace Ranking

open Layout

theorem writeAll_cons_eq_ok_iff {x : ScoredMember} {l : List ScoredMember} {b : Bytes} :
    writeAll (x :: l) = .ok b ↔ ∃ w r, writeMember x.member = .ok w ∧ writeAll l = .ok r ∧
      BigEndian.ofNat 8 x.score.bits.toNat ++ w ++ r = b := bind_bind_eq_ok_iff

theorem exists_writeAll_iff {l : List ScoredMember} :
    (∃ b, writeAll l = .ok b) ↔ ∀ x ∈ l, x.member.length ≤ maxMember := by
  induction l with
  | nil => simp [writeAll]
  | cons x l ih =>
    rw [List.forall_mem_cons, ← ih, ← exists_writeMember_iff]
    exact exists_bind_bind_eq_ok_iff

theorem exists_encode_iff {l : List ScoredMember} :
    (∃ b, encode l = .ok b) ↔ ∀ x ∈ l, x.member.length ≤ maxMember :=
  exists_map_eq_ok_iff.trans exists_writeAll_iff

theorem encode_eq_ok_iff {l : List ScoredMember} {b : Bytes} :
    encode l = .ok b ↔ ∃ w, writeAll l = .ok w ∧ writeCount l.length ++ w = b := map_eq_ok_iff

/-- No two lists have the same record, whatever their order and their scores. -/
theorem writeAll_inj {l l' : List ScoredMember} {w : Bytes} (h : writeAll l = .ok w)
    (h' : writeAll l' = .ok w) : l = l' := by
  induction l generalizing l' w with
  | nil =>
    cases h
    cases l' with
    | nil => rfl
    | cons x l' =>
      obtain ⟨u, v, -, -, he⟩ := writeAll_cons_eq_ok_iff.1 h'
      have hlen := congrArg List.length he
      simp at hlen
  | cons x l ih =>
    obtain ⟨u, v, hu, hv, rfl⟩ := writeAll_cons_eq_ok_iff.1 h
    cases l' with
    | nil =>
      have hlen := congrArg List.length (Except.ok.inj h')
      simp at hlen
      omega
    | cons y l' =>
      obtain ⟨u', v', hu', hv', he⟩ := writeAll_cons_eq_ok_iff.1 h'
      rw [List.append_assoc, List.append_assoc] at he
      -- scores are equally long, and members tell their own length
      obtain ⟨hscore, hrest⟩ := List.append_inj he (by simp)
      have hbits := BigEndian.ofNat_injective (w := 8) y.score.bits.toNat_lt x.score.bits.toNat_lt
        hscore
      have hread : readMember 0 (u ++ v) = .ok (x.member, v) := readMember_writeMember_append v hu
      rw [← hrest, readMember_writeMember_append v' hu'] at hread
      obtain ⟨hmember, rfl⟩ := Prod.mk.inj (Except.ok.inj hread)
      obtain rfl := ih hv hv'
      obtain ⟨⟨bits⟩, member⟩ := x
      obtain ⟨⟨bits'⟩, member'⟩ := y
      obtain rfl := UInt64.toNat_inj.1 hbits
      obtain rfl : member' = member := hmember
      rfl

theorem encode_inj {l l' : List ScoredMember} {b : Bytes} (h : encode l = .ok b)
    (h' : encode l' = .ok b) : l = l' := by
  obtain ⟨w, hw, rfl⟩ := encode_eq_ok_iff.1 h
  obtain ⟨w', hw', he⟩ := encode_eq_ok_iff.1 h'
  obtain ⟨-, rfl⟩ := List.append_inj he (by simp [writeCount])
  exact writeAll_inj hw hw'

/-- A score is read from its bits, whatever number they write, but not from those of a NaN. -/
theorem readScore_eq_ok_iff {total : Nat} {s : Score} {b r : Bytes} :
    readScore total b = .ok (s, r) ↔
      b = BigEndian.ofNat 8 s.bits.toNat ++ r ∧ s.isNaN = false := by
  have hbits : s.bits.toNat < 256 ^ 8 := s.bits.toNat_lt
  constructor
  · intro h
    obtain ⟨⟨n, rest⟩, hn, hscore⟩ := bind_eq_ok_iff.1 h
    obtain ⟨rfl, hlt⟩ := readNat_eq_ok_iff.1 hn
    dsimp only at hscore
    split at hscore
    · cases hscore
    · rename_i hnan
      cases hscore
      have hmod : n % 2 ^ 64 = n := Nat.mod_eq_of_lt hlt
      exact ⟨by rw [UInt64.toNat_ofNat', hmod], by simpa using hnan⟩
  · rintro ⟨rfl, hnan⟩
    rw [readScore, readNat_eq_ok_iff.2 ⟨rfl, hbits⟩]
    simp [bind, Except.bind, pure, Except.pure, hnan]

/-- The elements that can be read after `previous` are those that can be written and are numbers in
increasing order. -/
theorem readAll_eq_ok_iff {total n : Nat} {previous : Option ScoredMember}
    {l : List ScoredMember} {b r : Bytes} :
    readAll total previous n b = .ok (l, r) ↔
      l.length = n ∧ (∃ w, writeAll l = .ok w ∧ b = w ++ r) ∧
        (∀ x ∈ l, x.score.isNaN = false) ∧ (previous.toList ++ l).IsChain (· < ·) := by
  induction n generalizing previous l b with
  | zero =>
    simp only [readAll, Except.ok.injEq, Prod.mk.injEq, List.length_eq_zero_iff]
    constructor
    · rintro ⟨rfl, rfl⟩
      refine ⟨rfl, ⟨[], rfl, rfl⟩, by simp, ?_⟩
      cases previous <;> simp
    · rintro ⟨rfl, ⟨w, hw, rfl⟩, -, -⟩
      cases hw
      exact ⟨rfl, rfl⟩
  | succ n ih =>
    have hchain : ∀ (x : ScoredMember) (l : List ScoredMember),
        (previous.toList ++ x :: l).IsChain (· < ·) ↔
          mayFollow previous x = true ∧ (x :: l).IsChain (· < ·) := by
      intro x l
      cases previous <;> simp [mayFollow]
    constructor
    · intro h
      obtain ⟨⟨s, b₁⟩, hs, hmember⟩ := bind_eq_ok_iff.1 h
      obtain ⟨⟨m, b₂⟩, hm, hrest⟩ := bind_eq_ok_iff.1 hmember
      obtain ⟨rfl, hnan⟩ := readScore_eq_ok_iff.1 hs
      obtain ⟨w, hw, rfl⟩ := eq_of_readMember hm
      dsimp only at hrest
      split at hrest
      · rename_i hfollow
        obtain ⟨⟨l', b₃⟩, hl, hall⟩ := bind_eq_ok_iff.1 hrest
        cases hall
        obtain ⟨hlen, ⟨w', hw', rfl⟩, hnum, hinc⟩ := ih.1 hl
        refine ⟨by simp [hlen], ⟨_, writeAll_cons_eq_ok_iff.2 ⟨w, w', hw, hw', rfl⟩, by simp⟩,
          List.forall_mem_cons.2 ⟨hnan, hnum⟩, (hchain _ _).2 ⟨hfollow, hinc⟩⟩
      · cases hrest
    · rintro ⟨hlen, ⟨w, hw, rfl⟩, hnum, hinc⟩
      cases l with
      | nil => cases hlen
      | cons x l =>
        obtain ⟨w₁, w₂, h₁, h₂, rfl⟩ := writeAll_cons_eq_ok_iff.1 hw
        obtain ⟨hfollow, hinc⟩ := (hchain x l).1 hinc
        obtain ⟨hnan, hnum⟩ := List.forall_mem_cons.1 hnum
        have hl : readAll total (some x) n (w₂ ++ r) = .ok (l, r) :=
          ih.2 ⟨by simpa using hlen, ⟨w₂, h₂, rfl⟩, hnum, hinc⟩
        refine bind_eq_ok_iff.2 ⟨(x.score, w₁ ++ (w₂ ++ r)), ?_, ?_⟩
        · exact readScore_eq_ok_iff.2 ⟨by simp, hnan⟩
        · refine bind_eq_ok_iff.2 ⟨(x.member, w₂ ++ r), readMember_writeMember_append _ h₁, ?_⟩
          dsimp only
          rw [if_pos hfollow]
          exact bind_eq_ok_iff.2 ⟨(l, r), hl, rfl⟩

/-- Reading accepts exactly what writing gives for numbers in increasing order. -/
theorem decode_eq_ok_iff {b : Bytes} {l : List ScoredMember} :
    decode b = .ok l ↔ l.length < 256 ^ countWidth ∧ encode l = .ok b ∧
      (∀ x ∈ l, x.score.isNaN = false) ∧ l.IsChain (· < ·) := by
  rw [encode_eq_ok_iff]
  constructor
  · intro h
    obtain ⟨⟨n, rest⟩, hc, h⟩ := bind_eq_ok_iff.1 h
    obtain ⟨⟨l', rest'⟩, hr, h⟩ := bind_eq_ok_iff.1 h
    obtain ⟨u, hf, h⟩ := bind_eq_ok_iff.1 h
    obtain rfl := finish_eq_ok_iff.1 hf
    obtain rfl := Except.ok.inj h
    obtain ⟨rfl, ⟨w, hw, rfl⟩, hnum, hinc⟩ := readAll_eq_ok_iff.1 hr
    obtain ⟨rfl, hlt⟩ := readCount_eq_ok_iff.1 hc
    exact ⟨hlt, ⟨w, hw, by simp⟩, hnum, hinc⟩
  · rintro ⟨hlt, ⟨w, hw, rfl⟩, hnum, hinc⟩
    have hr : readAll (writeCount l.length ++ w).length none l.length w = .ok (l, []) :=
      readAll_eq_ok_iff.2 ⟨rfl, ⟨w, hw, by simp⟩, hnum, hinc⟩
    refine bind_eq_ok_iff.2 ⟨(l.length, w), readCount_eq_ok_iff.2 ⟨rfl, hlt⟩, ?_⟩
    exact bind_eq_ok_iff.2 ⟨(l, []), hr, rfl⟩

end Ranking

/-! ## All records -/

/-- **Reading and writing are inverse.** A sequence can be written exactly if no member is longer
than its length can say. What reading accepts is what writing gives: for a sequence any members, for
a set distinct ones, for a ranking numbers in strictly increasing order, each up to the number of
elements that the count can say. -/
theorem codecs_inverse :
    (∀ ms : List Bytes, (∃ b, Members.encode ms = .ok b) ↔ ∀ m ∈ ms, m.length ≤ 2 ^ 32 - 1) ∧
    (∀ l : List ScoredMember,
      (∃ b, Ranking.encode l = .ok b) ↔ ∀ x ∈ l, x.member.length ≤ 2 ^ 32 - 1) ∧
    (∀ b ms, Members.decode b = .ok ms ↔ ms.length < 2 ^ 64 ∧ Members.encode ms = .ok b) ∧
    (∀ b ms, Members.decodeDistinct b = .ok ms ↔
      ms.length < 2 ^ 64 ∧ Members.encode ms = .ok b ∧ ms.Nodup) ∧
    ∀ b l, Ranking.decode b = .ok l ↔ l.length < 2 ^ 64 ∧ Ranking.encode l = .ok b ∧
      (∀ x ∈ l, x.score.isNaN = false) ∧
      l.IsChain fun x y => ScoredMember.order x y = .lt := by
  have hdecode : ∀ b ms, Members.decode b = .ok ms ↔
      ms.length < 2 ^ 64 ∧ Members.encode ms = .ok b := by
    intro b ms
    constructor
    · intro h
      have hlt := Members.length_lt_of_decode h
      exact ⟨hlt, (Members.decode_eq_ok_iff hlt).1 h⟩
    · rintro ⟨hlt, h⟩
      exact (Members.decode_eq_ok_iff hlt).2 h
  refine ⟨fun _ => Members.exists_encode_iff, fun _ => Ranking.exists_encode_iff, hdecode, ?_,
    fun _ _ => Ranking.decode_eq_ok_iff⟩
  intro b ms
  rw [Members.decodeDistinct_eq_ok_iff, hdecode, and_assoc]

end Keyspace
