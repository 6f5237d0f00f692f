import Keyspace.Proofs.Record.RoundTrip
import Keyspace.Proofs.Record.Shape

/-!
# Readers, and the beginnings of what they read

A composite record is read part after part. A `Layout.Reader` of a part is `Incremental` if what it
reads does not depend on what follows, and if on the beginning of a part it is cut short and asks
for no more bytes than the part has. It is `Completable` if every buffer is the beginning of what it
can read. Readers that follow each other have these properties if each of them has
(`Incremental.andThen`, `Completable.andThen`). So the elements of collections are read
incrementally (`Members.incremental_readAll`, `Ranking.incremental_readAll`), and those of member
sequences can be completed (`Members.completable_readAll`).

`Reader.record` reads a count and then as many elements, after which nothing may be left. If the
elements are read incrementally, then records tell their own length (`selfDelimiting_record`); if
they can also be completed, there is nothing else that a buffer could be (`record_cases`).
-/

namespace Keyspace

namespace Layout

/-- What reads the next part of a buffer, given the length of the whole and what is left of it. -/
abbrev Reader (α : Type) := Nat → Bytes → Except DecodeError (α × Bytes)

/-- Accepted buffers tell their own length: the reading of a proper beginning is cut short, and
bytes that follow are trailing. -/
structure SelfDelimiting {α : Type} (decode : Bytes → Except DecodeError α) : Prop where
  cut : ∀ {b a p}, decode b = .ok a → p <+: b → p ≠ b → countWidth ≤ p.length →
    CutShort p.length (decode p)
  trailing : ∀ {b a r}, decode b = .ok a → r ≠ [] →
    decode (b ++ r) = .error (.trailingBytes r.length)

theorem SelfDelimiting.bind {α β : Type} {decode : Bytes → Except DecodeError α}
    (h : SelfDelimiting decode) (f : α → Except DecodeError β) :
    SelfDelimiting fun b => decode b >>= f where
  cut hb hp hne hlen := by
    obtain ⟨a, ha, -⟩ := bind_eq_ok_iff.1 hb
    exact (h.cut ha hp hne hlen).bind f
  trailing hb hr := by
    obtain ⟨a, ha, -⟩ := bind_eq_ok_iff.1 hb
    show _ >>= f = _
    rw [h.trailing ha hr]
    rfl

namespace Reader

variable {α β : Type} {read : Reader α} {next : α → Reader β} {b p r : Bytes} {a : α}
  {e : DecodeError}

/-- Reads a part, and then another one that depends on what was read. -/
def andThen (read : Reader α) (next : α → Reader β) : Reader β := fun total b =>
  read total b >>= fun q => next q.1 total q.2

/-! ## Incremental readers -/

/-- Whether the next part can be read depends on no more than this part. -/
structure Incremental (read : Reader α) : Prop where
  /-- What is read takes up a part of the buffer, and is read whatever follows this part. -/
  part : ∀ {total b a r}, read total b = .ok (a, r) →
    ∃ w, b = w ++ r ∧ ∀ total' r', read total' (w ++ r') = .ok (a, r')
  /-- A failure at the beginning of a part that could be read asks for bytes that this part has. -/
  cut : ∀ {total total' b ext e a r}, read total b = .error e → b.length ≤ total →
    read total' (b ++ ext) = .ok (a, r) →
      ∃ needed, e = .truncated needed total ∧ total < needed ∧
        needed + r.length ≤ total + ext.length

theorem incremental_ok (a : α) : Incremental fun _ r => .ok (a, r) where
  part h := by
    cases h
    exact ⟨[], rfl, fun _ _ => rfl⟩
  cut h := by cases h

theorem incremental_error (e : DecodeError) :
    Incremental fun _ _ => (.error e : Except DecodeError (α × Bytes)) where
  part h := by cases h
  cut _ _ h := by cases h

theorem Incremental.ite {read' : Reader α} (h : Incremental read) (h' : Incremental read')
    {p : Prop} [Decidable p] :
    Incremental fun total b => if p then read total b else read' total b := by
  split
  · exact h
  · exact h'

theorem incremental_take (n : Nat) : Incremental fun total b => take total n b where
  part h := by
    obtain ⟨rfl, hn⟩ := take_eq_ok_iff.1 h
    exact ⟨_, rfl, fun _ _ => take_eq_ok_iff.2 ⟨rfl, hn⟩⟩
  cut {total total' b ext e a r} h hle hext := by
    obtain ⟨hlt, rfl⟩ := take_eq_error_iff.1 h
    obtain ⟨hb, hn⟩ := take_eq_ok_iff.1 hext
    have hlen := congrArg List.length hb
    rw [List.length_append, List.length_append] at hlen
    exact ⟨_, rfl, by omega, by omega⟩

theorem Incremental.length_le (h : Incremental read) {total : Nat}
    (hr : read total b = .ok (a, r)) : r.length ≤ b.length := by
  obtain ⟨w, rfl, -⟩ := h.part hr
  simp

theorem Incremental.andThen (h : Incremental read) (h' : ∀ a, Incremental (next a)) :
    Incremental (read.andThen next) where
  part {total b a r} hok := by
    obtain ⟨⟨a', s⟩, hread, hnext⟩ := bind_eq_ok_iff.1 hok
    obtain ⟨w, rfl, hw⟩ := h.part hread
    obtain ⟨w', hs, hw'⟩ := (h' a').part hnext
    obtain rfl : s = w' ++ r := hs
    refine ⟨w ++ w', (List.append_assoc _ _ _).symm, fun total' r' => bind_eq_ok_iff.2 ?_⟩
    exact ⟨(a', w' ++ r'), by rw [List.append_assoc, hw], hw' total' r'⟩
  cut {total total' b ext e a r} herr hle hext := by
    obtain ⟨⟨a', s⟩, hread, hnext⟩ := bind_eq_ok_iff.1 hext
    cases hb : read total b with
    | error e' =>
      -- the first part is cut
      rw [Reader.andThen, hb] at herr
      obtain rfl := Except.error.inj herr
      obtain ⟨needed, he, hlt, hneeded⟩ := h.cut hb hle hread
      have hless := (h' a').length_le hnext
      dsimp only at hless
      exact ⟨needed, he, hlt, by omega⟩
    | ok q =>
      -- the first part is read also with more behind it, so the second one is cut
      obtain ⟨a'', s'⟩ := q
      rw [Reader.andThen, hb] at herr
      obtain ⟨w, rfl, hw⟩ := h.part hb
      rw [List.append_assoc, hw] at hread
      obtain ⟨rfl, rfl⟩ := Prod.mk.inj (Except.ok.inj hread)
      have hle' : s'.length ≤ total := by
        rw [List.length_append] at hle
        omega
      exact (h' a'').cut herr hle' hnext

/-! ## Completable readers -/

/-- Whatever is there, with some bytes after it the next part can be read. -/
def Completable (read : Reader α) : Prop :=
  ∀ b, ∃ ext a r, ∀ total, read total (b ++ ext) = .ok (a, r)

theorem completable_ok (a : α) : Completable fun _ r => .ok (a, r) :=
  fun b => ⟨[], a, b ++ [], fun _ => rfl⟩

theorem completable_take (n : Nat) : Completable fun total b => take total n b := by
  intro b
  refine ⟨List.replicate n 0, (b ++ List.replicate n 0).take n, (b ++ List.replicate n 0).drop n,
    fun total => take_eq_ok_iff.2 ⟨(List.take_append_drop _ _).symm, ?_⟩⟩
  exact List.length_take_of_le (by simp)

theorem Completable.andThen (h : Completable read) (hi : Incremental read)
    (h' : ∀ a, Completable (next a)) : Completable (read.andThen next) := by
  intro b
  obtain ⟨ext, a, r, hread⟩ := h b
  obtain ⟨ext', a', r', hnext⟩ := h' a r
  obtain ⟨w, hw, hpart⟩ := hi.part (hread 0)
  refine ⟨ext ++ ext', a', r', fun total => bind_eq_ok_iff.2 ⟨(a, r ++ ext'), ?_, hnext total⟩⟩
  rw [← List.append_assoc, hw, List.append_assoc]
  exact hpart total (r ++ ext')

/-! ## Numbers and members -/

theorem readNat_eq_andThen (w : Nat) : (fun total b => readNat total w b) =
    andThen (fun total b => take total w b) fun p _ r => .ok (BigEndian.toNat p, r) := by
  funext total b
  rw [readNat, andThen]
  cases take total w b <;> rfl

theorem incremental_readNat (w : Nat) : Incremental fun total b => readNat total w b :=
  readNat_eq_andThen w ▸ (incremental_take w).andThen fun _ => incremental_ok _

theorem completable_readNat (w : Nat) : Completable fun total b => readNat total w b :=
  readNat_eq_andThen w ▸ (completable_take w).andThen (incremental_take w) fun _ => completable_ok _

theorem readMember_eq_andThen : readMember =
    andThen (fun total b => readNat total lengthWidth b) fun n total r => take total n r := by
  funext total b
  rw [readMember, andThen]
  cases readNat total lengthWidth b <;> rfl

theorem incremental_readMember : Incremental readMember :=
  readMember_eq_andThen ▸ (incremental_readNat _).andThen incremental_take

theorem completable_readMember : Completable readMember :=
  readMember_eq_andThen ▸ (completable_readNat _).andThen (incremental_readNat _) completable_take

/-! ## Whole records -/

variable {elements : Nat → Reader α}

/-- Reads a count and then as many elements. -/
def counted (elements : Nat → Reader α) : Reader α :=
  andThen (fun total b => readNat total countWidth b) elements

/-- Reads a whole record, after which nothing may be left. -/
def record (elements : Nat → Reader α) (b : Bytes) : Except DecodeError α := do
  let (n, rest) ← readCount b
  let (a, rest) ← elements n b.length rest
  finish rest
  return a

theorem record_of_lt (h : b.length < countWidth) :
    record elements b = .error (.missingHeader b.length) := by
  rw [record, readCount_of_lt h]
  rfl

theorem record_of_le (h : countWidth ≤ b.length) : record elements b =
    counted elements b.length b >>= fun q => finish q.2 >>= fun _ => .ok q.1 := by
  rw [record, readCount, if_neg (Nat.not_lt.2 h), counted, andThen]
  cases readNat b.length countWidth b <;> rfl

theorem le_of_counted {total : Nat} (h : counted elements total b = .ok (a, r)) :
    countWidth ≤ b.length := by
  obtain ⟨⟨n, s⟩, hcount, -⟩ := bind_eq_ok_iff.1 h
  obtain ⟨rfl, -⟩ := readNat_eq_ok_iff.1 hcount
  simp

theorem record_of_error (h : countWidth ≤ b.length) (he : counted elements b.length b = .error e) :
    record elements b = .error e := by
  rw [record_of_le h, he]
  rfl

theorem record_of_rest (he : counted elements b.length b = .ok (a, r)) (hr : r ≠ []) :
    record elements b = .error (.trailingBytes r.length) := by
  rw [record_of_le (le_of_counted he), he]
  cases r with
  | nil => exact absurd rfl hr
  | cons x r => rfl

theorem record_eq_ok_iff :
    record elements b = .ok a ↔ counted elements b.length b = .ok (a, []) := by
  constructor
  · intro h
    by_cases hlen : b.length < countWidth
    · rw [record_of_lt hlen] at h
      cases h
    · rw [record_of_le (Nat.le_of_not_lt hlen)] at h
      obtain ⟨⟨a', r⟩, hread, h⟩ := bind_eq_ok_iff.1 h
      obtain ⟨u, hfinish, h⟩ := bind_eq_ok_iff.1 h
      obtain rfl : r = [] := finish_eq_ok_iff.1 hfinish
      obtain rfl : a' = a := Except.ok.inj h
      exact hread
  · intro h
    rw [record_of_le (le_of_counted h), h]
    rfl

section

variable (h : ∀ n, Incremental (elements n))
include h

theorem incremental_counted : Incremental (counted elements) := (incremental_readNat _).andThen h

/-- What is read at the head of a buffer is a record. -/
theorem record_of_counted {total : Nat} (hread : counted elements total b = .ok (a, r)) :
    ∃ w, record elements w = .ok a ∧ b = w ++ r := by
  obtain ⟨w, rfl, hw⟩ := (incremental_counted h).part hread
  have hwhole := hw w.length []
  rw [List.append_nil] at hwhole
  exact ⟨w, record_eq_ok_iff.2 hwhole, rfl⟩

theorem cutShort_record (hb : record elements b = .ok a) (hp : p <+: b) (hne : p ≠ b)
    (hlen : countWidth ≤ p.length) : CutShort p.length (record elements p) := by
  have hi := incremental_counted h
  have hread := record_eq_ok_iff.1 hb
  obtain ⟨q, rfl⟩ := hp
  cases hpart : counted elements p.length p with
  | error e =>
    obtain ⟨needed, rfl, hlt, -⟩ := hi.cut hpart (Nat.le_refl _) hread
    exact ⟨needed, hlt, record_of_error hlen hpart⟩
  | ok s =>
    -- then the rest of the record would be left over
    obtain ⟨a', r⟩ := s
    obtain ⟨w, rfl, hw⟩ := hi.part hpart
    rw [List.append_assoc, hw] at hread
    obtain ⟨-, hrest⟩ := Prod.mk.inj (Except.ok.inj hread)
    obtain ⟨-, rfl⟩ := List.append_eq_nil_iff.1 hrest
    exact absurd (List.append_nil _).symm hne

theorem record_append (hb : record elements b = .ok a) (hr : r ≠ []) :
    record elements (b ++ r) = .error (.trailingBytes r.length) := by
  obtain ⟨w, hw, hpart⟩ := (incremental_counted h).part (record_eq_ok_iff.1 hb)
  obtain rfl : b = w := by rw [hw, List.append_nil]
  exact record_of_rest (hpart _ r) hr

/-- Records tell their own length. -/
theorem selfDelimiting_record : SelfDelimiting (record elements) where
  cut := cutShort_record h
  trailing := record_append h

/-- A reading that is cut short asks for no more bytes than any record has of which the buffer is a
beginning. -/
theorem needed_le {needed available : Nat}
    (hp : record elements p = .error (.truncated needed available))
    (hb : record elements b = .ok a) (hpre : p <+: b) : needed ≤ b.length := by
  have hread := record_eq_ok_iff.1 hb
  obtain ⟨q, rfl⟩ := hpre
  by_cases hlen : p.length < countWidth
  · rw [record_of_lt hlen] at hp
    cases hp
  · cases hpart : counted elements p.length p with
    | error e =>
      rw [record_of_error (Nat.le_of_not_lt hlen) hpart] at hp
      obtain rfl := Except.error.inj hp
      obtain ⟨needed', he, -, hle⟩ := (incremental_counted h).cut hpart (Nat.le_refl _) hread
      cases he
      rwa [List.length_append]
    | ok s =>
      obtain ⟨a', r⟩ := s
      cases r with
      | nil =>
        rw [record_eq_ok_iff.2 hpart] at hp
        cases hp
      | cons x r =>
        rw [record_of_rest hpart (List.cons_ne_nil x r)] at hp
        cases hp

/-- **What a buffer can be**, if its beginning can always be completed: too short for a count, a
record, a proper beginning of one, or a record with bytes after it. -/
theorem record_cases (hc : ∀ n, Completable (elements n)) (b : Bytes) :
    b.length < countWidth ∨ (∃ a, record elements b = .ok a) ∨
      (countWidth ≤ b.length ∧ ∃ w a, record elements w = .ok a ∧ b <+: w ∧ b ≠ w) ∨
      ∃ w a r, record elements w = .ok a ∧ r ≠ [] ∧ b = w ++ r := by
  by_cases hlen : b.length < countWidth
  · exact .inl hlen
  refine .inr ?_
  cases hread : counted elements b.length b with
  | ok q =>
    obtain ⟨a, r⟩ := q
    obtain ⟨w, hw, hb⟩ := record_of_counted h hread
    cases r with
    | nil => exact .inl ⟨a, record_eq_ok_iff.2 hread⟩
    | cons x r => exact .inr (.inr ⟨w, a, x :: r, hw, List.cons_ne_nil x r, hb⟩)
  | error e =>
    have hcompletable : Completable (counted elements) :=
      (completable_readNat _).andThen (incremental_readNat _) hc
    obtain ⟨ext, a, r, hext⟩ := hcompletable b
    obtain ⟨needed, -, hlt, hle⟩ := (incremental_counted h).cut hread (Nat.le_refl _) (hext 0)
    obtain ⟨w, hw, hb⟩ := record_of_counted h (hext 0)
    have hwlen := congrArg List.length hb
    rw [List.length_append, List.length_append] at hwlen
    have hpre : b <+: w :=
      List.prefix_of_prefix_length_le (List.prefix_append b ext) ⟨r, hb.symm⟩ (by omega)
    refine .inr (.inl ⟨Nat.le_of_not_lt hlen, w, a, hw, hpre, ?_⟩)
    rintro rfl
    omega

end

end Reader

end Layout

open Layout

/-! ## The readers of collections -/

namespace Members

theorem decode_eq_record : decode = Reader.record fun n total r => readAll total n r := rfl

theorem readAll_succ_eq_andThen (n : Nat) : (fun total b => readAll total (n + 1) b) =
    Reader.andThen readMember fun m => Reader.andThen (fun total b => readAll total n b)
      fun ms _ r => .ok (m :: ms, r) := by
  funext total b
  rfl

theorem incremental_readAll (n : Nat) : Reader.Incremental fun total b => readAll total n b := by
  induction n with
  | zero => exact Reader.incremental_ok []
  | succ n ih =>
    rw [readAll_succ_eq_andThen]
    exact Reader.incremental_readMember.andThen fun _ => ih.andThen fun _ => Reader.incremental_ok _

/-- Any number of members can be completed: what is missing is made up. -/
theorem completable_readAll (n : Nat) : Reader.Completable fun total b => readAll total n b := by
  induction n with
  | zero => exact Reader.completable_ok []
  | succ n ih =>
    rw [readAll_succ_eq_andThen]
    refine Reader.completable_readMember.andThen Reader.incremental_readMember fun _ => ?_
    exact ih.andThen (incremental_readAll n) fun _ => Reader.completable_ok _

theorem selfDelimiting_decode : SelfDelimiting decode :=
  decode_eq_record ▸ Reader.selfDelimiting_record incremental_readAll

theorem selfDelimiting_decodeDistinct : SelfDelimiting decodeDistinct :=
  selfDelimiting_decode.bind _

end Members

namespace Ranking

theorem readScore_eq_andThen : readScore =
    Reader.andThen (fun total b => readNat total 8 b) fun n _ r =>
      if (⟨UInt64.ofNat n⟩ : Score).isNaN then .error .invalidScore
      else .ok (⟨UInt64.ofNat n⟩, r) := rfl

theorem incremental_readScore : Reader.Incremental readScore := by
  rw [readScore_eq_andThen]
  exact (Reader.incremental_readNat 8).andThen fun _ =>
    (Reader.incremental_error _).ite (Reader.incremental_ok _)

theorem readAll_succ_eq_andThen (previous : Option ScoredMember) (n : Nat) :
    (fun total b => readAll total previous (n + 1) b) =
      Reader.andThen readScore fun score => Reader.andThen readMember fun m =>
        fun total r => if mayFollow previous ⟨score, m⟩ then
          Reader.andThen (fun total b => readAll total (some ⟨score, m⟩) n b)
            (fun l _ r => .ok (⟨score, m⟩ :: l, r)) total r
        else .error .unsorted := rfl

theorem incremental_readAll (previous : Option ScoredMember) (n : Nat) :
    Reader.Incremental fun total b => readAll total previous n b := by
  induction n generalizing previous with
  | zero => exact Reader.incremental_ok []
  | succ n ih =>
    rw [readAll_succ_eq_andThen]
    refine incremental_readScore.andThen fun score =>
      Reader.incremental_readMember.andThen fun m => ?_
    refine Reader.Incremental.ite ?_ (Reader.incremental_error _)
    exact (ih _).andThen fun _ => Reader.incremental_ok _

theorem decode_eq_record : decode = Reader.record fun n total r => readAll total none n r := rfl

theorem selfDelimiting_decode : SelfDelimiting decode :=
  decode_eq_record ▸ Reader.selfDelimiting_record (incremental_readAll none)

end Ranking

end Keyspace
