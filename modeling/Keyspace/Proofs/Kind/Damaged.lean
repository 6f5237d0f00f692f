import Keyspace.Proofs.Kind
import Keyspace.Proofs.Kind.Apart
import Keyspace.Proofs.Record.Readers
import Mathlib.Algebra.Group.Nat.Defs

/-!
# Damage told from values of another kind

A query about a collection takes a record that is cut short for damage, and everything else that it
cannot read for a value of another kind. `readings_classified` says that this is decided exactly:
what is read as a member sequence is cut short if and only if it is a proper beginning of a record
(`Members.IsCut`), and has trailing bytes if and only if it is a record with more behind it
(`Members.IsTrailed`). The two do not overlap, for records tell their own length, and with the
records themselves they are all buffers that are long enough for a count (`Members.reads`).
-/

namespace Keyspace

open Layout

/-! ## What a buffer can be -/

namespace Members

variable {b w r : Bytes} {ms : List Bytes} {n : Nat}

/-- The buffer is what writing gives for members that can be counted and are not too long. -/
def IsRecord (b : Bytes) : Prop :=
  ∃ ms : List Bytes, ms.length < 2 ^ 64 ∧ (∀ m ∈ ms, m.length ≤ 2 ^ 32 - 1) ∧ encode ms = .ok b

/-- The buffer has a count, but is only a beginning of a record. -/
def IsCut (b : Bytes) : Prop := 8 ≤ b.length ∧ ∃ w, IsRecord w ∧ b <+: w ∧ b ≠ w

/-- The buffer is a record and then `n` bytes more. -/
def IsTrailed (n : Nat) (b : Bytes) : Prop :=
  1 ≤ n ∧ ∃ w r, IsRecord w ∧ b = w ++ r ∧ r.length = n

/-- The buffer has one of the three defects. -/
def IsUnread (b : Bytes) : Prop := b.length < 8 ∨ IsCut b ∨ ∃ n, IsTrailed n b

theorem isRecord_iff : IsRecord b ↔ ∃ ms, decode b = .ok ms := by
  constructor
  · rintro ⟨ms, hlt, -, henc⟩
    exact ⟨ms, (decode_eq_ok_iff hlt).2 henc⟩
  · rintro ⟨ms, h⟩
    have hlt := length_lt_of_decode h
    have henc := (decode_eq_ok_iff hlt).1 h
    exact ⟨ms, hlt, exists_encode_iff.1 ⟨b, henc⟩, henc⟩

theorem decode_of_lt (h : b.length < 8) : decode b = .error (.missingHeader b.length) :=
  Shape.rejects_of_lt h .sequence

theorem IsCut.cutShort (h : IsCut b) : CutShort b.length (decode b) := by
  obtain ⟨hlen, w, hw, hpre, hne⟩ := h
  obtain ⟨ms, hms⟩ := isRecord_iff.1 hw
  exact selfDelimiting_decode.cut hms hpre hne hlen

theorem IsTrailed.decode_eq (h : IsTrailed n b) : decode b = .error (.trailingBytes n) := by
  obtain ⟨hn, w, r, hw, rfl, rfl⟩ := h
  obtain ⟨ms, hms⟩ := isRecord_iff.1 hw
  refine selfDelimiting_decode.trailing hms ?_
  rintro rfl
  cases hn

theorem needed_le {needed available : Nat} (h : decode b = .error (.truncated needed available))
    (hw : IsRecord w) (hpre : b <+: w) : needed ≤ w.length := by
  obtain ⟨ms, hms⟩ := isRecord_iff.1 hw
  exact Reader.needed_le incremental_readAll h hms hpre

/-- What can come of reading a buffer, and what the buffer is then. -/
inductive Reads (b : Bytes) : Except DecodeError (List Bytes) → Prop
  | short (h : b.length < 8) : Reads b (.error (.missingHeader b.length))
  | cut {needed : Nat} (h : IsCut b) (hlt : b.length < needed) :
    Reads b (.error (.truncated needed b.length))
  | trailed {n : Nat} (h : IsTrailed n b) : Reads b (.error (.trailingBytes n))
  | whole {ms : List Bytes} (h : IsRecord b) : Reads b (.ok ms)

theorem reads (b : Bytes) : Reads b (decode b) := by
  have hcases := Reader.record_cases incremental_readAll completable_readAll b
  rw [← decode_eq_record] at hcases
  rcases hcases with hshort | ⟨ms, hms⟩ | ⟨hlen, w, ms, hw, hpre, hne⟩ | ⟨w, ms, r, hw, hr, rfl⟩
  · rw [decode_of_lt hshort]
    exact .short hshort
  · rw [hms]
    exact .whole (isRecord_iff.2 ⟨ms, hms⟩)
  · have hcut : IsCut b := ⟨hlen, w, isRecord_iff.2 ⟨ms, hw⟩, hpre, hne⟩
    obtain ⟨needed, hlt, hread⟩ := hcut.cutShort
    rw [hread]
    exact .cut hcut hlt
  · have htrailed : IsTrailed r.length (w ++ r) :=
      ⟨List.length_pos_of_ne_nil hr, w, r, isRecord_iff.2 ⟨ms, hw⟩, rfl, rfl⟩
    rw [htrailed.decode_eq]
    exact .trailed htrailed

theorem reads_of_eq {x : Except DecodeError (List Bytes)} (h : decode b = x) : Reads b x :=
  h ▸ reads b

theorem decode_eq_missingHeader_iff :
    decode b = .error (.missingHeader n) ↔ b.length < 8 ∧ n = b.length := by
  constructor
  · intro h
    cases reads_of_eq h with
    | short hshort => exact ⟨hshort, rfl⟩
  · rintro ⟨hshort, rfl⟩
    exact decode_of_lt hshort

theorem decode_eq_trailingBytes_iff : decode b = .error (.trailingBytes n) ↔ IsTrailed n b := by
  constructor
  · intro h
    cases reads_of_eq h with
    | trailed htrailed => exact htrailed
  · exact IsTrailed.decode_eq

theorem isCut_of_truncated {needed available : Nat}
    (h : decode b = .error (.truncated needed available)) :
    IsCut b ∧ available = b.length ∧ b.length < needed := by
  cases reads_of_eq h with
  | cut hcut hlt => exact ⟨hcut, rfl, hlt⟩

theorem truncated_iff :
    (∃ needed available, decode b = .error (.truncated needed available)) ↔ IsCut b := by
  constructor
  · rintro ⟨needed, available, h⟩
    exact (isCut_of_truncated h).1
  · intro h
    obtain ⟨needed, -, hread⟩ := h.cutShort
    exact ⟨needed, b.length, hread⟩

theorem isUnread_iff : IsUnread b ↔ ∃ e, decode b = .error e := by
  constructor
  · rintro (hshort | hcut | ⟨n, htrailed⟩)
    · exact ⟨_, decode_of_lt hshort⟩
    · obtain ⟨needed, -, hread⟩ := hcut.cutShort
      exact ⟨_, hread⟩
    · exact ⟨_, htrailed.decode_eq⟩
  · rintro ⟨e, h⟩
    cases reads_of_eq h with
    | short hshort => exact .inl hshort
    | cut hcut => exact .inr (.inl hcut)
    | trailed htrailed => exact .inr (.inr ⟨_, htrailed⟩)

theorem exists_decode_iff : (∃ ms, decode b = .ok ms) ↔ ¬ IsUnread b := by
  rw [isUnread_iff]
  cases decode b <;> simp

end Members

/-! ## Commands on lists -/

theorem Query.answer_of_decode {q : Query} {b : Bytes} {ms : List Bytes}
    (hq : q.shape? = some .sequence) (h : Members.decode b = .ok ms) (key : Bytes) :
    ∃ r, q.answer key (some b) = .ok r := by
  have hread : Sequence.read .read key (some b) = .ok (some ms) := by
    rw [Sequence.read, Value.read, h]
  cases q with
  | lindex i => exact ⟨_, by rw [answer, Sequence.element, hread]; rfl⟩
  | lrange start stop => exact ⟨_, by rw [answer, Sequence.range, hread]; rfl⟩
  | llen => exact ⟨_, by rw [answer, Sequence.length, hread]; rfl⟩
  | _ => cases hq

theorem Query.shortcut_of_sequence {q : Query} (hq : q.shape? = some .sequence) :
    (KeyCommand.query q).shortcut = none := by
  cases q <;> cases hq <;> rfl

theorem Change.shortcut_of_sequence {ch : Change} (hch : ch.shape? = some .sequence) :
    (KeyCommand.change ch).shortcut = none := by
  cases ch <;> cases hch <;> rfl

/-- What interrupts a request is no fault of what is stored. -/
theorem Call.lateInterruption_isCancellation {c : Call} {e : Error}
    (h : c.lateInterruption = some e) : e.isCancellation = true := by
  unfold lateInterruption interruptionAfter Keyspace.interruption at h
  split at h
  · cases h
    rfl
  · split at h
    · obtain ⟨-, h⟩ := Option.ite_none_right_eq_some.1 h
      cases h
      rfl
    · cases h

namespace Store

variable {s : Store} {c : Call} {key b : Bytes}

/-- A query that has an answer fails only if it is interrupted, or does not find what it gets. -/
theorem Finds.answer_query (h : s.Finds c key b) {q : Query}
    (hshort : (KeyCommand.query q).shortcut = none) (hq : q ≠ .get) {r : Reply}
    (hanswer : q.answer key (some b) = .ok r) :
    s.answer c key (.query q) = .ok r ∨
      ∃ e, e.isCancellation = true ∧ s.answer c key (.query q) = .error e := by
  have hfinish : (KeyCommand.query q).finish r = .ok r :=
    if_neg fun hk => hq (KeyCommand.query.inj hk.1)
  have hrun : (KeyCommand.query q).run key c.clock (s.storage.slot c.db key) =
      .ok (r, s.storage.slot c.db key) := by
    rw [KeyCommand.run, h.settle]
    simp only [bind, Except.bind, h.value, hanswer]
    rfl
  rw [answer, perform_onKey h.isKey hshort h.gate h.pending, hrun]
  cases hlate : c.lateInterruption with
  | none => exact .inl hfinish
  | some e => exact .inr ⟨e, Call.lateInterruption_isCancellation hlate, rfl⟩

/-- A query about a list fails as the reading of the value does, or is interrupted. -/
theorem Finds.answer_eq_error_iff (h : s.Finds c key b) {q : Query}
    (hq : q.shape? = some .sequence) {e : Error} (he : e.isCancellation = false) :
    s.answer c key (.query q) = .error e ↔
      ∃ e', Members.decode b = .error e' ∧ e'.toError key .read = e := by
  have hshort := Query.shortcut_of_sequence hq
  cases hread : Members.decode b with
  | error e' =>
    have hfails := h.fails_query hshort (Query.answer_of_rejects hq hread key)
    rw [answer, hfails.answer]
    simp only [Except.error.injEq, exists_eq_left']
  | ok ms =>
    obtain ⟨r, hr⟩ := Query.answer_of_decode hq hread key
    have hget : q ≠ .get := by
      rintro rfl
      cases hq
    constructor
    · intro hanswer
      rcases h.answer_query hshort hget hr with hok | ⟨e', he', hcancel⟩
      · rw [hok] at hanswer
        cases hanswer
      · rw [hcancel] at hanswer
        cases hanswer
        rw [he] at he'
        cases he'
    · rintro ⟨e', h, -⟩
      cases h

theorem Finds.corrupt_iff (h : s.Finds c key b) {q : Query} (hq : q.shape? = some .sequence) :
    (∃ k why, s.answer c key (.query q) = .error (.corrupt k why)) ↔ Members.IsCut b := by
  rw [← Members.truncated_iff]
  constructor
  · rintro ⟨k, why, hanswer⟩
    obtain ⟨e, hread, he⟩ := (h.answer_eq_error_iff hq rfl).1 hanswer
    cases e with
    | truncated needed available => exact ⟨needed, available, hread⟩
    | _ => cases he
  · rintro ⟨needed, available, hread⟩
    exact ⟨_, _, (h.answer_eq_error_iff hq rfl).2 ⟨_, hread, rfl⟩⟩

theorem Finds.wrongType_iff (h : s.Finds c key b) {q : Query} (hq : q.shape? = some .sequence) :
    s.answer c key (.query q) = .error .wrongType ↔
      b.length < 8 ∨ ∃ n, Members.IsTrailed n b := by
  rw [h.answer_eq_error_iff hq rfl]
  constructor
  · rintro ⟨e, hread, he⟩
    cases Members.reads_of_eq hread with
    | short hshort => exact .inl hshort
    | cut => cases he
    | trailed htrailed => exact .inr ⟨_, htrailed⟩
  · rintro (hshort | ⟨n, htrailed⟩)
    · exact ⟨_, Members.decode_of_lt hshort, rfl⟩
    · exact ⟨_, htrailed.decode_eq, rfl⟩

/-- **Readings are classified exactly.** A buffer is read as a member sequence if it is none of
these: shorter than a count; a proper beginning of a record, in which case it is truncated, and no
more bytes are asked for than any record has that the buffer is a beginning of; a record with bytes
after it. A query about a list on a live value answers that the value is damaged exactly in the
second of these cases and that it is of the wrong kind in the two others, whereas a change of a list
fails for a value of the wrong kind in all three. Sets and sorted sets tell their own length as
well. -/
theorem readings_classified :
    (∀ b : Bytes,
      (∀ n, Members.decode b = .error (.missingHeader n) ↔ b.length < 8 ∧ n = b.length) ∧
      ((∃ needed available, Members.decode b = .error (.truncated needed available)) ↔
        Members.IsCut b) ∧
      (∀ needed available, Members.decode b = .error (.truncated needed available) →
        available = b.length ∧ b.length < needed ∧
          ∀ w, Members.IsRecord w → b <+: w → needed ≤ w.length) ∧
      (∀ n, Members.decode b = .error (.trailingBytes n) ↔ Members.IsTrailed n b) ∧
      ((∃ ms, Members.decode b = .ok ms) ↔ ¬ Members.IsUnread b)) ∧
    (∀ (s : Store) (c : Call) (key b : Bytes), s.Finds c key b →
      (∀ q : Query, q.shape? = some .sequence →
        ((∃ k why, s.answer c key (.query q) = .error (.corrupt k why)) ↔ Members.IsCut b) ∧
        (s.answer c key (.query q) = .error .wrongType ↔
          b.length < 8 ∨ ∃ n, Members.IsTrailed n b)) ∧
      ∀ ch : Change, ch.shape? = some .sequence → Members.IsUnread b →
        s.Fails c key (.change ch) .wrongType) ∧
    SelfDelimiting Members.decodeDistinct ∧ SelfDelimiting Ranking.decode := by
  refine ⟨fun b => ⟨?_, ?_, ?_, ?_, ?_⟩,
    fun s c key b h => ⟨fun q hq => ⟨h.corrupt_iff hq, h.wrongType_iff hq⟩, ?_⟩,
    Members.selfDelimiting_decodeDistinct, Ranking.selfDelimiting_decode⟩
  · exact fun _ => Members.decode_eq_missingHeader_iff
  · exact Members.truncated_iff
  · intro needed available hread
    obtain ⟨-, havailable, hlt⟩ := Members.isCut_of_truncated hread
    exact ⟨havailable, hlt, fun _ => Members.needed_le hread⟩
  · exact fun _ => Members.decode_eq_trailingBytes_iff
  · exact Members.exists_decode_iff
  · intro ch hch hunread
    obtain ⟨e, hread⟩ := Members.isUnread_iff.1 hunread
    exact h.fails_change (Change.shortcut_of_sequence hch) (Change.apply_of_rejects hch hread key)

/-- A list of two members that is cut within the length of the second, and a set and a sorted set
that are cut or have bytes after them. -/
theorem readings_classified_cut :
    let b : Bytes := [0, 0, 0, 0, 0, 0, 0, 2, 0, 0, 0, 1, 97, 0, 0]
    let member : Bytes := [0, 0, 0, 0, 0, 0, 0, 1, 0, 0, 0, 1, 97]
    let scored : Bytes := [0, 0, 0, 0, 0, 0, 0, 1, 64, 20, 0, 0, 0, 0, 0, 0, 0, 0, 0, 1, 97]
    let s : Store := .fresh {} (Storage.empty.setSlot 0 [107] ⟨some b, none⟩)
    let c : Call := .alone 0 ⟨5000, 0⟩ .none
    Members.decode b = .error (.truncated 17 15) ∧ Members.IsCut b ∧ s.Finds c [107] b ∧
      (∃ k why, s.answer c [107] (.query .llen) = .error (.corrupt k why)) ∧
      s.Fails c [107] (.change (.lset 0 [98])) .wrongType ∧
      (∀ w, Members.IsRecord w → b <+: w → 17 ≤ w.length) ∧
      CutShort 12 (Members.decodeDistinct (member.take 12)) ∧
      Ranking.decode (scored ++ [0, 0]) = .error (.trailingBytes 2) := by
  intro b member scored s c
  have hread : Members.decode b = .error (.truncated 17 15) := by decide
  have hfinds : s.Finds c [107] b := ⟨rfl, by rfl, rfl, by decide, by decide, by decide⟩
  have hset : Members.decodeDistinct member = .ok [[97]] := by decide
  have hzset : Ranking.decode scored = .ok [⟨⟨0x4014000000000000⟩, [97]⟩] := by decide
  obtain ⟨hbuffers, hcommands, hsets, hzsets⟩ := readings_classified
  obtain ⟨-, hcut, hneeded, -, -⟩ := hbuffers b
  obtain ⟨hqueries, hchanges⟩ := hcommands s c [107] b hfinds
  have hisCut : Members.IsCut b := hcut.1 ⟨17, 15, hread⟩
  obtain ⟨-, -, hleast⟩ := hneeded 17 15 hread
  refine ⟨hread, hisCut, hfinds, (hqueries .llen rfl).1.2 hisCut,
    hchanges (.lset 0 [98]) rfl (.inr (.inl hisCut)), hleast, ?_, ?_⟩
  · exact hsets.cut hset (List.take_prefix 12 member) (by decide) (by decide)
  · exact hzsets.trailing hzset (by decide)

end Store

end Keyspace
