import Keyspace.Proofs.Record.Shape
import Keyspace.Proofs.Store.Requests
import Keyspace.Store.Opening
import Mathlib.Algebra.Group.Int.Defs

/-!
# Counters and collections do not get mixed up

`counters_apart_from_collections`: a command on lists, sets or sorted sets fails on a counter, and a
command on counters fails on the record of a list, a set or a sorted set. In either case all records
stay as they are.

That the bytes of the one are rejected by the reader of the other is shown of the records
(`Shape.rejects_of_lt`, `Shape.rejects_of_isText`, `Shape.Records.decode_counter`). A change or a
query wants its value in one `Shape`, and fails if the bytes are rejected as that
(`Change.apply_of_rejects`, `Query.answer_of_rejects`); so does then the command on the store
(`Store.Finds.fails`).
-/

namespace Keyspace

/-! ## What commands want of a value -/

/-- A value that cannot be read is the failure of the reading command. -/
theorem Value.read_of_error {α : Type} {decode : Bytes → Except DecodeError α} {b : Bytes}
    {e : DecodeError} (h : decode b = .error e) (access : Access) (key : Bytes) :
    Value.read decode access key (some b) = .error (e.toError key access) := by
  rw [Value.read, h]

/-- The shape that a change wants the value in, if it is one of collections. -/
def Change.shape? : Change → Option Shape
  | lpush _ | rpush _ | lpop | rpop | lset .. => some .sequence
  | sadd _ | srem _ => some .set
  | zadd .. | zrem _ => some .ranking
  | set _ | append _ | incr | decr | incrBy _ | decrBy _ => none

/-- The shape that a query wants the value in, if it is one about collections. -/
def Query.shape? : Query → Option Shape
  | get | isPresent => none
  | lindex _ | lrange .. | llen => some .sequence
  | smembers | sismember _ | scard => some .set
  | zrange .. | zrangeWithScores .. | zcount .. | zscore _ | zcard => some .ranking

/-- The changes that move a counter. -/
inductive Change.Moves : Change → Prop
  | incr : Moves .incr
  | decr : Moves .decr
  | incrBy (delta : Int) : Moves (.incrBy delta)
  | decrBy (delta : Int) : Moves (.decrBy delta)

section Rejected

variable {shape : Shape} {b : Bytes} {e : DecodeError}

theorem Change.apply_of_rejects {ch : Change} (hch : ch.shape? = some shape)
    (h : shape.Rejects b e) (key : Bytes) : ch.apply key (some b) = .error .wrongType := by
  cases ch with
  | set | append | incr | decr | incrBy | decrBy => cases hch
  | lpush | rpush | lpop | rpop | lset =>
    cases hch
    have hread : Sequence.read .write key (some b) = .error .wrongType := Value.read_of_error h _ _
    simp only [apply, Sequence.push, Sequence.pop, Sequence.assign, hread]
    rfl
  | sadd | srem =>
    cases hch
    have hread : MemberSet.read .write key (some b) = .error .wrongType := Value.read_of_error h _ _
    simp only [apply, MemberSet.add, MemberSet.remove, hread]
    rfl
  | zadd | zrem =>
    cases hch
    have hread : SortedSet.read .write key (some b) = .error .wrongType := Value.read_of_error h _ _
    simp only [apply, SortedSet.add, SortedSet.remove, hread]
    rfl

theorem Query.answer_of_rejects {q : Query} (hq : q.shape? = some shape)
    (h : shape.Rejects b e) (key : Bytes) :
    q.answer key (some b) = .error (e.toError key .read) := by
  cases q with
  | get | isPresent => cases hq
  | lindex | lrange | llen =>
    cases hq
    have hread : Sequence.read .read key (some b) = _ := Value.read_of_error h _ _
    simp only [answer, Sequence.element, Sequence.range, Sequence.length, hread]
    rfl
  | smembers | sismember | scard =>
    cases hq
    have hread : MemberSet.read .read key (some b) = _ := Value.read_of_error h _ _
    simp only [answer, MemberSet.members, MemberSet.contains, MemberSet.card, hread]
    rfl
  | zrange | zrangeWithScores | zcount | zscore | zcard =>
    cases hq
    have hread : SortedSet.read .read key (some b) = _ := Value.read_of_error h _ _
    simp only [answer, SortedSet.range, SortedSet.count, SortedSet.score, SortedSet.card, hread]
    rfl

theorem Change.apply_of_moves {ch : Change} (hch : ch.Moves) (h : Counter.decode b = none)
    (key : Bytes) : ch.apply key (some b) = .error .notInteger := by
  have hread : Text.counter (some b) = .error .notInteger := by rw [Text.counter, h]
  cases hch <;>
  · simp only [apply, Text.update, hread]
    rfl

theorem Change.Moves.shortcut {ch : Change} (h : ch.Moves) :
    (KeyCommand.change ch).shortcut = none := by
  cases h <;> rfl

end Rejected

/-! ## Commands that fail on what they find -/

namespace Store

variable {s : Store} {c : Call} {key b : Bytes} {e : Error}

/-- The call gets through to the key, which it finds live with this value. -/
structure Finds (s : Store) (c : Call) (key b : Bytes) : Prop where
  isKey : checkKey key = .ok ()
  gate : s.refusal c = none
  pending : c.pendingInterruption = none
  readable : (s.storage.slot c.db key).isMalformed = false
  live : (s.storage.slot c.db key).isExpired c.clock.seconds = false
  value : (s.storage.slot c.db key).value = some b

/-- The command answers with this failure and changes no record. -/
structure Fails (s : Store) (c : Call) (key : Bytes) (k : KeyCommand) (e : Error) : Prop where
  answer : (s.perform c (.onKey key k)).answer = .error e
  records : Storage.SameRecords (s.perform c (.onKey key k)).store.storage s.storage

/-- A command whose body fails does no more than to make sure of its table. -/
theorem fails_of_run {k : KeyCommand} (hkey : checkKey key = .ok ()) (hshort : k.shortcut = none)
    (hgate : s.refusal c = none) (hpending : c.pendingInterruption = none)
    (hrun : k.run key c.clock (s.storage.slot c.db key) = .error e) : s.Fails c key k e := by
  have hperform : s.perform c (.onKey key k) = ⟨.error e, s.ready c.db, c.interludes.total⟩ := by
    rw [perform_onKey hkey hshort hgate hpending, hrun]
  constructor
  · rw [hperform]
  · rw [hperform]
    exact Storage.sameRecords_addTable s.storage c.db

namespace Finds

theorem settle (h : s.Finds c key b) :
    (s.storage.slot c.db key).settle key c.clock.seconds = .ok (s.storage.slot c.db key) := by
  rw [Slot.settle_eq_live h.readable, Slot.live_of_not_isExpired h.live]

theorem fails (h : s.Finds c key b) {k : KeyCommand} (hshort : k.shortcut = none)
    (hrun : k.run key c.clock (s.storage.slot c.db key) = .error e) : s.Fails c key k e :=
  fails_of_run h.isKey hshort h.gate h.pending hrun

theorem fails_change (h : s.Finds c key b) {ch : Change}
    (hshort : (KeyCommand.change ch).shortcut = none) (happly : ch.apply key (some b) = .error e) :
    s.Fails c key (.change ch) e := by
  refine h.fails hshort ?_
  rw [KeyCommand.run, h.settle]
  simp only [bind, Except.bind, h.value, happly]

theorem fails_query (h : s.Finds c key b) {q : Query}
    (hshort : (KeyCommand.query q).shortcut = none) (hanswer : q.answer key (some b) = .error e) :
    s.Fails c key (.query q) e := by
  refine h.fails hshort ?_
  rw [KeyCommand.run, h.settle]
  simp only [bind, Except.bind, h.value, hanswer]

end Finds

/-- **Counters and collections do not get mixed up.** The text of a counter is a record of no shape:
it has no count if it is shorter than eight bytes, and is cut short otherwise. So on a live counter,
every change of a collection finds a value of the wrong kind, and so does every query about one, or
it finds the value damaged if the text is long enough for a count. The record of a list, a set or a
sorted set with fewer than `2 ^ 56` elements is read as no counter, so on such a live value, to move
the counter fails. In both directions all records stay as they are. -/
theorem counters_apart_from_collections :
    (∀ n : Int, Counter.least ≤ n → n ≤ Counter.greatest → let b := Counter.encode n
      (∀ shape : Shape,
        (b.length < 8 → shape.Rejects b (.missingHeader b.length)) ∧
        (8 ≤ b.length →
          ∃ needed, b.length < needed ∧ shape.Rejects b (.truncated needed b.length))) ∧
      ∀ (s : Store) (c : Call) (key : Bytes), s.Finds c key b →
        (∀ ch : Change, ch.shape?.isSome → (KeyCommand.change ch).shortcut = none →
          s.Fails c key (.change ch) .wrongType) ∧
        ∀ q : Query, q.shape?.isSome → (KeyCommand.query q).shortcut = none →
          (b.length < 8 → s.Fails c key (.query q) .wrongType) ∧
          (8 ≤ b.length → ∃ needed, b.length < needed ∧ s.Fails c key (.query q)
            (.damaged key (DecodeError.truncated needed b.length).message))) ∧
    ∀ (shape : Shape) (b : Bytes), shape.Records b → Counter.decode b = none ∧
      ∀ (s : Store) (c : Call) (key : Bytes), s.Finds c key b →
        ∀ ch : Change, ch.Moves → s.Fails c key (.change ch) .notInteger := by
  constructor
  · intro n hle hge b
    have htext : Counter.IsText b := Counter.isText_encode hle hge
    have hshort := fun (shape : Shape) (h : b.length < 8) => shape.rejects_of_lt h
    have hlong := fun (shape : Shape) (h : 8 ≤ b.length) => shape.rejects_of_isText htext h
    refine ⟨fun shape => ⟨hshort shape, hlong shape⟩, fun s c key hfinds => ⟨?_, ?_⟩⟩
    · intro ch hch hdecided
      obtain ⟨shape, hshape⟩ := Option.isSome_iff_exists.1 hch
      refine hfinds.fails_change hdecided ?_
      rcases Nat.lt_or_ge b.length 8 with hlt | hge
      · exact Change.apply_of_rejects hshape (hshort shape hlt) key
      · obtain ⟨needed, -, hrejects⟩ := hlong shape hge
        exact Change.apply_of_rejects hshape hrejects key
    · intro q hq hdecided
      obtain ⟨shape, hshape⟩ := Option.isSome_iff_exists.1 hq
      constructor
      · intro hlt
        exact hfinds.fails_query hdecided (Query.answer_of_rejects hshape (hshort shape hlt) key)
      · intro hge
        obtain ⟨needed, hneeded, hrejects⟩ := hlong shape hge
        exact ⟨needed, hneeded,
          hfinds.fails_query hdecided (Query.answer_of_rejects hshape hrejects key)⟩
  · intro shape b hrecords
    have hdecode := hrecords.decode_counter
    refine ⟨hdecode, fun s c key hfinds ch hch => ?_⟩
    exact hfinds.fails_change hch.shortcut (Change.apply_of_moves hch hdecode key)

/-- A short counter, a long one, and the set without members that a writer of the disk left. -/
theorem counters_apart_from_collections_three :
    let storage := Storage.empty.setSlot 0 [97] ⟨some (Counter.encode (-42)), none⟩
      |>.setSlot 0 [98] ⟨some (Counter.encode (2 ^ 63 - 1)), none⟩
      |>.setSlot 0 [99] ⟨some (List.replicate 8 0), some (Deadline.encode ⟨9, 1⟩)⟩
    let s : Store := .fresh {} storage
    let c : Call := .alone 0 ⟨5000, 0⟩ .none
    s.Finds c [97] (Counter.encode (-42)) ∧ s.Finds c [98] (Counter.encode (2 ^ 63 - 1)) ∧
      s.Finds c [99] (List.replicate 8 0) ∧
      s.Fails c [97] (.change (.lpush [0])) .wrongType ∧
      s.Fails c [97] (.query .zcard) .wrongType ∧
      s.Fails c [98] (.change (.srem [0])) .wrongType ∧
      (∃ needed, s.Fails c [98] (.query .smembers)
        (.damaged [98] (DecodeError.truncated needed 19).message)) ∧
      s.Fails c [99] (.change (.decrBy 7)) .notInteger := by
  intro storage s c
  have hshort : s.Finds c [97] (Counter.encode (-42)) :=
    ⟨rfl, by rfl, rfl, by decide, by decide, by decide⟩
  have hlong : s.Finds c [98] (Counter.encode (2 ^ 63 - 1)) :=
    ⟨rfl, by rfl, rfl, by decide, by decide, by decide⟩
  have hset : s.Finds c [99] (List.replicate 8 0) :=
    ⟨rfl, by rfl, rfl, by decide, by decide, by decide⟩
  obtain ⟨hcounters, hcollections⟩ := counters_apart_from_collections
  obtain ⟨-, h⟩ := hcounters (-42) (by decide) (by decide)
  obtain ⟨-, h'⟩ := hcounters (2 ^ 63 - 1) (by decide) (by decide)
  have hrecords : Shape.set.Records (List.replicate 8 0) := .set .nil (by decide) rfl
  obtain ⟨hchange, hquery⟩ := h s c [97] hshort
  obtain ⟨hchange', hquery'⟩ := h' s c [98] hlong
  refine ⟨hshort, hlong, hset, hchange _ rfl rfl, (hquery _ rfl rfl).1 (by decide),
    hchange' _ rfl rfl, ?_, (hcollections _ _ hrecords).2 s c [99] hset _ (.decrBy 7)⟩
  obtain ⟨needed, -, hfails⟩ := (hquery' .smembers rfl rfl).2 (by decide)
  exact ⟨needed, hfails⟩

end Store

end Keyspace
