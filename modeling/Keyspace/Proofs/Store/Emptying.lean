import Keyspace.Proofs.Kind
import Keyspace.Proofs.Slot.Status
import Keyspace.Store.Opening

/-!
# The emptying of a database

`flushAll_exact` says what the emptying of a database removes and counts. The values and the
deadlines are looked up before the transaction and removed one after the other in it, which comes to
clearing the database (`flushAll_eq`). What that leaves of the records is `Storage.Emptied`: the
deadlines of the database are told by the first bytes of their tags, which are those of no other
database.

Since no deadline is left behind, none comes back with a new value. A key without a deadline gets
one from a command that sets one and succeeds, and from nothing else (`deadline_of_not_limits`); so
it has none until then, whatever is asked of the store (`Unlimited.deadline`).
-/

namespace Keyspace

/-! ## What is left -/

namespace Storage

/-- The second storage is the first one without a database: its table is empty, no deadline has a
tag of it, and every other record is as it was. -/
structure Emptied (db : DbId) (s t : Storage) : Prop where
  table : t.table db = .empty
  deadline : ∀ tag, BigEndian.ofNat 4 db.toNat <+: tag → t.deadlines.get? tag = none
  otherDeadline : ∀ tag, ¬ BigEndian.ofNat 4 db.toNat <+: tag →
    t.deadlines.get? tag = s.deadlines.get? tag
  otherTree : ∀ name, tableName db ≠ name → t.tree name = s.tree name

theorem emptied_clear (db : DbId) (s : Storage) : Emptied db s ((s.addTable db).clear db) where
  table := (table_setTable _ db db _).trans (if_pos rfl)
  deadline tag h := by
    refine (get?_deadlines_dropDeadlines _ db tag).trans ?_
    rw [Deadline.isPrefixOf_iff.2 h]
    rfl
  otherDeadline tag h := by
    refine (get?_deadlines_dropDeadlines _ db tag).trans ?_
    rw [Bool.eq_false_iff.2 fun hp => h (Deadline.isPrefixOf_iff.1 hp)]
    rfl
  otherTree name h := by
    refine (tree_setTable _ db _ name).trans ?_
    rw [if_neg h]
    exact tree_addTable s db name

namespace Emptied

variable {db : DbId} {s t : Storage}

theorem size (h : Emptied db s t) : (t.table db).size = 0 := by
  rw [h.table]
  rfl

theorem deadline_slot (h : Emptied db s t) (key : Bytes) : (t.slot db key).deadline = none :=
  h.deadline _ ⟨key, rfl⟩

end Emptied

end Storage

namespace Store

variable {s : Store} {c : Call}

/-! ## What is answered -/

/-- To empty a database is a transaction. -/
theorem perform_flushAll (s : Store) (c : Call) :
    s.perform c .flushAll = (s.run c fun storage =>
      .ok ((storage.table c.db).size, storage.clear c.db)).andThen fun n => .ok (.count n) := by
  rw [perform, flushAll_eq]

/-- What comes of emptying a database if nothing interrupts it. -/
theorem perform_flushAll_of_late (hgate : s.refusal c = none) (hlate : c.lateInterruption = none) :
    s.perform c .flushAll = ⟨.ok (.count (s.storage.table c.db).size),
      { s.ready c.db with storage := (s.storage.addTable c.db).clear c.db },
      c.interludes.total⟩ := by
  have htable : (s.ready c.db).storage.table c.db = s.storage.table c.db :=
    Storage.tree_addTable s.storage c.db _
  rw [perform_flushAll, run_of_late hgate hlate rfl, htable]
  rfl

/-- What comes of counting the values of a database. -/
theorem perform_dbSize (s : Store) (c : Call) :
    s.perform c .dbSize = match s.refusal c with
      | some e => ⟨.error e, s, .none⟩
      | none => ⟨.ok (.count (s.storage.table c.db).size), s.ready c.db, .none⟩ := by
  rw [perform, dbSize, enter_eq]
  cases s.refusal c with
  | some e => rfl
  | none =>
    have htable : (s.storage.addTable c.db).table c.db = s.storage.table c.db :=
      Storage.tree_addTable s.storage c.db _
    dsimp only
    rw [ready_storage, htable]
    rfl

theorem exists_ok_flushAll_iff :
    (∃ r, (s.perform c .flushAll).answer = .ok r) ↔
      s.refusal c = none ∧ c.lateInterruption = none := by
  constructor
  · rintro ⟨r, h⟩
    rw [perform_flushAll] at h
    obtain ⟨n, hn, -⟩ := Outcome.count_eq_ok_iff.1 h
    obtain ⟨hgate, hlate, -⟩ := exists_ok_run_iff.1 ⟨n, hn⟩
    exact ⟨hgate, hlate⟩
  · rintro ⟨hgate, hlate⟩
    exact ⟨_, by rw [perform_flushAll_of_late hgate hlate]⟩

/-- An emptying that succeeds counts the values that were stored. -/
theorem flushAll_of_ok {r : Reply} (h : (s.perform c .flushAll).answer = .ok r) :
    r = .count (s.storage.table c.db).size ∧
      (s.perform c .flushAll).store =
        { s.ready c.db with storage := (s.storage.addTable c.db).clear c.db } := by
  obtain ⟨hgate, hlate⟩ := exists_ok_flushAll_iff.1 ⟨r, h⟩
  rw [perform_flushAll_of_late hgate hlate] at h ⊢
  exact ⟨(Except.ok.inj h).symm, rfl⟩

/-- An emptying that fails does no more than to make sure of the table. -/
theorem flushAll_of_error {e : Error} (h : (s.perform c .flushAll).answer = .error e) :
    Storage.SameRecords (s.perform c .flushAll).store.storage s.storage := by
  rw [perform_flushAll] at h ⊢
  generalize ho : s.run c _ = o at h ⊢
  have hran : Ran s c _ o := ho ▸ ran_run s c _
  cases hran with
  | refused hgate => exact .refl _
  | failed hgate => exact Storage.sameRecords_addTable s.storage c.db
  | done hgate hbody => cases h

/-- The number of values that is told before is the one that is removed. -/
theorem flushAll_of_dbSize {c' : Call} (hdb : c'.db = c.db) {r r' : Reply}
    (h : (s.perform c .flushAll).answer = .ok r)
    (h' : (s.perform c' .dbSize).answer = .ok r') :
    r' = r ∧ ((s.perform c' .dbSize).store.perform c .flushAll).answer = .ok r := by
  obtain ⟨rfl, -⟩ := flushAll_of_ok h
  obtain ⟨hgate, hlate⟩ := exists_ok_flushAll_iff.1 ⟨_, h⟩
  rw [perform_dbSize] at h' ⊢
  cases hgate' : s.refusal c' with
  | some e =>
    rw [hgate'] at h'
    cases h'
  | none =>
    rw [hgate', hdb] at h'
    have htable : (s.storage.addTable c'.db).table c.db = s.storage.table c.db :=
      Storage.tree_addTable s.storage c'.db _
    have hready : (s.ready c'.db).refusal c = none := hgate
    dsimp only
    rw [perform_flushAll_of_late hready hlate, ready_storage, htable]
    exact ⟨(Except.ok.inj h').symm, rfl⟩

/-! ## Keys without a deadline -/

/-- The request is a command that sets a deadline of the key, and succeeds. -/
def Limits (s : Store) (db : DbId) (key : Bytes) (c : Call) (command : Command) : Prop :=
  c.db = db ∧ ∃ l : Lifetime, (l.grants c.clock.seconds).isSome = true ∧
    command = .onKey key (.lifetime l) ∧ (s.perform c command).answer = .ok (.flag true)

/-- Of requests made one after the other none sets a deadline of the key. -/
def Unlimited (db : DbId) (key : Bytes) : Store → List (Call × Command) → Prop
  | _, [] => True
  | s, (c, command) :: reqs =>
    ¬ s.Limits db key c command ∧ Unlimited db key (s.perform c command).store reqs

variable {db : DbId} {key : Bytes}

/-- A key gets a deadline from a command that sets one, or not at all. -/
theorem deadline_of_not_limits {command : Command} (h : ¬ s.Limits db key c command)
    (hd : (s.storage.slot db key).deadline = none) :
    ((s.perform c command).store.storage.slot db key).deadline = none := by
  rcases (s.performs_perform c command).slot db key with hslot | ⟨hdb, -, hslot | hrun⟩
  · rw [hslot]
    exact hd
  · rw [hslot]
    rfl
  · obtain ⟨k, r, rfl, -, hanswer, hrun⟩ := hrun
    have hlive : (s.storage.slot db key).live c.clock.seconds = s.storage.slot db key :=
      Slot.live_of_not_isExpired (Slot.isExpired_of_none hd _)
    cases k with
    | query q =>
      rw [KeyCommand.eq_live_of_query hrun, hlive]
      exact hd
    | change ch =>
      obtain ⟨-, w, -, ht⟩ := KeyCommand.write_of_change hrun
      rw [ht, hlive]
      cases w with
      | keep | put => exact hd
      | drop => rfl
    | lifetime l =>
      rcases Lifetime.run_cases hrun with ⟨-, ht⟩ | ⟨rfl, -, ht, -⟩
      · rw [hlive, or_self] at ht
        rw [ht]
        exact hd
      · have hgrants : l.grants c.clock.seconds = none := by
          rw [← Option.not_isSome_iff_eq_none]
          exact fun hsome => h ⟨hdb, l, hsome, rfl, hanswer⟩
        rw [ht, hgrants]
        rfl

/-- Without a command that sets one, a key that has no deadline never gets one. -/
theorem Unlimited.deadline {reqs : List (Call × Command)} (h : Unlimited db key s reqs)
    (hd : (s.storage.slot db key).deadline = none) :
    ((s.serve reqs).storage.slot db key).deadline = none := by
  induction reqs generalizing s with
  | nil => exact hd
  | cons q reqs ih => exact ih h.2 (deadline_of_not_limits h.1 hd)

/-- A key with a value and no deadline stays, and says so. -/
theorem answer_ttl_of_deadline (hc : s.Admits c db key)
    (hvalue : (s.storage.slot db key).value.isSome = true)
    (hd : (s.storage.slot db key).deadline = none) :
    s.answer c key (.lifetime .ttl) = .ok (.number (-1)) := by
  have hnone : (s.storage.slot db key).deadline? = none := by
    rw [Slot.deadline?, hd]
    rfl
  have hread : (s.storage.slot db key).isMalformed = false := by
    rw [Slot.isMalformed, hd]
    rfl
  have hnear : (s.storage.slot db key).Near := by
    intro d h
    rw [hnone] at h
    cases h
  obtain ⟨rfl, hkey, hgate, hlate⟩ := hc
  have hstatus : (s.storage.slot c.db key).Status c.clock (-1) (-1) := .persistent hvalue hd
  exact answer_onKey hkey rfl hgate hlate (hstatus.run_ttl key hread hnear)

/-! ## The emptying as a whole -/

/-- **To empty a database removes all of it and nothing else.** It succeeds if the call is let
through and not interrupted, and changes no record otherwise. If it succeeds, nothing is left in the
table of the database nor of the deadlines under its tags, whether they belonged to a value or could
be read at all, and all else is as it was; the answer is the number of values stored, those that had
expired included, which is what a count of them just before has answered. To empty the database
again finds nothing. Whatever is asked of the store afterwards, a key has no deadline unless it is
set, so a value that is written under it stays. -/
theorem flushAll_exact :
    (∀ (s : Store) (c : Call),
      (∃ r, (s.perform c .flushAll).answer = .ok r) ↔
        s.refusal c = none ∧ c.lateInterruption = none) ∧
    (∀ (s : Store) (c : Call) (e : Error), (s.perform c .flushAll).answer = .error e →
      Storage.SameRecords (s.perform c .flushAll).store.storage s.storage) ∧
    ∀ (s : Store) (c : Call) (r : Reply), (s.perform c .flushAll).answer = .ok r →
      let t := (s.perform c .flushAll).store
      Storage.Emptied c.db s.storage t.storage ∧
      r = .count (s.storage.table c.db).size ∧
      (∀ c' r', c'.db = c.db → (s.perform c' .dbSize).answer = .ok r' →
        r' = r ∧ ((s.perform c' .dbSize).store.perform c .flushAll).answer = .ok r) ∧
      (∀ c', c'.db = c.db → t.refusal c' = none → c'.lateInterruption = none →
        (t.perform c' .flushAll).answer = .ok (.count 0)) ∧
      ∀ key reqs, Unlimited c.db key t reqs →
        ((t.serve reqs).storage.slot c.db key).deadline = none ∧
        ∀ c', (t.serve reqs).Admits c' c.db key →
          ((t.serve reqs).storage.slot c.db key).value.isSome = true →
          (t.serve reqs).answer c' key (.lifetime .ttl) = .ok (.number (-1)) := by
  refine ⟨fun _ _ => exists_ok_flushAll_iff, fun _ _ _ => flushAll_of_error, ?_⟩
  intro s c r h t
  obtain ⟨hcount, ht⟩ := flushAll_of_ok h
  have hemptied : Storage.Emptied c.db s.storage t.storage := by
    rw [show t = _ from ht]
    exact Storage.emptied_clear c.db s.storage
  refine ⟨hemptied, hcount, fun c' r' hdb h' => flushAll_of_dbSize hdb h h',
    fun c' hdb hgate hlate => ?_, fun key reqs hreqs => ?_⟩
  · rw [perform_flushAll_of_late hgate hlate, hdb, hemptied.size]
  · have hd := hreqs.deadline (hemptied.deadline_slot key)
    exact ⟨hd, fun c' hc hvalue => answer_ttl_of_deadline hc hvalue hd⟩

/-- A database with a live key, one that has expired, one whose deadline cannot be read and a
deadline without a value, next to another database and a tag that is too short for any. A first call
is late, a second one empties the database, and a key is written again. -/
theorem flushAll_exact_mixed :
    let storage := Storage.empty.setSlot 0 [97] ⟨some [55], some (Deadline.encode ⟨9, 1⟩)⟩
      |>.setSlot 0 [98] ⟨some [55], some (Deadline.encode ⟨4, 1⟩)⟩
      |>.setSlot 0 [99] ⟨some [55], some [1, 2, 3]⟩
      |>.setSlot 0 [100] ⟨none, some (Deadline.encode ⟨9, 1⟩)⟩
      |>.setSlot 1 [97] ⟨some [56], some (Deadline.encode ⟨9, 1⟩)⟩
      |>.rawWrite ⟨deadlinesName, [0, 0, 0], some [7]⟩
    let s : Store := .fresh {} storage
    let late : Call := ⟨0, none, false, some 5, ⟨5000, 0⟩, .delay 7⟩
    let c : Call := .alone 0 ⟨5000, 0⟩ (.delay 7)
    let t := (s.perform c .flushAll).store
    let reqs : List (Call × Command) := [
      (c, .onKey [97] (.change (.set [57]))),
      (c, .onKey [97] (.lifetime (.expire (-1)))),
      (c, .onKey [97] (.query .get))]
    Storage.SameRecords (s.perform late .flushAll).store.storage storage ∧
      (s.perform c .dbSize).answer = .ok (.count 3) ∧
      (s.perform c .flushAll).answer = .ok (.count 3) ∧
      Storage.Emptied 0 storage t.storage ∧
      t.storage.deadlines.keys = [[0, 0, 0], [0, 0, 0, 1, 97]] ∧
      (t.perform c .flushAll).answer = .ok (.count 0) ∧
      (t.serve reqs).answer c [97] (.lifetime .ttl) = .ok (.number (-1)) := by
  intro storage s late c t reqs
  obtain ⟨hok, herror, hflush⟩ := flushAll_exact
  obtain ⟨r, hr⟩ := (hok s c).2 ⟨by rfl, rfl⟩
  obtain ⟨hemptied, hcount, -, hagain, hpersistent⟩ := hflush s c r hr
  have hsize : (s.storage.table c.db).size = 3 := by decide
  have hdbSize : (s.perform c .dbSize).answer = .ok r := by
    rw [perform_dbSize, hcount]
    rfl
  have hthree : r = .count 3 := by rw [hcount, hsize]
  have hreqs : Unlimited c.db [97] t reqs := by
    refine ⟨?_, ?_, ?_, trivial⟩
    · rintro ⟨-, l, -, hl, -⟩
      cases hl
    · rintro ⟨-, l, -, -, hanswer⟩
      cases hanswer
    · rintro ⟨-, l, -, hl, -⟩
      cases hl
  rw [hthree] at hr hdbSize
  refine ⟨herror s late .deadlineExceeded (by rfl), hdbSize, hr, hemptied, by decide,
    hagain c rfl (by decide) rfl, ?_⟩
  exact (hpersistent [97] reqs hreqs).2 c ⟨rfl, rfl, by decide, rfl⟩ (by decide)

end Store

end Keyspace
