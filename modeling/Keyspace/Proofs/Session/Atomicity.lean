import Keyspace.Proofs.Session.Steps

/-!
# Failures leave every record as it was

`error_atomic`: a step that answers an error has changed no record of any tree, whatever is stored
and in whatever circumstances the step was taken. In particular it does not matter when the context
is canceled or its deadline passes: before the step, before its transaction, or after everything has
been written but for the last check. The one exception is the request for the value of a key that
has expired: it removes the key, and then does not find it.

A transaction that fails has no effect (`Store.Ran`), so a command that fails after its transaction
is the only one to look at: not to find the value that was asked for is a failure only then
(`records_of_error`).
-/

namespace Keyspace

namespace Store

variable {s s' : Store} {c : Call} {command : Command} {e : Error}

/-- A command that fails keeps all records, but for the expired key that was asked for. -/
theorem Performs.records_of_error (h : Performs s c command (.error e) s') :
    Storage.SameRecords s'.storage s.storage ∨
      ∃ key, command = .onKey key (.query .get) ∧ e = .keyNotFound ∧
        (s.storage.slot c.db key).isExpired c.clock.seconds = true ∧
        Storage.SameRecords s'.storage (s.storage.setSlot c.db key .empty) := by
  generalize ha : Except.error e = answer at h
  cases h with
  | stays => exact .inl (.refl _)
  | admits h => exact .inl (Storage.sameRecords_addTable _ _)
  | del | flushAll | close => cases ha
  | @onKey key k r t h hkey hrun =>
    obtain ⟨rfl, rfl, rfl⟩ := KeyCommand.finish_eq_error ha.symm
    obtain rfl := KeyCommand.eq_live_of_query hrun
    have hadd := Storage.sameRecords_addTable s.storage c.db
    cases hexp : (s.storage.slot c.db key).isExpired c.clock.seconds with
    | true =>
      refine .inr ⟨key, rfl, rfl, hexp, ?_⟩
      rw [Slot.live_of_isExpired hexp]
      exact hadd.setSlot c.db key .empty
    | false =>
      refine .inl ?_
      rw [Slot.live_of_not_isExpired hexp]
      exact (hadd.setSlot c.db key _).trans (Storage.sameRecords_setSlot_slot _ _ _)

end Store

namespace Session

/-- **Failures are atomic.** A step that answers an error leaves every record of every tree as it
was, unless it asked for the value of a key that has expired: then that key alone may be gone. -/
theorem error_atomic {s s' : Session} {t : Step} {e : Error} {store : Store}
    (hstore : s.store = some store) (h : s.step t = some (.reply (.error e), s')) :
    s'.disk = s.disk ∧ ∃ store', s'.store = some store' ∧
      (Storage.SameRecords store'.storage store.storage ∨
        ∃ caller i key c, t = .perform caller i (.onKey key (.query .get)) ∧
          e = .keyNotFound ∧ s.call? caller i = some c ∧
          (store.storage.slot c.db key).isExpired s.clock.seconds = true ∧
          Storage.SameRecords store'.storage (store.storage.setSlot c.db key .empty)) := by
  have hm := moves_of_step h
  generalize ha : Answer.reply (.error e) = a at hm
  cases hm with
  | around hs hdisk hconfig => exact ⟨hdisk, store, hs.trans hstore, .inl (.refl _)⟩
  | @request caller i command c store₁ hstore₁ hc =>
    obtain rfl := Option.some.inj (hstore.symm.trans hstore₁)
    refine ⟨rfl, _, rfl, ?_⟩
    have hp := store.performs_perform c command
    rw [← Answer.reply.inj ha] at hp
    rcases hp.records_of_error with hsame | ⟨key, rfl, he, hexp, hsame⟩
    · exact .inl hsame
    · rw [call?_clock hc] at hexp
      exact .inr ⟨caller, i, key, c, rfl, he, hc, hexp, hsame⟩
  | upkeep hstore₁ hup failed =>
    obtain rfl := Option.some.inj (hstore.symm.trans hstore₁)
    exact ⟨rfl, _, rfl, .inl (failed e ha.symm ▸ .refl _)⟩
  | reopens answers => exact absurd ha.symm (answers e)

theorem exists_step_perform {s : Session} {store : Store} {caller : Caller} {i : Interludes}
    {c : Call} {command : Command} {r : Except Error Reply} (hstore : s.store = some store)
    (hc : s.call? caller i = some c) (h : (store.perform c command).answer = r) :
    ∃ s', s.step (.perform caller i command) = some (.reply r, s') := by
  subst h
  refine ⟨(s.perform c command).2, ?_⟩
  rw [step, hc, Option.map_some, perform, hstore]

/-- A store with one key, which expires at second 2, and one that stays. -/
def brief : Store :=
  .fresh {} (Storage.empty.setSlot 0 [107] ⟨some [118], some (Deadline.encode ⟨2, 1⟩)⟩
    |>.setSlot 0 [108] ⟨some [119], none⟩)

/-- The first key is asked for a second late, and the exception is met. In the other cases something
has been done by the time of the failure: the key, which has expired, is removed, and then there is
no list whose element could be set; a value is written, and the context is canceled meanwhile; both
keys are removed, and the deadline of the context passes meanwhile. -/
theorem error_atomic_late :
    let s : Session := { bare 3000 with
      families := ⟨1, []⟩, contexts := [("c", ⟨0, 0, some 5⟩)], store := some brief }
    let get : Step := .perform (.alone 0) .none (.onKey [107] (.query .get))
    let lset : Step := .perform (.alone 0) .none (.onKey [107] (.change (.lset 0 [120])))
    let set : Step := .perform (.named "c") ⟨.none, ⟨0, true⟩⟩ (.onKey [108] (.change (.set [120])))
    let del : Step := .perform (.named "c") (.delay 7) (.del [[107], [108]])
    let kept (t : Step) (e : Error) := ∃ s' store', s.step t = some (.reply (.error e), s') ∧
      s'.store = some store' ∧ Storage.SameRecords store'.storage brief.storage
    (∃ e s', s.step get = some (.reply (.error e), s') ∧
      s'.disk = s.disk ∧ ∃ store', s'.store = some store' ∧
        (Storage.SameRecords store'.storage brief.storage ∨
          ∃ caller i key c, get = .perform caller i (.onKey key (.query .get)) ∧
            e = .keyNotFound ∧ s.call? caller i = some c ∧
            (brief.storage.slot c.db key).isExpired s.clock.seconds = true ∧
            Storage.SameRecords store'.storage (brief.storage.setSlot c.db key .empty))) ∧
      kept lset .keyNotFound ∧ kept set .canceled ∧ kept del .deadlineExceeded := by
  intro s get lset set del kept
  have hkept : ∀ caller i c command e, s.call? caller i = some c →
      (brief.perform c command).answer = .error e →
      (∀ key, command ≠ .onKey key (.query .get)) → kept (.perform caller i command) e := by
    intro caller i c command e hc hanswer hne
    obtain ⟨s', h⟩ := exists_step_perform (s := s) rfl hc hanswer
    obtain ⟨-, store', hstore', hsame | ⟨_, _, key, _, ht, -⟩⟩ := error_atomic rfl h
    · exact ⟨s', store', h, hstore', hsame⟩
    · exact absurd (Step.perform.inj ht).2.2 (hne key)
  have hget : (brief.perform (.alone 0 ⟨3000, 0⟩ .none) (.onKey [107] (.query .get))).answer =
      .error .keyNotFound := by rfl
  have hlset : (brief.perform (.alone 0 ⟨3000, 0⟩ .none)
      (.onKey [107] (.change (.lset 0 [120])))).answer = .error .keyNotFound := by rfl
  have hset : (brief.perform (.ofContext ⟨0, 0, some 5⟩ ⟨1, []⟩ ⟨3000, 0⟩ ⟨.none, ⟨0, true⟩⟩)
      (.onKey [108] (.change (.set [120])))).answer = .error .canceled := by rfl
  have hdel : (brief.perform (.ofContext ⟨0, 0, some 5⟩ ⟨1, []⟩ ⟨3000, 0⟩ (.delay 7))
      (.del [[107], [108]])).answer = .error .deadlineExceeded := by rfl
  obtain ⟨s', h⟩ : ∃ s', s.step get = some (.reply (.error .keyNotFound), s') :=
    exists_step_perform rfl rfl hget
  exact ⟨⟨.keyNotFound, s', h, error_atomic rfl h⟩, hkept _ _ _ _ _ rfl hlset nofun,
    hkept _ _ _ _ _ rfl hset nofun, hkept _ _ _ _ _ rfl hdel nofun⟩

end Session

end Keyspace
