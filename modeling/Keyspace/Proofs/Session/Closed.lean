import Keyspace.Proofs.Session.Steps
import Keyspace.Proofs.Store.Gates

/-!
# A closed store

`gated_and_frozen`: every command but the closing of the store answers what the first gate says that
stops it, and then changes nothing; and once the store is closed, no record changes any more until
the store is opened again.

Commands find the first of the shared gates shut (`ClosedOn.perform`), sweeps are refused, and of
everything else that can be done to a store nothing touches a record (`Frozen.step`). So a session
stays `Frozen` as long as its store is not given up (`Frozen.run`).
-/

namespace Keyspace

/-- The store is closed and holds the records of `storage`. -/
structure Store.ClosedOn (storage : Storage) (s : Store) : Prop where
  isClosed : s.isClosed = true
  records : Storage.SameRecords s.storage storage

namespace Store.ClosedOn

variable {storage : Storage} {s : Store}

theorem perform (h : s.ClosedOn storage) (c : Call) (command : Command) :
    (s.perform c command).store.ClosedOn storage := by
  have hgate : s.refusal c = some .closed := if_pos h.isClosed
  have hp := s.performs_perform c command
  generalize (s.perform c command).answer = answer at hp
  generalize (s.perform c command).store = t at hp ⊢
  cases hp with
  | stays => exact h
  | close => exact ⟨rfl, h.records⟩
  | admits h' | onKey h' | del h' | flushAll h' => exact absurd (hgate.symm.trans h') nofun

theorem sweep (h : s.ClosedOn storage) (now : Nat) : s.sweep now = .error .closed :=
  if_pos h.isClosed

theorem restore (h : s.ClosedOn storage) (now : Nat) : s.restore now = .error .closed :=
  if_pos h.isClosed

/-- The first of the sweeps in the background finds the store closed. -/
theorem clean (h : s.ClosedOn storage) (now n : Nat) : s.clean now n = s.close := by
  cases n with
  | zero => rfl
  | succ n => rw [Store.clean, h.sweep]

theorem ready (h : s.ClosedOn storage) (db : DbId) : (s.ready db).ClosedOn storage :=
  ⟨h.isClosed, (Storage.sameRecords_addTable s.storage db).trans h.records⟩

end Store.ClosedOn

/-- The step gives the store up, and opens it again. -/
def Step.remounts : Step → Bool
  | .reopen .. | .dump => true
  | _ => false

namespace Session

/-- The store is closed, on the records of `storage`, and the disk is as it was. -/
structure Frozen (storage disk : Storage) (s : Session) : Prop where
  store : ∃ store, s.store = some store ∧ store.ClosedOn storage
  disk : s.disk = disk

namespace Frozen

variable {storage disk : Storage} {s s' : Session}

theorem around (h : s.Frozen storage disk) (hstore : s'.store = s.store)
    (hdisk : s'.disk = s.disk) : s'.Frozen storage disk :=
  ⟨hstore ▸ h.store, hdisk.trans h.disk⟩

theorem onStore (h : s.Frozen storage disk) {f : Store → Answer × Store} {a : Answer}
    (hf : ∀ store : Store, store.ClosedOn storage → (f store).2.ClosedOn storage)
    (hs : s.onStore f = (a, s')) : s'.Frozen storage disk := by
  obtain ⟨store, hstore, hclosed⟩ := h.store
  rw [Session.onStore, hstore] at hs
  cases hs
  exact ⟨⟨_, rfl, hf store hclosed⟩, h.disk⟩

/-- **Nothing touches the records of a closed store** before it is given up. -/
theorem step (h : s.Frozen storage disk) {t : Step} {a : Answer} (ht : t.remounts = false)
    (hs : s.step t = some (a, s')) : s'.Frozen storage disk := by
  cases t with
  | advance | setWall | start =>
    cases hs
    exact h.around rfl rfl
  | derive | cancel | inspect =>
    obtain ⟨c, -, hs⟩ := Option.map_eq_some_iff.1 hs
    cases hs
    exact h.around rfl rfl
  | perform caller i command =>
    obtain ⟨c, -, hs⟩ := Option.map_eq_some_iff.1 hs
    obtain ⟨store, hstore, hclosed⟩ := h.store
    rw [Session.perform, hstore] at hs
    cases hs
    exact ⟨⟨_, rfl, hclosed.perform c command⟩, h.disk⟩
  | isExpired caller key =>
    obtain ⟨c, -, hs⟩ := Option.map_eq_some_iff.1 hs
    exact h.onStore (fun _ hclosed => hclosed) hs
  | resolve caller =>
    obtain ⟨c, -, hs⟩ := Option.map_eq_some_iff.1 hs
    refine h.onStore (fun store hclosed => ?_) hs
    split
    · rename_i hr
      obtain ⟨-, rfl⟩ := Store.resolve_eq_ok hr
      exact hclosed.ready c.db
    · exact hclosed
  | checkKey | isClosed | countResolved | maxDatabases | config =>
    exact h.onStore (fun _ hclosed => hclosed) (Option.some.inj hs)
  | sweep =>
    refine h.onStore (fun store hclosed => ?_) (Option.some.inj hs)
    rw [hclosed.sweep]
    exact hclosed
  | restore =>
    refine h.onStore (fun store hclosed => ?_) (Option.some.inj hs)
    rw [hclosed.restore]
    exact hclosed
  | clean n =>
    refine h.onStore (fun store hclosed => ?_) (Option.some.inj hs)
    rw [hclosed.clean]
    exact ⟨rfl, hclosed.records⟩
  | reopen | dump => cases ht

theorem run (h : s.Frozen storage disk) {ts : List Step} (hts : ∀ t ∈ ts, t.remounts = false) :
    (s.run ts).2.Frozen storage disk :=
  Along.run (fun _ _ _ _ hs ht h => h.step ht hs)
    (along_of_forall (fun t ht _ _ _ => hts t ht) s) h

end Frozen

/-- A store that a caller closes stays on the records that it has. -/
theorem frozen_of_close {s s' : Session} {store : Store} {caller : Caller} {i : Interludes}
    {a : Answer} (hstore : s.store = some store)
    (hclose : s.step (.perform caller i .close) = some (a, s')) :
    s'.Frozen store.storage s.disk := by
  obtain ⟨c, -, h⟩ := Option.map_eq_some_iff.1 hclose
  rw [perform, hstore] at h
  cases h
  exact ⟨⟨_, rfl, rfl, .refl _⟩, rfl⟩

/-- **Commands pass the gates in order, and a closed store is frozen.** A command other than the
closing of the store answers what the first gate says that stops it. Nothing else happens then: the
store is the same, with its records and its trees, and no time passes. If no gate stops the command,
it gets to its database. The removal of several keys skips those that can be no keys.

Once a caller has closed the store, no run changes a record of the store or on the disk as long as
no step of it opens the store again. -/
theorem gated_and_frozen :
    (∀ (store : Store) (c : Call) (command : Command), command ≠ .close →
      (∀ answer, store.verdict c command = some answer →
        store.perform c command = ⟨answer, store, .none⟩) ∧
      (store.verdict c command = none → c.db ∈ (store.perform c command).store.resolved)) ∧
    (∀ (store : Store) (c : Call) (keys : List Bytes),
      store.perform c (.del keys) =
        store.perform c (.del (keys.filter fun key => 0 < key.length ∧ key.length ≤ 511))) ∧
    ∀ (s s' : Session) (store : Store) (caller : Caller) (i : Interludes) (ts : List Step),
      s.store = some store →
      s.step (.perform caller i .close) = some (.reply (.ok .done), s') →
      (∀ t ∈ ts, t.remounts = false) → (s'.run ts).2.Frozen store.storage s.disk := by
  refine ⟨fun store c command hcommand => ?_, fun store c keys => ?_,
    fun s s' store caller i ts hstore hclose hts => (frozen_of_close hstore hclose).run hts⟩
  · have hobeys := store.obeys_perform c hcommand
    constructor
    · intro answer hverdict
      rw [hverdict] at hobeys
      exact hobeys
    · intro hverdict
      rw [hverdict] at hobeys
      exact hobeys
  · rw [← store.del_filter_isKey]
    congr 2
    refine List.filter_congr fun key _ => ?_
    rw [Bool.eq_iff_iff, decide_eq_true_eq]
    exact isKey_iff

/-- A store whose one key has expired is closed, and then written to, swept and emptied; and before
that, a canceled caller asks for a database out of range. -/
theorem gated_and_frozen_lapsed :
    let store : Store :=
      .fresh {} (Storage.empty.setSlot 0 [107] ⟨some [118], some (Deadline.encode ⟨2, 1⟩)⟩)
    let s : Session := { bare 3000 with store := some store }
    let set : Step := .perform (.alone 0) .none (.onKey [107] (.change (.set [119])))
    let flushAll : Step := .perform (.alone 0) .none .flushAll
    let ts := [set, .sweep, .clean 3, .restore, .resolve (.alone 1), flushAll]
    let c : Call := ⟨99, none, true, some 0, ⟨3000, 0⟩, .none⟩
    ∃ s', s.step (.perform (.alone 0) .none .close) = some (.reply (.ok .done), s') ∧
      (s'.run ts).2.Frozen store.storage s.disk ∧
      store.perform c (.onKey [] (.change (.zadd ⟨0x7ff8000000000000⟩ [109]))) =
        ⟨.error .emptyKey, store, .none⟩ ∧
      store.perform c (.onKey [107] (.change (.zadd ⟨0x7ff8000000000000⟩ [109]))) =
        ⟨.error .invalidScore, store, .none⟩ ∧
      store.perform c (.del [[], [107]]) = ⟨.error .canceled, store, .none⟩ := by
  intro store s set flushAll ts c
  have hts : ∀ t ∈ ts, t.remounts = false := by decide
  have hclose : s.step (.perform (.alone 0) .none .close) = some (.reply (.ok .done), _) := rfl
  obtain ⟨hgates, -, hfrozen⟩ := gated_and_frozen
  exact ⟨_, hclose, hfrozen _ _ _ _ _ ts rfl hclose hts, (hgates _ _ _ (by decide)).1 _ rfl,
    (hgates _ _ _ (by decide)).1 _ rfl, (hgates _ _ _ (by decide)).1 _ rfl⟩

end Session

end Keyspace
