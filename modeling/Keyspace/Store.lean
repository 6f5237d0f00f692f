import Keyspace.Command
import Keyspace.Config
import Keyspace.Context
import Keyspace.Storage

/-!
# The store

A store is a configuration, the stored records, whether it is closed, and the databases that it has
resolved since it was opened. Every command on it passes the same gates in the same order (an open
store, a context that is neither canceled nor late, a database that there is) and then runs as one
transaction: if its body fails, or if the context is interrupted before the end, all records stay
as they were. `Store.perform` carries out a command in the circumstances of a call.
-/

namespace Keyspace

/-- An open or closed store. -/
structure Store where
  config : Config
  storage : Storage
  isClosed : Bool
  resolved : List DbId
  deriving DecidableEq, Repr

/-- What comes of a request: its answer, the store afterwards, and what happened to its context
until it was done. -/
structure Outcome (α : Type) where
  answer : Except Error α
  store : Store
  passed : Interlude := .none

/-- The outcome with the answer taken further. -/
def Outcome.andThen {α β : Type} (o : Outcome α) (f : α → Except Error β) : Outcome β :=
  { o with answer := o.answer.bind f }

namespace Store

/-! ## Gates -/

/-- The store with a tree for the database, which must be within the configured range. -/
def resolve (s : Store) (db : DbId) : Except Error Store :=
  if s.config.maxDatabases ≤ db.toNat then
    .error (.invalidDatabase db.toNat s.config.maxDatabases)
  else
    .ok { s with
      storage := s.storage.addTable db
      resolved := if db ∈ s.resolved then s.resolved else db :: s.resolved }

/-- The store ready for a transaction of the call, or why there is none. -/
def enter (s : Store) (c : Call) : Except Error Store :=
  if s.isClosed then .error .closed
  else match c.interruption with
    | some e => .error e
    | none => s.resolve c.db

theorem resolve_eq_ok_iff {s t : Store} {db : DbId} :
    s.resolve db = .ok t ↔ db.toNat < s.config.maxDatabases ∧
      t = { s with
        storage := s.storage.addTable db
        resolved := if db ∈ s.resolved then s.resolved else db :: s.resolved } := by
  rw [← Nat.not_le, resolve]
  split <;> rename_i h
  · simp [h]
  · exact ⟨fun e => ⟨h, (Except.ok.inj e).symm⟩, fun e => congrArg Except.ok e.2.symm⟩

/-- The gates let a call through to the resolved database, and no other way. -/
theorem enter_eq_ok_iff {s t : Store} {c : Call} :
    s.enter c = .ok t ↔
      s.isClosed = false ∧ c.interruption = none ∧ s.resolve c.db = .ok t := by
  rw [enter]
  cases s.isClosed <;> cases c.interruption <;> simp

/-! ## Transactions -/

/-- Runs a body on the records. They change only if the context of the call is not interrupted
before, the body succeeds and the context is not interrupted by then. -/
def transact {α : Type} (s : Store) (c : Call) (body : Storage → Except Error (α × Storage)) :
    Outcome α :=
  match c.pendingInterruption with
  | some e => ⟨.error e, s, c.interludes.before⟩
  | none =>
    match body s.storage with
    | .error e => ⟨.error e, s, c.interludes.total⟩
    | .ok (a, storage) =>
      match c.lateInterruption with
      | some e => ⟨.error e, s, c.interludes.total⟩
      | none => ⟨.ok a, { s with storage }, c.interludes.total⟩

/-- Passes the gates and runs a body on the records. -/
def run {α : Type} (s : Store) (c : Call) (body : Storage → Except Error (α × Storage)) :
    Outcome α :=
  match s.enter c with
  | .error e => ⟨.error e, s, .none⟩
  | .ok s => s.transact c body

/-- Passes the gates and runs a body on the slot of a key. -/
def runOnKey {α : Type} (s : Store) (c : Call) (key : Bytes)
    (body : Slot → Except Error (α × Slot)) : Outcome α :=
  s.run c fun storage =>
    (body (storage.slot c.db key)).map fun (a, t) => (a, storage.setSlot c.db key t)

/-! ## Commands -/

/-- Carries out a command on one key. -/
def performOnKey (s : Store) (c : Call) (key : Bytes) (k : KeyCommand) : Outcome Reply :=
  match checkKey key with
  | .error e => ⟨k.refuse e, s, .none⟩
  | .ok () =>
    match k.shortcut with
    | some answer => ⟨answer, s, .none⟩
    | none => (s.runOnKey c key fun t => k.run key c.clock t).andThen k.finish

/-- Removes those of the keys that can be keys. -/
def del (s : Store) (c : Call) (keys : List Bytes) : Outcome Nat :=
  let keys := keys.filter isKey
  if keys.isEmpty then ⟨.ok 0, s, .none⟩
  else s.run c fun storage => .ok (storage.purgeAll c.clock.seconds c.db keys)

/-- Empties a database; the number is that of the values that were stored in it. Before the
transaction its values are looked up, and all deadlines with a tag of the database, those without a
value among them. The transaction removes what was found. -/
def flushAll (s : Store) (c : Call) : Outcome Nat :=
  match s.enter c with
  | .error e => ⟨.error e, s, .none⟩
  | .ok s =>
    let keys := (s.storage.table c.db).keys
    let tags := s.storage.deadlines.keysFrom (Deadline.tag c.db [])
    s.transact c fun storage => .ok (keys.length, storage.removeAll c.db tags keys)

/-- The number of values stored in a database, expired ones included. -/
def dbSize (s : Store) (c : Call) : Outcome Nat :=
  match s.enter c with
  | .error e => ⟨.error e, s, .none⟩
  | .ok s => ⟨.ok (s.storage.table c.db).size, s, .none⟩

/-- The store, closed. -/
def close (s : Store) : Store := { s with isClosed := true }

/-- Carries out a command. -/
def perform (s : Store) (c : Call) : Command → Outcome Reply
  | .onKey key k => s.performOnKey c key k
  | .del keys => (s.del c keys).andThen fun n => .ok (.count n)
  | .flushAll => (s.flushAll c).andThen fun n => .ok (.count n)
  | .dbSize => (s.dbSize c).andThen fun n => .ok (.count n)
  | .close => ⟨.ok .done, s.close, .none⟩

/-- Whether the deadline of a key has passed, as its record says. Nothing is removed, no database
is resolved and none is out of range. -/
def isExpired (s : Store) (c : Call) (key : Bytes) : Except Error Bool :=
  match checkKey key with
  | .error e => .error e
  | .ok () =>
    match c.interruption with
    | some e => .error e
    | none =>
      if s.isClosed then .error .closed
      else
        let t := s.storage.slot c.db key
        if t.isMalformed then .error (Slot.malformed key) else .ok (t.isExpired c.clock.seconds)

end Store

end Keyspace
