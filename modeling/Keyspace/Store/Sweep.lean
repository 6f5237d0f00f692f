import Keyspace.Store

/-!
# Sweeps

A sweep goes through the deadlines in their order and takes the first entries that are to go, up to
the configured number: those of expired keys, and those that are malformed because their tag is too
short or their record cannot be read. An expired key goes with its value, unless its database is
out of the configured range: then only the entry goes. A malformed entry goes alone, and leaves a
key without a deadline behind. Only expired entries are counted as removed.

`Store.sweep` is one sweep, `Store.restore` sweeps until there is nothing left to find, and
`Store.clean` is what the sweeps in the background come to.
-/

namespace Keyspace

/-- An entry of the deadlines that is to go. -/
inductive Finding
  | expired (db : DbId) (key : Bytes)
  | malformed (tag : Bytes)
  deriving DecidableEq, Repr

namespace Finding

/-- What a sweep at `now` makes of an entry. -/
def classify (now : Nat) (e : Bytes × Bytes) : Option Finding :=
  match Deadline.untag e.1, Deadline.decode? e.2 with
  | some (db, key), some d => if d.isExpired now then some (.expired db key) else none
  | _, _ => some (.malformed e.1)

/-- The findings in a storage, in the order of their entries. -/
def all (now : Nat) (storage : Storage) : List Finding :=
  storage.deadlines.entries.filterMap (classify now)

/-- The finding counts as the removal of a key. -/
def isCounted : Finding → Bool
  | expired .. => true
  | malformed _ => false

end Finding

namespace Store

/-- The store without the entry `tag` of the deadlines. -/
def dropEntry (s : Store) (tag : Bytes) : Store :=
  { s with storage := { s.storage with deadlines := s.storage.deadlines.erase tag } }

/-- The store after a finding was dealt with. -/
def collect (s : Store) : Finding → Store
  | .expired db key =>
    match s.resolve db with
    | .ok s => { s with storage := s.storage.setSlot db key .empty }
    | .error _ => s.dropEntry (Deadline.tag db key)
  | .malformed tag => s.dropEntry tag

/-- One sweep: what it finds, and the store afterwards. -/
def sweepOnce (s : Store) (now : Nat) : List Finding × Store :=
  let found := (Finding.all now s.storage).take s.config.cleanupBatchSize
  (found, found.foldl collect s)

/-- One sweep of an open store; the answer is the number of keys removed. -/
def sweep (s : Store) (now : Nat) : Except Error (Nat × Store) :=
  if s.isClosed then .error .closed
  else
    let (found, s) := s.sweepOnce now
    .ok (found.countP Finding.isCounted, s)

/-- Sweeps until one finds less than it may, at most `fuel` times. -/
def drain (now : Nat) : (fuel : Nat) → Store → Nat × Store
  | 0, s => (0, s)
  | fuel + 1, s =>
    let (found, t) := s.sweepOnce now
    let n := found.countP Finding.isCounted
    if found.length < s.config.cleanupBatchSize then (n, t)
    else
      let (m, t) := drain now fuel t
      (n + m, t)

/-- Sweeps until there is nothing left to find. Every sweep but the last removes an entry, so the
entries bound the number of sweeps. -/
def restoreAll (s : Store) (now : Nat) : Nat × Store := drain now (s.storage.deadlines.size + 1) s

/-- Sweeps an open store until there is nothing left to find; the answer is the number of keys
removed. -/
def restore (s : Store) (now : Nat) : Except Error (Nat × Store) :=
  if s.isClosed then .error .closed else .ok (s.restoreAll now)

/-- A store with `n` sweeps in the background before it is closed. -/
def clean (now : Nat) : (n : Nat) → Store → Store
  | 0, s => s.close
  | n + 1, s =>
    match s.sweep now with
    | .ok (_, t) => clean now n t
    | .error _ => s.close

end Store

end Keyspace
