import Keyspace.Store.Sweep

/-!
# Opening a store

A store is opened with a valid configuration on the records that are there. It starts without
resolved databases and, if so configured, with what has expired removed.
-/

namespace Keyspace.Store

/-- A store just opened on these records, before it removes anything. -/
def fresh (config : Config) (storage : Storage) : Store :=
  { config, storage, isClosed := false, resolved := [] }

/-- Opens a store on these records. -/
def openOn (config : Config) (storage : Storage) (now : Nat) :
    Except Config.Fault Store :=
  match config.validate with
  | .error f => .error f
  | .ok () =>
    let s := fresh config storage
    .ok (if config.restoreOnOpen then (s.restoreAll now).2 else s)

/-- The same store as another process finds it: nothing is resolved yet. -/
def reattach (s : Store) : Store := { s with resolved := [] }

end Keyspace.Store
