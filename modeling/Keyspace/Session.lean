import Keyspace.Config.File
import Keyspace.Store.Opening

/-!
# Sessions

A session is one store with everything around it: the clocks, the contexts that the caller has
named, and the disk, which outlives the store. `Session.step` carries out one step: it moves a
clock, makes or changes a context, gives a command to the store, or closes the store and opens it
again on what is on the disk. A temporary store starts without records and leaves none behind.
-/

namespace Keyspace

/-- In whose name a command is given. -/
inductive Caller
  /-- A context that has a name. -/
  | named (name : String)
  /-- A context made for this command alone. -/
  | alone (db : DbId)
  deriving DecidableEq, Repr

/-- A step of a session. -/
inductive Step
  /-- Both clocks go forward. -/
  | advance (ms : Nat)
  /-- The wall clock is set. -/
  | setWall (ms : Int64)
  /-- A new context gets a name. -/
  | start (name : String) (db : DbId) (timeout : Option Nat)
  /-- A context made from another one gets a name. -/
  | derive (source name : String) (db : Option DbId) (timeout : Option Nat)
  | cancel (name : String)
  | inspect (name : String)
  /-- A command is given; things may happen to its context before it is done. -/
  | perform (caller : Caller) (interludes : Interludes) (command : Command)
  | isExpired (caller : Caller) (key : Bytes)
  | resolve (caller : Caller)
  | checkKey (key : Bytes)
  | isClosed
  | sweep
  | restore
  /-- The store is swept in the background until it is closed. -/
  | clean (sweeps : Nat)
  | countResolved
  | maxDatabases
  | config
  /-- The store is opened again, after some records were changed behind its back. The configuration
  is the last one given, or a new one, which may be no configuration at all. -/
  | reopen (writes : List Storage.RawWrite) (config : Option (Option Config))
  | dump
  deriving DecidableEq, Repr

/-- What a step answers. -/
inductive Answer
  | reply (r : Except Error Reply)
  | context (c : Context) (isCanceled : Bool) (interruption : Option Error)
  | treeName (name : Bytes)
  | config (c : Config)
  | contents (trees : List (Bytes × List (Bytes × Bytes)))
  /-- The store could not be opened. -/
  | failed (e : LoadError)
  /-- There is no store to give the command to. -/
  | notOpen

/-- A store and its surroundings. -/
structure Session where
  clock : Clock
  families : Families
  contexts : List (String × Context)
  /-- The records that the last store left. -/
  disk : Storage
  /-- The last configuration given, if it was one. -/
  config : Option Config
  store : Option Store

namespace Session

/-- A session without a store, beginning at a reading of the wall clock. -/
def bare (wall : Int64) : Session where
  clock := ⟨wall, 0⟩
  families := .empty
  contexts := []
  disk := .empty
  config := none
  store := none

/-! ## The store -/

/-- The records that are on the disk once the store has gone. -/
def records (s : Session) : Storage :=
  match s.store with
  | none => s.disk
  | some store => if store.config.temporary then s.disk else store.storage

/-- Opens the store on what is on the disk after some writes, with the configuration that is
given. The disk is one directory, whatever directory the configuration names. -/
def mount (s : Session) (writes : List Storage.RawWrite) (config : Option Config) :
    Except LoadError Unit × Session :=
  let disk := writes.foldl Storage.rawWrite s.records
  let s := { s with disk, config, store := none }
  match config with
  | none => (.error .malformed, s)
  | some c =>
    match Store.openOn c (if c.temporary then .empty else disk) s.clock.seconds with
    | .error f => (.error (.invalid f), s)
    | .ok store => (.ok (), { s with store := some store })

/-- Every record, if the records are kept. -/
def kept (s : Session) : Option (List (Bytes × List (Bytes × Bytes))) :=
  if s.config.any (·.temporary) then none else some s.records.contents

/-- The circumstances of a command, if its caller is known. -/
def call? (s : Session) (caller : Caller) (i : Interludes) : Option Call :=
  match caller with
  | .alone db => some (Call.alone db s.clock i)
  | .named name => (s.contexts.lookup name).map fun c => Call.ofContext c s.families s.clock i

/-! ## Contexts -/

/-- The state of a context. -/
def view (s : Session) (c : Context) : Answer :=
  .context c (c.isCanceled s.families) (c.interruption s.families s.clock)

/-- Gives a context a name, and a deadline if there is a timeout. -/
def keep (s : Session) (name : String) (c : Context) (timeout : Option Nat) : Answer × Session :=
  let c := match timeout with
    | some ms => c.withTimeout s.clock ms
    | none => c
  let s := { s with contexts := (name, c) :: s.contexts }
  (s.view c, s)

/-! ## Steps -/

/-- A step on the store, if there is one. -/
def onStore (s : Session) (f : Store → Answer × Store) : Answer × Session :=
  match s.store with
  | none => (.notOpen, s)
  | some store =>
    let (a, store) := f store
    (a, { s with store := some store })

/-- The answer and the store after sweeps, which a closed store refuses. -/
def swept (before : Store) : Except Error (Nat × Store) → Answer × Store
  | .ok (n, after) => (.reply (.ok (.count n)), after)
  | .error e => (.reply (.error e), before)

/-- Gives a command to the store. What happens to its context meanwhile is seen by later steps. -/
def perform (s : Session) (c : Call) (command : Command) : Answer × Session :=
  match s.store with
  | none => (.notOpen, s)
  | some store =>
    let o := store.perform c command
    (.reply o.answer, { s with
      store := some o.store
      clock := s.clock.elapse o.passed.ms
      families := s.families.after c.family o.passed })

/-- Carries out a step, unless it names a context that there is not. -/
def step (s : Session) : Step → Option (Answer × Session)
  | .advance ms => some (.reply (.ok .done), { s with clock := s.clock.advance ms })
  | .setWall ms => some (.reply (.ok .done), { s with clock := s.clock.setWall ms })
  | .start name db timeout =>
    let (c, families) := s.families.start db
    some ({ s with families }.keep name c timeout)
  | .derive source name db timeout =>
    (s.contexts.lookup source).map fun c => s.keep name (db.elim c c.select) timeout
  | .cancel name =>
    (s.contexts.lookup name).map fun c =>
      let s := { s with families := s.families.cancel c }
      (s.view c, s)
  | .inspect name => (s.contexts.lookup name).map fun c => (s.view c, s)
  | .perform caller interludes command =>
    (s.call? caller interludes).map fun c => s.perform c command
  | .isExpired caller key =>
    (s.call? caller .none).map fun c =>
      s.onStore fun store => (.reply ((store.isExpired c key).map .flag), store)
  | .resolve caller =>
    (s.call? caller .none).map fun c =>
      s.onStore fun store =>
        match store.resolve c.db with
        | .ok store => (.treeName (tableName c.db), store)
        | .error e => (.reply (.error e), store)
  | .checkKey key =>
    some (s.onStore fun store => (.reply ((Keyspace.checkKey key).map fun _ => .done), store))
  | .isClosed => some (s.onStore fun store => (.reply (.ok (.flag store.isClosed)), store))
  | .sweep => some (s.onStore fun store => swept store (store.sweep s.clock.seconds))
  | .restore => some (s.onStore fun store => swept store (store.restore s.clock.seconds))
  | .clean sweeps =>
    some (s.onStore fun store => (.reply (.ok .done), store.clean s.clock.seconds sweeps))
  | .countResolved =>
    some (s.onStore fun store => (.reply (.ok (.count store.resolved.length)), store))
  | .maxDatabases =>
    some (s.onStore fun store => (.reply (.ok (.count store.config.maxDatabases)), store))
  | .config => some (s.onStore fun store => (.config store.config, store))
  | .reopen writes config =>
    let (r, s) := s.mount writes (config.getD s.config)
    match r with
    | .ok () => some (.reply (.ok .done), s)
    | .error e => some (.failed e, s)
  | .dump =>
    let reattached := s.store.map fun store =>
      if store.config.temporary then { store.reattach with storage := .empty } else store.reattach
    some (.contents s.records.contents, { s with store := reattached })

/-- A session with a store, opened on some records. -/
def begin (wall : Int64) (config : Option Config) (writes : List Storage.RawWrite) :
    Except LoadError Session :=
  match (bare wall).mount writes config with
  | (.ok (), s) => .ok s
  | (.error e, _) => .error e

/-- Carries out steps one after the other, as long as none names a context that there is not. -/
def run (s : Session) : List Step → List Answer × Session
  | [] => ([], s)
  | t :: ts =>
    match s.step t with
    | none => ([], s)
    | some (a, s) =>
      let (as, s) := s.run ts
      (a :: as, s)

end Session

end Keyspace
