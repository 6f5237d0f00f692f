import Keyspace.Error
import Keyspace.Json.Reader

/-!
# Configuration

A store is configured by a record of settings, each with a default, that can be given as a JSON
object, in which fields that are no settings are skipped and no setting may be given twice, or as a
JSON array of the settings in their order. `Config.validate` refuses what a store cannot run with.
-/

namespace Keyspace

/-- The settings of a store. -/
structure Config where
  /-- Where the data lies. -/
  dataDir : String := "crab_vault_data"
  /-- The data is not kept beyond the store. -/
  temporary : Bool := false
  /-- Databases have numbers below this one. -/
  maxDatabases : Nat := 100
  /-- The size of the page cache, in bytes. -/
  cacheCapacity : Nat := 64 * 1024 * 1024
  /-- The time between two writes to the disk, in milliseconds, if there is one. -/
  flushEveryMs : Option Nat := some 500
  /-- The time between two sweeps in the background, in seconds. -/
  cleanupIntervalSecs : Nat := 60
  /-- How many entries one sweep removes at most. -/
  cleanupBatchSize : Nat := 100
  /-- Whether opening removes what has expired. -/
  restoreOnOpen : Bool := true
  deriving DecidableEq, Repr

namespace Config

/-- The largest number of databases that a store can have. -/
def mostDatabases : Nat := 100

/-- The defaults with the data at `dir`. -/
def withDir (dir : String) : Config := { dataDir := dir }

/-- The defaults for data that is not kept. -/
def forTemporary : Config := { temporary := true }

/-- Why a store cannot run with a configuration. -/
inductive Fault
  /-- There are no databases, or too many. -/
  | databases (count : Nat)
  /-- A sweep could not remove anything. -/
  | batchSize
  /-- Sweeps would follow each other without a pause. -/
  | interval
  deriving DecidableEq, Repr

/-- The description of a fault. -/
def Fault.message : Fault → String
  | databases count => s!"max_databases must be within 1..={mostDatabases}, got {count}"
  | batchSize => "cleanup_batch_size must be positive"
  | interval => "cleanup_interval_secs must be positive"

/-- The failure of a request that needs a valid configuration. -/
def Fault.toError (f : Fault) : Error := .config f.message

/-- Refuses a configuration with which a store cannot run. -/
def validate (c : Config) : Except Fault Unit :=
  if c.maxDatabases = 0 ∨ mostDatabases < c.maxDatabases then .error (.databases c.maxDatabases)
  else if c.cleanupBatchSize = 0 then .error .batchSize
  else if c.cleanupIntervalSecs = 0 then .error .interval
  else .ok ()

/-! ## Reading -/

open scoped Powers in
/-- A natural number of at most `bits` bits. -/
def word? (bits : Nat) (j : Json) : Option Nat :=
  j.nat?.bind fun n => if n < 2 ^ bits then some n else none

/-- A natural number of at most `bits` bits, or none given as such. -/
def optionalWord? (bits : Nat) : Json → Option (Option Nat)
  | .null => some none
  | j => (word? bits j).map some

/-- A setting: its name and how it is read into a configuration. -/
structure Setting where
  name : String
  read : Json → Config → Option Config

/-- The settings in their order. -/
def settings : List Setting :=
  [⟨"data_dir", fun j c => j.text?.map fun v => { c with dataDir := v }⟩,
   ⟨"temporary", fun j c => j.bool?.map fun v => { c with temporary := v }⟩,
   ⟨"max_databases", fun j c => (word? 32 j).map fun v => { c with maxDatabases := v }⟩,
   ⟨"cache_capacity", fun j c => (word? 64 j).map fun v => { c with cacheCapacity := v }⟩,
   ⟨"flush_every_ms", fun j c => (optionalWord? 64 j).map fun v => { c with flushEveryMs := v }⟩,
   ⟨"cleanup_interval_secs",
    fun j c => (word? 64 j).map fun v => { c with cleanupIntervalSecs := v }⟩,
   ⟨"cleanup_batch_size", fun j c => (word? 64 j).map fun v => { c with cleanupBatchSize := v }⟩,
   ⟨"restore_on_open", fun j c => j.bool?.map fun v => { c with restoreOnOpen := v }⟩]

/-- Reads named fields into a configuration; `left` are the settings not given yet. -/
def readFields (left : List Setting) : List (Option String × Json) → Config → Option Config
  | [], c => some c
  | (none, _) :: _, _ => none
  | (some name, j) :: fields, c =>
    match left.find? (·.name = name) with
    | some s => (s.read j c).bind (readFields (left.filter (·.name ≠ name)) fields)
    | none =>
      if settings.any (·.name = name) then none else readFields left fields c

/-- Reads as many settings as there are items, which must not be more. -/
def readItems : List Setting → List Json → Config → Option Config
  | _, [], c => some c
  | [], _ :: _, _ => none
  | s :: left, j :: items, c => (s.read j c).bind (readItems left items)

/-- The configuration that a JSON value gives, with the defaults for what it leaves out. -/
def ofJson? : Json → Option Config
  | .object fields => readFields settings fields {}
  | .array items => readItems settings items {}
  | _ => none

/-! ## Writing -/

/-- The settings and their values, in their order. -/
def toFields (c : Config) : List (String × Json) :=
  [("data_dir", .str c.dataDir),
   ("temporary", .bool c.temporary),
   ("max_databases", .nat c.maxDatabases),
   ("cache_capacity", .nat c.cacheCapacity),
   ("flush_every_ms", match c.flushEveryMs with | some n => .nat n | none => .null),
   ("cleanup_interval_secs", .nat c.cleanupIntervalSecs),
   ("cleanup_batch_size", .nat c.cleanupBatchSize),
   ("restore_on_open", .bool c.restoreOnOpen)]

/-- The configuration as an object. -/
def toJson (c : Config) : Json := .fields c.toFields

end Config

end Keyspace
