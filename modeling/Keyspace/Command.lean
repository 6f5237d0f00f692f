import Keyspace.Command.Change
import Keyspace.Command.Lifetime
import Keyspace.Command.Query

/-!
# Commands

The commands on one key fall into three kinds, by what they can do to its slot: a `Query` reads the
value, a `Change` writes it, and a `Lifetime` command reads or sets the deadline. `KeyCommand.run`
puts them on one footing. All but one settle the slot first, so an expired key is an absent one to
them. The other commands concern several keys or a whole database.
-/

namespace Keyspace

/-! ## Commands on one key -/

/-- The commands on one key. -/
inductive KeyCommand
  | query (q : Query)
  | change (c : Change)
  | lifetime (l : Lifetime)
  deriving DecidableEq, Repr

namespace KeyCommand

/-- What a command answers for the slot of `key`, and the slot that it leaves. -/
def run (key : Bytes) (clock : Clock) (s : Slot) : KeyCommand → Except Error (Reply × Slot)
  | query q => do
    let s ← s.settle key clock.seconds
    let r ← q.answer key s.value
    return (r, s)
  | change c => do
    let s ← s.settle key clock.seconds
    let (r, w) ← c.apply key s.value
    return (r, s.write w)
  | lifetime l => l.run key clock s

/-- The answer of a command whose arguments decide it, whatever is stored. -/
def shortcut : KeyCommand → Option (Except Error Reply)
  | lifetime (.expire seconds) => if seconds < 0 then some (.ok (.flag false)) else none
  | change (.zadd score _) => if score.isNaN then some (.error .invalidScore) else none
  | query (.zcount min max) => if max.lt min then some (.ok (.number 0)) else none
  | _ => none

/-- The answer to the caller, made from the reply once what the command left is stored. Not to
find the value that was asked for is a failure only then. -/
def finish (c : KeyCommand) (r : Reply) : Except Error Reply :=
  if c = query .get ∧ r = .missing then .error .keyNotFound else .ok r

/-- The answer for a key that is no key: only the question whether it is there has one. -/
def refuse (c : KeyCommand) (e : Error) : Except Error Reply :=
  if c = query .isPresent then .ok (.flag false) else .error e

end KeyCommand

/-! ## All commands -/

/-- The commands. -/
inductive Command
  | onKey (key : Bytes) (c : KeyCommand)
  | del (keys : List Bytes)
  | flushAll
  | dbSize
  | close
  deriving DecidableEq, Repr

/-- The length of the longest key. -/
def maxKeyLength : Nat := 511

/-- A key has at least one byte and not too many. -/
def checkKey (key : Bytes) : Except Error Unit :=
  if key.isEmpty then .error .emptyKey
  else if maxKeyLength < key.length then .error (.keyTooLarge key.length maxKeyLength)
  else .ok ()

/-- The byte string can be a key. -/
def isKey (key : Bytes) : Bool :=
  match checkKey key with
  | .ok () => true
  | .error _ => false

end Keyspace
