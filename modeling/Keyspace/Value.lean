import Keyspace.Error
import Keyspace.Slot

/-!
# Values as records

A value carries no mark of its kind: a command on composite values reads the value by the layout
that it wants, and a failure to do so is its answer. An absent key has no value to read.
-/

namespace Keyspace.Value

/-- Reads the value of `key`, if there is one, as a record with the given reader. -/
def read {α : Type} (decode : Bytes → Except DecodeError α) (access : Access) (key : Bytes)
    (value : Option Bytes) : Except Error (Option α) :=
  match value with
  | none => .ok none
  | some b =>
    match decode b with
    | .ok a => .ok (some a)
    | .error e => .error (e.toError key access)

/-- Writes a record, unless it cannot be written. -/
def put (record : Except EncodeError Bytes) : Except Error Write :=
  match record with
  | .ok b => .ok (.put b)
  | .error e => .error e.toError

end Keyspace.Value
