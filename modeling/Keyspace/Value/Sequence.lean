import Keyspace.Position
import Keyspace.Record.Members
import Keyspace.Value

/-!
# Lists

A list is a member sequence that grows and shrinks at both ends. A list without elements is not
kept: taking out the last element drops the key. The functions take the key, for the wording of
failures, and the value stored under it.
-/

namespace Keyspace.Sequence

/-- The two ends of a list. -/
inductive End
  | head
  | tail
  deriving DecidableEq, Repr

/-- The list with `v` at one end. -/
def pushAt (v : Bytes) (l : List Bytes) : End → List Bytes
  | .head => v :: l
  | .tail => l ++ [v]

/-- The element at one end, if there is one, and the other elements. -/
def popAt (l : List Bytes) : End → Option Bytes × List Bytes
  | .head => (l.head?, l.tail)
  | .tail => (l.getLast?, l.dropLast)

/-- The list that a value holds, if there is a value. -/
def read (access : Access) (key : Bytes) (value : Option Bytes) :
    Except Error (Option (List Bytes)) :=
  Value.read Members.decode access key value

/-- Stores a list, or drops the key of an empty one. -/
def store (l : List Bytes) : Except Error Write :=
  if l.isEmpty then .ok .drop else Value.put (Members.encode l)

/-- Puts `v` at one end; the answer is the new length. -/
def push (e : End) (v key : Bytes) (value : Option Bytes) : Except Error (Nat × Write) := do
  let l ← read .write key value
  let l := pushAt v (l.getD []) e
  let w ← Value.put (Members.encode l)
  return (l.length, w)

/-- Takes the element at one end out. -/
def pop (e : End) (key : Bytes) (value : Option Bytes) :
    Except Error (Option Bytes × Write) := do
  match ← read .write key value with
  | none => return (none, .keep)
  | some l =>
    let (x, l) := popAt l e
    let w ← store l
    return (x, w)

/-- Puts `v` in the place of the element at a position. -/
def assign (i : Int) (v key : Bytes) (value : Option Bytes) : Except Error Write := do
  match ← read .write key value with
  | none => throw .keyNotFound
  | some l =>
    match Position.resolve l.length i with
    | none => throw .indexOutOfRange
    | some k => Value.put (Members.encode (l.set k v))

/-- The element at a position, if there is one. -/
def element (i : Int) (key : Bytes) (value : Option Bytes) : Except Error (Option Bytes) := do
  let l := (← read .read key value).getD []
  return (Position.resolve l.length i).bind (l[·]?)

/-- The elements from one position to another. -/
def range (start stop : Int) (key : Bytes) (value : Option Bytes) :
    Except Error (List Bytes) := do
  let l := (← read .read key value).getD []
  return Position.slice l start stop

/-- The number of elements. -/
def length (key : Bytes) (value : Option Bytes) : Except Error Nat := do
  let l := (← read .read key value).getD []
  return l.length

end Keyspace.Sequence
