import Keyspace.Record.Members
import Keyspace.Value

/-!
# Sets

A set is a member sequence in which no member occurs twice; its order has no meaning. A new member
goes to the end, and the last member takes the place of one that is taken out. A set without
members is not kept.
-/

namespace Keyspace.MemberSet

/-- The members without `m`, if it is one of them. -/
def without? (m : Bytes) (l : List Bytes) : Option (List Bytes) :=
  (l.idxOf? m).map fun i => (l.set i (l.getLastD m)).dropLast

/-- The set that a value holds, if there is a value. -/
def read (access : Access) (key : Bytes) (value : Option Bytes) :
    Except Error (Option (List Bytes)) :=
  Value.read Members.decodeDistinct access key value

/-- Adds a member; the answer says that it is new. -/
def add (m key : Bytes) (value : Option Bytes) : Except Error (Bool × Write) := do
  let l := (← read .write key value).getD []
  if m ∈ l then return (false, .keep)
  else
    let w ← Value.put (Members.encode (l ++ [m]))
    return (true, w)

/-- Takes a member out; the answer says that it was one. -/
def remove (m key : Bytes) (value : Option Bytes) : Except Error (Bool × Write) := do
  let l := (← read .write key value).getD []
  match without? m l with
  | none => return (false, .keep)
  | some [] => return (true, .drop)
  | some l =>
    let w ← Value.put (Members.encode l)
    return (true, w)

/-- The members as they are stored. -/
def members (key : Bytes) (value : Option Bytes) : Except Error (List Bytes) := do
  return (← read .read key value).getD []

/-- `m` is a member. -/
def contains (m key : Bytes) (value : Option Bytes) : Except Error Bool := do
  return decide (m ∈ (← read .read key value).getD [])

/-- The number of members. -/
def card (key : Bytes) (value : Option Bytes) : Except Error Nat := do
  return ((← read .read key value).getD []).length

end Keyspace.MemberSet
