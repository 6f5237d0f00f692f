import Keyspace.Position
import Keyspace.Record.Ranking
import Keyspace.Value

/-!
# Sorted sets

A sorted set gives each of its members a score and ranks them by score and then by member. It is
stored as its ranking. A sorted set without members is not kept.
-/

namespace Keyspace.SortedSet

/-- The ranking that a value holds, if there is a value. -/
def read (access : Access) (key : Bytes) (value : Option Bytes) :
    Except Error (Option (List ScoredMember)) :=
  Value.read Ranking.decode access key value

/-- Gives a member its score; the answer says that the member is new. -/
def add (score : Score) (m key : Bytes) (value : Option Bytes) : Except Error (Bool × Write) := do
  let l := (← read .write key value).getD []
  let (isNew, l) := Ranking.upsert score m l
  let w ← Value.put (Ranking.encode l)
  return (isNew, w)

/-- Takes a member out; the answer says that it was one. -/
def remove (m key : Bytes) (value : Option Bytes) : Except Error (Bool × Write) := do
  let l := (← read .write key value).getD []
  let rest := l.filter (·.member ≠ m)
  if rest.length = l.length then return (false, .keep)
  else if rest.isEmpty then return (true, .drop)
  else
    let w ← Value.put (Ranking.encode rest)
    return (true, w)

/-- The scored members from one rank to another. -/
def range (start stop : Int) (key : Bytes) (value : Option Bytes) :
    Except Error (List ScoredMember) := do
  return Position.slice ((← read .read key value).getD []) start stop

/-- The number of members with a score from `min` to `max`. -/
def count (min max : Score) (key : Bytes) (value : Option Bytes) : Except Error Nat := do
  return ((← read .read key value).getD []).countP fun x => min.le x.score && x.score.le max

/-- The score of a member, if it is one. -/
def score (m key : Bytes) (value : Option Bytes) : Except Error (Option Score) := do
  return (((← read .read key value).getD []).find? (·.member = m)).map (·.score)

/-- The number of members. -/
def card (key : Bytes) (value : Option Bytes) : Except Error Nat := do
  return ((← read .read key value).getD []).length

end Keyspace.SortedSet
