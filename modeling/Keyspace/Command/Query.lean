import Keyspace.Command.Reply
import Keyspace.Value.MemberSet
import Keyspace.Value.Sequence
import Keyspace.Value.SortedSet

/-!
# Queries

A query is answered from the value of its key alone, so it cannot change anything.
-/

namespace Keyspace

/-- The commands that read the value of a key. -/
inductive Query
  | get
  | isPresent
  | lindex (index : Int)
  | lrange (start stop : Int)
  | llen
  | smembers
  | sismember (member : Bytes)
  | scard
  | zrange (start stop : Int)
  | zrangeWithScores (start stop : Int)
  | zcount (min max : Score)
  | zscore (member : Bytes)
  | zcard
  deriving DecidableEq, Repr

/-- The answer to a query about the value stored under `key`. -/
def Query.answer (key : Bytes) (value : Option Bytes) : Query → Except Error Reply
  | get => .ok (.bytes? value)
  | isPresent => .ok (.flag value.isSome)
  | lindex i => (Sequence.element i key value).map .bytes?
  | lrange start stop => (Sequence.range start stop key value).map .members
  | llen => (Sequence.length key value).map .count
  | smembers => (MemberSet.members key value).map .members
  | sismember m => (MemberSet.contains m key value).map .flag
  | scard => (MemberSet.card key value).map .count
  | zrange start stop =>
    (SortedSet.range start stop key value).map fun l => .members (l.map (·.member))
  | zrangeWithScores start stop => (SortedSet.range start stop key value).map .ranked
  | zcount min max => (SortedSet.count min max key value).map .count
  | zscore m => (SortedSet.score m key value).map .score?
  | zcard => (SortedSet.card key value).map .count

end Keyspace
