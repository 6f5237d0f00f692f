import Keyspace.Command.Reply
import Keyspace.Value.MemberSet
import Keyspace.Value.Sequence
import Keyspace.Value.SortedSet
import Keyspace.Value.Text

/-!
# Changes

A change turns the value of its key into an answer and a `Write`. It does not see the deadline.
-/

namespace Keyspace

/-- The commands that write the value of a key. -/
inductive Change
  | set (value : Bytes)
  | append (suffix : Bytes)
  | incr
  | decr
  | incrBy (delta : Int)
  | decrBy (delta : Int)
  | lpush (value : Bytes)
  | rpush (value : Bytes)
  | lpop
  | rpop
  | lset (index : Int) (value : Bytes)
  | sadd (member : Bytes)
  | srem (member : Bytes)
  | zadd (score : Score) (member : Bytes)
  | zrem (member : Bytes)
  deriving DecidableEq, Repr

/-- What a change answers and writes, for the value stored under `key`. -/
def Change.apply (key : Bytes) (value : Option Bytes) : Change → Except Error (Reply × Write)
  | set v => .ok (.done, .put v)
  | append suffix => let (n, w) := Text.append suffix value; .ok (.count n, w)
  | incr => Reply.via .number (Text.update (· + 1) value)
  | decr => Reply.via .number (Text.update (· - 1) value)
  | incrBy delta => Reply.via .number (Text.update (· + delta) value)
  | decrBy delta => Reply.via .number (Text.update (· - delta) value)
  | lpush v => Reply.via .count (Sequence.push .head v key value)
  | rpush v => Reply.via .count (Sequence.push .tail v key value)
  | lpop => Reply.via .bytes? (Sequence.pop .head key value)
  | rpop => Reply.via .bytes? (Sequence.pop .tail key value)
  | lset i v => (Sequence.assign i v key value).map fun w => (.done, w)
  | sadd m => Reply.via .flag (MemberSet.add m key value)
  | srem m => Reply.via .flag (MemberSet.remove m key value)
  | zadd s m => Reply.via .flag (SortedSet.add s m key value)
  | zrem m => Reply.via .flag (SortedSet.remove m key value)

end Keyspace
