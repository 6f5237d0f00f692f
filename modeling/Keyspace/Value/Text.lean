import Keyspace.Record.Counter
import Keyspace.Slot

/-!
# Plain values and counters

A plain value is any byte string. A counter is a plain value that spells a number; an absent key
counts as the empty string for `Text.append` and as zero for `Text.update`.
-/

namespace Keyspace.Text

/-- Adds bytes at the end; the answer is the new length. -/
def append (suffix : Bytes) (value : Option Bytes) : Nat × Write :=
  let b := value.getD [] ++ suffix
  (b.length, .put b)

/-- The counter that a value holds. -/
def counter (value : Option Bytes) : Except Error Int :=
  match value with
  | none => .ok 0
  | some b =>
    match Counter.decode b with
    | some n => .ok n
    | none => .error .notInteger

/-- Moves a counter by a step; the answer is the new number, which must be a counter again. -/
def update (step : Int → Int) (value : Option Bytes) : Except Error (Int × Write) := do
  let n ← counter value
  match Counter.fit? (step n) with
  | some m => return (m, .put (Counter.encode m))
  | none => throw .overflow

end Keyspace.Text
