import Keyspace.Record.Ranking
import Keyspace.Slot

/-!
# Replies

All commands answer with a `Reply`. The functions here bring answers of other types to that form.
-/

namespace Keyspace

/-- The answer to a command. -/
inductive Reply
  | done
  | missing
  | flag (b : Bool)
  | number (n : Int)
  | bytes (b : Bytes)
  | members (l : List Bytes)
  | ranked (l : List ScoredMember)
  | score (s : Score)
  deriving DecidableEq, Repr

namespace Reply

/-- A natural number as an answer. -/
def count (n : Nat) : Reply := .number n

/-- Some bytes, or nothing, as an answer. -/
def bytes? : Option Bytes → Reply
  | none => .missing
  | some b => .bytes b

/-- A score, or nothing, as an answer. -/
def score? : Option Score → Reply
  | none => .missing
  | some s => .score s

/-- An answer of another type made into a reply, next to what is to be written. -/
def via {α : Type} (f : α → Reply) (r : Except Error (α × Write)) :
    Except Error (Reply × Write) :=
  r.map fun (a, w) => (f a, w)

end Reply

end Keyspace
