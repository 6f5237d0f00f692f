/-!
# JSON values

A value is kept as its text wrote it, where that can make a difference: fields keep their order and
may repeat, and an integer of moderate size is set apart from the other numbers. A string whose
escapes leave half of a surrogate pair spells no text; it is a string all the same, and only a
reader who wants its text has to refuse it.
-/

namespace Keyspace

/-- A number as written. -/
inductive Numeral
  /-- At most `Numeral.width` digits after an optional minus sign; minus zero is none of these. -/
  | integer (n : Int)
  /-- Any other number. -/
  | other (text : String)
  deriving DecidableEq, Repr

/-- The digits of an integer, enough for every number of 64 bits. -/
def Numeral.width : Nat := 20

/-- A JSON value; strings and field names without a text stand as `none`. -/
inductive Json
  | null
  | bool (b : Bool)
  | number (n : Numeral)
  | string (text : Option String)
  | array (items : List Json)
  | object (fields : List (Option String × Json))

namespace Json

/-- A string with this text. -/
def str (s : String) : Json := .string (some s)

/-- An integer. -/
def int (n : Int) : Json := .number (.integer n)

/-- A natural number. -/
def nat (n : Nat) : Json := int n

/-- An object with these fields. -/
def fields (l : List (String × Json)) : Json := .object (l.map fun (k, v) => (some k, v))

/-- The text of a string. -/
def text? : Json → Option String
  | .string text => text
  | _ => none

/-- The truth value. -/
def bool? : Json → Option Bool
  | .bool b => some b
  | _ => none

/-- The integer. -/
def int? : Json → Option Int
  | .number (.integer n) => some n
  | _ => none

/-- The natural number. -/
def nat? (j : Json) : Option Nat := j.int?.bind Int.toNat?

/-- The items of an array. -/
def items? : Json → Option (List Json)
  | .array items => some items
  | _ => none

/-- The value of the last field of this name. -/
def field? (j : Json) (name : String) : Option Json :=
  match j with
  | .object fields => fields.reverse.lookup (some name)
  | _ => none

end Json

end Keyspace
