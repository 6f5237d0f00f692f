import Keyspace.Json
import Keyspace.Bytes

/-!
# Writing JSON

`compact` writes a value on one line without blanks, `pretty` with one item or field on a line,
indented by two spaces for each level. Both escape in a string the quote, the backslash and the
control characters, and write every other character as it is.
-/

namespace Keyspace.Json

/-- A character as it is written in a string. -/
def escape (c : Char) : String :=
  match c with
  | '"' => "\\\""
  | '\\' => "\\\\"
  | '\n' => "\\n"
  | '\r' => "\\r"
  | '\t' => "\\t"
  | '\x08' => "\\b"
  | '\x0c' => "\\f"
  | c => if c.toNat < 32 then "\\u00" ++ Bytes.hex [UInt8.ofNat c.toNat] else c.toString

/-- A text between quotes. -/
def quote (s : String) : String := "\"" ++ String.join (s.toList.map escape) ++ "\""

/-- How lists are laid out: on one line, or one level of nesting deeper than the level given. -/
inductive Style
  | line
  | indented (level : Nat)

namespace Style

/-- The line break before a line of this level. -/
def newline (level : Nat) : String := "\n" ++ String.ofList (List.replicate (2 * level) ' ')

/-- The style of what stands inside a list. -/
def inner : Style → Style
  | line => line
  | indented level => indented (level + 1)

/-- What stands before each item. -/
def before : Style → String
  | line => ""
  | indented level => newline (level + 1)

/-- What stands after the last item. -/
def after : Style → String
  | line => ""
  | indented level => newline level

/-- What stands between a field name and its value. -/
def colon : Style → String
  | line => ":"
  | indented _ => ": "

/-- The list of the written items between its brackets. -/
def wrap (style : Style) (left right : String) (items : List String) : String :=
  if items.isEmpty then left ++ right
  else left ++ ",".intercalate (items.map (style.before ++ ·)) ++ style.after ++ right

end Style

mutual

/-- The value written in a style. -/
def render (style : Style) : Json → String
  | .null => "null"
  | .bool b => if b then "true" else "false"
  | .number (.integer n) => toString n
  | .number (.other text) => text
  | .string text => quote (text.getD "")
  | .array items => style.wrap "[" "]" (renderItems style.inner items)
  | .object fields => style.wrap "\x7b" "\x7d" (renderFields style.inner fields)

/-- The items of an array, each written in a style. -/
def renderItems (style : Style) : List Json → List String
  | [] => []
  | j :: l => render style j :: renderItems style l

/-- The fields of an object, each written in a style. -/
def renderFields (style : Style) : List (Option String × Json) → List String
  | [] => []
  | (name, j) :: l =>
    (quote (name.getD "") ++ style.colon ++ render style j) :: renderFields style l

end

/-- The value on one line. -/
def compact (j : Json) : String := render .line j

/-- The value with one item or field on a line. -/
def pretty (j : Json) : String := render (.indented 0) j

end Keyspace.Json
