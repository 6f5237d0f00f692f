import Keyspace.Json

/-!
# Reading JSON

`Json.read?` reads one value that takes up a whole text, by the grammar of JSON and nothing more:
blanks are the space, the tab, the line feed and the carriage return; no comma ends a list, no
number starts with a plus sign or an idle zero, and no control character stands in a string.
-/

namespace Keyspace.Json

/-- The characters that may stand between the parts of a value. -/
def isBlank (c : Char) : Bool := c == ' ' || c == '\t' || c == '\n' || c == '\r'

/-- The text from its first character on that is not blank. -/
def skipBlanks (s : List Char) : List Char := s.dropWhile isBlank

/-! ## Strings -/

/-- A part of a string: a character, or a unit of sixteen bits that an escape gives as a number. -/
inductive Piece
  | char (c : Char)
  | unit (n : Nat)

/-- The value of a hexadecimal digit in either case. -/
def hexValue? (c : Char) : Option Nat :=
  if c.isDigit then some (c.toNat - 48)
  else if 'a' ≤ c ∧ c ≤ 'f' then some (c.toNat - 87)
  else if 'A' ≤ c ∧ c ≤ 'F' then some (c.toNat - 55)
  else none

/-- The number that four hexadecimal digits write. -/
def hexUnit? (a b c d : Char) : Option Nat := do
  let a ← hexValue? a
  let b ← hexValue? b
  let c ← hexValue? c
  let d ← hexValue? d
  return ((a * 16 + b) * 16 + c) * 16 + d

/-- The character that a one-letter escape stands for. -/
def escaped? : Char → Option Char
  | '"' => some '"'
  | '\\' => some '\\'
  | '/' => some '/'
  | 'b' => some '\x08'
  | 'f' => some '\x0c'
  | 'n' => some '\n'
  | 'r' => some '\r'
  | 't' => some '\t'
  | _ => none

/-- The parts of a string after its opening quote, and what follows the closing one. -/
def readPieces : List Char → Option (List Piece × List Char)
  | '"' :: s => some ([], s)
  | '\\' :: 'u' :: a :: b :: c :: d :: s => do
    let n ← hexUnit? a b c d
    let (ps, rest) ← readPieces s
    return (.unit n :: ps, rest)
  | '\\' :: e :: s => do
    let c ← escaped? e
    let (ps, rest) ← readPieces s
    return (.char c :: ps, rest)
  | c :: s =>
    if c = '\\' ∨ c.toNat < 32 then none
    else do
      let (ps, rest) ← readPieces s
      return (.char c :: ps, rest)
  | [] => none

/-- The unit is the first half of a pair. -/
def isHigh (n : Nat) : Bool := 0xd800 ≤ n && n < 0xdc00

/-- The unit is the second half of a pair. -/
def isLow (n : Nat) : Bool := 0xdc00 ≤ n && n < 0xe000

/-- The characters of a string, if every half of a pair meets its other half. -/
def assemble? : List Piece → Option (List Char)
  | [] => some []
  | .char c :: ps => (assemble? ps).map (c :: ·)
  | .unit h :: .unit l :: ps =>
    if isHigh h then
      if isLow l then
        (assemble? ps).map (Char.ofNat (0x10000 + (h - 0xd800) * 0x400 + (l - 0xdc00)) :: ·)
      else none
    else if isLow h then none
    else (assemble? (.unit l :: ps)).map (Char.ofNat h :: ·)
  | .unit h :: ps =>
    if isHigh h || isLow h then none else (assemble? ps).map (Char.ofNat h :: ·)

/-- A string after its opening quote. -/
def readString (s : List Char) : Option (Option String × List Char) :=
  (readPieces s).map fun (ps, rest) => ((assemble? ps).map String.ofList, rest)

/-! ## Numbers -/

/-- One or more digits. -/
def readDigits (s : List Char) : Option (List Char × List Char) :=
  let digits := s.takeWhile Char.isDigit
  if digits.isEmpty then none else some (digits, s.dropWhile Char.isDigit)

/-- The digits before the point, without an idle zero. -/
def readWhole (s : List Char) : Option (List Char × List Char) :=
  match s with
  | '0' :: c :: s => if c.isDigit then none else some (['0'], c :: s)
  | s => readDigits s

/-- The point and the digits after it, if there is a point. -/
def readFraction (s : List Char) : Option (List Char × List Char) :=
  match s with
  | '.' :: s => (readDigits s).map fun (ds, rest) => ('.' :: ds, rest)
  | s => some ([], s)

/-- The sign of an exponent, if it has one. -/
def readSign (s : List Char) : List Char × List Char :=
  match s with
  | '+' :: s => (['+'], s)
  | '-' :: s => (['-'], s)
  | s => ([], s)

/-- The exponent, if there is one. -/
def readExponent (s : List Char) : Option (List Char × List Char) :=
  match s with
  | c :: s =>
    if c = 'e' ∨ c = 'E' then
      let (sign, s) := readSign s
      (readDigits s).map fun (ds, rest) => (c :: sign ++ ds, rest)
    else some ([], c :: s)
  | [] => some ([], [])

/-- The digits write an integer: alone, not too many, and not as minus zero. -/
def isInteger (negative : Bool) (whole fraction exponent : List Char) : Bool :=
  fraction.isEmpty && exponent.isEmpty && whole.length ≤ Numeral.width
    && !(negative && whole == ['0'])

/-- The number with these parts. -/
def numeral (negative : Bool) (whole fraction exponent : List Char) : Numeral :=
  if isInteger negative whole fraction exponent then
    let n := Nat.ofDigitChars 10 whole 0
    .integer (if negative then -n else n)
  else
    .other (String.ofList ((if negative then ['-'] else []) ++ whole ++ fraction ++ exponent))

/-- A number after its minus sign, if it has one. -/
def readUnsigned (negative : Bool) (s : List Char) : Option (Numeral × List Char) := do
  let (whole, s) ← readWhole s
  let (fraction, s) ← readFraction s
  let (exponent, s) ← readExponent s
  return (numeral negative whole fraction exponent, s)

/-- A number. -/
def readNumber (s : List Char) : Option (Numeral × List Char) :=
  match s with
  | '-' :: s => readUnsigned true s
  | s => readUnsigned false s

/-! ## Values -/

/-- What follows a word that has to stand here. -/
def expect (word s : List Char) : Option (List Char) :=
  if word.isPrefixOf s then some (s.drop word.length) else none

/-- A field name, its colon and what follows. -/
def readName (s : List Char) : Option (Option String × List Char) := do
  let s ← expect ['"'] (skipBlanks s)
  let (name, s) ← readString s
  let s ← expect [':'] (skipBlanks s)
  return (name, s)

mutual

/-- A value and what follows it. -/
def readValue : Nat → List Char → Option (Json × List Char)
  | 0, _ => none
  | fuel + 1, s =>
    match skipBlanks s with
    | 'n' :: s => (expect ['u', 'l', 'l'] s).map (Json.null, ·)
    | 't' :: s => (expect ['r', 'u', 'e'] s).map (Json.bool true, ·)
    | 'f' :: s => (expect ['a', 'l', 's', 'e'] s).map (Json.bool false, ·)
    | '"' :: s => (readString s).map fun (text, rest) => (.string text, rest)
    | '[' :: s =>
      match skipBlanks s with
      | ']' :: s => some (.array [], s)
      | s => (readItems fuel s).map fun (items, rest) => (.array items, rest)
    | '{' :: s =>
      match skipBlanks s with
      | '}' :: s => some (.object [], s)
      | s => (readFields fuel s).map fun (fields, rest) => (.object fields, rest)
    | s => (readNumber s).map fun (n, rest) => (.number n, rest)

/-- One or more items of an array and what follows its end. -/
def readItems : Nat → List Char → Option (List Json × List Char)
  | 0, _ => none
  | fuel + 1, s => do
    let (item, s) ← readValue fuel s
    match skipBlanks s with
    | ',' :: s =>
      let (items, s) ← readItems fuel s
      return (item :: items, s)
    | ']' :: s => return ([item], s)
    | _ => none

/-- One or more fields of an object and what follows its end. -/
def readFields : Nat → List Char → Option (List (Option String × Json) × List Char)
  | 0, _ => none
  | fuel + 1, s => do
    let (name, s) ← readName s
    let (value, s) ← readValue fuel s
    match skipBlanks s with
    | ',' :: s =>
      let (fields, s) ← readFields fuel s
      return ((name, value) :: fields, s)
    | '}' :: s => return ([(name, value)], s)
    | _ => none

end

/-- The value that a whole text writes. Two nested calls never pass without a character being read
between them, so twice the length of the text bounds their depth. -/
def read? (text : String) : Option Json := do
  let s := text.toList
  let (j, rest) ← readValue (2 * s.length + 2) s
  if (skipBlanks rest).isEmpty then return j else none

end Keyspace.Json
