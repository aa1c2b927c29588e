/-!
# Documents to write

JSON values with the members of objects in order, and their two written forms: without any space, and with one member or
element a line.
-/

namespace OfflineSigner.Json

/-- A value to write. -/
inductive Value where
  | null
  | bool (b : Bool)
  | number (n : Int)
  | string (s : String)
  | array (items : List Value)
  | object (members : List (String × Value))

/-- The value of an optional text: null where there is none. -/
def Value.ofText? : Option String → Value
  | some s => .string s
  | none => .null

/-- The digits of a control character's code, in four places. -/
def codeDigits (c : Char) : List Char :=
  let digits := Nat.toDigits 16 c.toNat
  List.replicate (4 - digits.length) '0' ++ digits

/-- A character inside a written string. Quotes, backslashes and control characters are escaped, nothing else. -/
def escapeChar (c : Char) : List Char :=
  if c == '"' then ['\\', '"']
  else if c == '\\' then ['\\', '\\']
  else if c == '\x08' then ['\\', 'b']
  else if c == '\x0c' then ['\\', 'f']
  else if c == '\n' then ['\\', 'n']
  else if c == '\r' then ['\\', 'r']
  else if c == '\t' then ['\\', 't']
  else if c.toNat < 0x20 then '\\' :: 'u' :: codeDigits c
  else [c]

/-- A string between its quotes. -/
def writeString (s : String) : List Char := '"' :: s.toList.flatMap escapeChar ++ ['"']

/-- Pieces with a separator between each two. -/
def separated (separator : List Char) : List (List Char) → List Char
  | [] => []
  | [piece] => piece
  | piece :: pieces => piece ++ separator ++ separated separator pieces

mutual

/-- The characters of a value without any space. -/
def Value.compactChars : Value → List Char
  | .null => "null".toList
  | .bool b => (if b then "true" else "false").toList
  | .number n => (toString n).toList
  | .string s => writeString s
  | .array items => '[' :: separated [','] (Value.compactItems items) ++ [']']
  | .object members => '\x7b' :: separated [','] (Value.compactMembers members) ++ ['\x7d']

/-- The elements of an array, each without any space. -/
def Value.compactItems : List Value → List (List Char)
  | [] => []
  | item :: items => item.compactChars :: Value.compactItems items

/-- The members of an object, each without any space. -/
def Value.compactMembers : List (String × Value) → List (List Char)
  | [] => []
  | (key, value) :: members => (writeString key ++ ':' :: value.compactChars) :: Value.compactMembers members

end

/-- The text of a value without any space. -/
def Value.compact (v : Value) : String := String.ofList v.compactChars

/-- A new line with two spaces for each level. -/
def newLine (level : Nat) : List Char := '\n' :: List.replicate (2 * level) ' '

/-- Lines between brackets; brackets around nothing stay together. -/
def bracketed (left right : Char) (level : Nat) (lines : List (List Char)) : List Char :=
  if lines.isEmpty then [left, right]
  else left :: newLine (level + 1) ++ separated (',' :: newLine (level + 1)) lines ++ newLine level ++ [right]

mutual

/-- The characters of a value at a level, with one member or element a line. -/
def Value.prettyChars (level : Nat) : Value → List Char
  | .null => "null".toList
  | .bool b => (if b then "true" else "false").toList
  | .number n => (toString n).toList
  | .string s => writeString s
  | .array items => bracketed '[' ']' level (Value.prettyItems (level + 1) items)
  | .object members => bracketed '\x7b' '\x7d' level (Value.prettyMembers (level + 1) members)

/-- The elements of an array at a level. -/
def Value.prettyItems (level : Nat) : List Value → List (List Char)
  | [] => []
  | item :: items => item.prettyChars level :: Value.prettyItems level items

/-- The members of an object at a level. -/
def Value.prettyMembers (level : Nat) : List (String × Value) → List (List Char)
  | [] => []
  | (key, value) :: members =>
    (writeString key ++ ':' :: ' ' :: value.prettyChars level) :: Value.prettyMembers level members

end

/-- The text of a value with one member or element a line. -/
def Value.pretty (v : Value) : String := String.ofList (v.prettyChars 0)

end OfflineSigner.Json
