import OfflineSigner.Text.Quoted

/-!
# Faults in documents

What can be wrong with a JSON text, in its form or against what is expected of it. A text is read from its start, and the
first fault ends the reading. A message says what the fault is and not where it is: no ` at line L column C` follows, neither
here nor in the failures that repeat the message.
-/

namespace OfflineSigner.Json

/-- What stands where something else was expected. -/
inductive Found where
  | null
  | bool (b : Bool)
  | integer (n : Int)
  /-- A number that is no integer of 64 bits, by its text. -/
  | float (text : String)
  | string (s : String)
  | sequence
  | map
  deriving DecidableEq

/-- The wording of what was found. -/
def Found.message : Found → String
  | null => "null"
  | bool b => if b then "boolean `true`" else "boolean `false`"
  | integer n => s!"integer `{n}`"
  | float text => s!"floating point `{text}`"
  | string s => "string " ++ Text.quoted s
  | sequence => "sequence"
  | map => "map"

/-- A fault in a JSON text. -/
inductive Error where
  | eofValue
  | eofList
  | eofObject
  | eofString
  | expectedColon
  | expectedListEnd
  | expectedObjectEnd
  | expectedIdent
  | expectedValue
  | invalidEscape
  | invalidNumber
  | numberOutOfRange
  | controlCharacter
  | keyNotString
  | loneSurrogate
  | unpairedSurrogate
  | trailingComma
  | trailingCharacters
  | tooDeep
  /-- Something of another kind than expected. -/
  | wrongType (found : Found) (expected : String)
  /-- An integer out of range. -/
  | wrongValue (n : Int) (expected : String)
  /-- An array with too few elements. -/
  | wrongLength (length : Nat) (expected : String)
  | missingField (name : String)
  | duplicateField (name : String)
  | unknownVariant (name : String) (variants : List String)
  /-- A value that fits none of the forms of a type. -/
  | noForm (type : String)
  /-- A fault found in the contents of a string. -/
  | contents (message : String)
  deriving DecidableEq

/-- A list of choices as text. -/
def choices (names : List String) : String :=
  match names.map fun name => s!"`{name}`" with
  | [] => "there are no variants"
  | [a] => s!"expected {a}"
  | [a, b] => s!"expected {a} or {b}"
  | names => "expected one of " ++ String.intercalate ", " names

/-- The wording of a fault. -/
def Error.message : Error → String
  | eofValue => "EOF while parsing a value"
  | eofList => "EOF while parsing a list"
  | eofObject => "EOF while parsing an object"
  | eofString => "EOF while parsing a string"
  | expectedColon => "expected `:`"
  | expectedListEnd => "expected `,` or `]`"
  | expectedObjectEnd => "expected `,` or `\x7d`"
  | expectedIdent => "expected ident"
  | expectedValue => "expected value"
  | invalidEscape => "invalid escape"
  | invalidNumber => "invalid number"
  | numberOutOfRange => "number out of range"
  | controlCharacter => "control character (\\u0000-\\u001F) found while parsing a string"
  | keyNotString => "key must be a string"
  | loneSurrogate => "lone leading surrogate in hex escape"
  | unpairedSurrogate => "unexpected end of hex escape"
  | trailingComma => "trailing comma"
  | trailingCharacters => "trailing characters"
  | tooDeep => "recursion limit exceeded"
  | wrongType found expected => s!"invalid type: {found.message}, expected {expected}"
  | wrongValue n expected => s!"invalid value: integer `{n}`, expected {expected}"
  | wrongLength length expected => s!"invalid length {length}, expected {expected}"
  | missingField name => s!"missing field `{name}`"
  | duplicateField name => s!"duplicate field `{name}`"
  | unknownVariant name variants => s!"unknown variant `{name}`, {choices variants}"
  | noForm type => s!"data did not match any variant of {type}"
  | contents message => message

end OfflineSigner.Json
