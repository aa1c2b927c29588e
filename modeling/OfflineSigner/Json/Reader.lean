import OfflineSigner.Json.Lexeme

/-!
# Reading documents

A reader takes characters from the start of a text and gives a value or the first fault. What a document must hold is said
by readers put together: records, lists, choices, scalars. Members of objects may come in any order; those that a record
does not know are skipped, whatever they hold.
-/

namespace OfflineSigner.Json

/-- A reader of values from the start of a text. -/
abbrev Reader := StateT (List Char) (Except Error)

/-- Whether a character may stand between the parts of a document. -/
def isSpace (c : Char) : Bool := c == ' ' || c == '\n' || c == '\t' || c == '\r'

/-- Skips the spaces at the start. -/
def skipSpaces : Reader Unit := modify (·.dropWhile isSpace)

/-- The first character after spaces, which is left there. -/
def peek? : Reader (Option Char) := do
  skipSpaces
  return (← get).head?

/-- Skips one character. -/
def eat : Reader Unit := modify (·.drop 1)

/-- Reads by a function on the characters. -/
def lexeme {α : Type} (f : List Char → Except Error (α × List Char)) : Reader α := fun cs => f cs

/-- Skips the rest of a word. -/
def word : List Char → Reader Unit
  | [] => pure ()
  | c :: cs => do
    match (← get).head? with
    | none => throw .eofValue
    | some c' => if c' = c then do eat; word cs else throw .expectedIdent

/-- A string, from its opening quote on. -/
def stringBody : Reader String := do
  eat
  return String.ofList (← lexeme stringChars)

/-- A number, from its sign or first digit on. -/
def numberBody : Reader Number := do
  if (← get).head? = some '-' then do eat; lexeme (number true) else lexeme (number false)

/-- Refuses what stands next for being of another kind. A scalar is read to its end first. -/
def refuse {α : Type} (expected : String) : Reader α := do
  let some c ← peek? | throw .eofValue
  if c = 'n' then do eat; word ['u', 'l', 'l']; throw (.wrongType .null expected)
  else if c = 't' then do eat; word ['r', 'u', 'e']; throw (.wrongType (.bool true) expected)
  else if c = 'f' then do eat; word ['a', 'l', 's', 'e']; throw (.wrongType (.bool false) expected)
  else if c = '-' ∨ Text.isDigit c then throw (.wrongType (← numberBody).found expected)
  else if c = '"' then throw (.wrongType (.string (← stringBody)) expected)
  else if c = '[' then throw (.wrongType .sequence expected)
  else if c = '\x7b' then throw (.wrongType .map expected)
  else throw .expectedValue

/-- An integer from `low` to `high`. -/
def integer (low high : Int) (expected : String) : Reader Int := do
  let some c ← peek? | throw .eofValue
  if c = '-' ∨ Text.isDigit c then
    match ← numberBody with
    | .integer n => if low ≤ n ∧ n ≤ high then return n else throw (.wrongValue n expected)
    | .float text => throw (.wrongType (.float text) expected)
  else refuse expected

/-- An unsigned number of 64 bits. -/
def uint64 : Reader UInt64 := do return UInt64.ofNat (← integer 0 0xffffffffffffffff "u64").toNat

/-- An unsigned number of 32 bits. -/
def uint32 : Reader UInt32 := do return UInt32.ofNat (← integer 0 0xffffffff "u32").toNat

/-- A signed number of 32 bits. -/
def int32 : Reader Int32 := do return Int32.ofInt (← integer (-0x80000000) 0x7fffffff "i32")

/-- A truth value. -/
def bool : Reader Bool := do
  let some c ← peek? | throw .eofValue
  if c = 't' then do eat; word ['r', 'u', 'e']; return true
  else if c = 'f' then do eat; word ['a', 'l', 's', 'e']; return false
  else refuse "a boolean"

/-- A string. -/
def string : Reader String := do
  let some c ← peek? | throw .eofValue
  if c = '"' then stringBody else refuse "a string"

/-- A value or null. -/
def optional {α : Type} (value : Reader α) : Reader (Option α) := do
  if (← peek?) = some 'n' then do eat; word ['u', 'l', 'l']; return none
  else return some (← value)

/-- Whether a list goes on with another element; a comma in front of it is skipped. -/
def nextElement (first : Bool) : Reader Bool := do
  let some c ← peek? | throw .eofList
  if c = ']' then return false
  else if first then return true
  else if c = ',' then do
    eat
    match ← peek? with
    | none => throw .eofValue
    | some ']' => throw .trailingComma
    | some _ => return true
  else throw .expectedListEnd

/-- The end of a list whose elements are read. -/
def endList : Reader Unit := do
  match ← peek? with
  | none => throw .eofList
  | some ']' => eat
  | some ',' => do
    eat
    throw (if (← peek?) = some ']' then .trailingComma else .trailingCharacters)
  | some _ => throw .trailingCharacters

/-- The elements of a list, at most `count` of them. -/
def elements {α : Type} (element : Reader α) : (count : Nat) → (first : Bool) → Reader (List α)
  | 0, _ => pure []
  | count + 1, first => do
    if ← nextElement first then
      let a ← element
      return a :: (← elements element count false)
    else return []

/-- A list. Each element takes a character, so the characters bound their number. -/
def list {α : Type} (element : Reader α) : Reader (List α) := do
  let some c ← peek? | throw .eofValue
  if c = '[' then
    eat
    let as ← elements element ((← get).length + 1) true
    endList
    return as
  else refuse "a sequence"

/-- The key of an object's next member, if there is one; a comma in front of it is skipped. -/
def nextKey (first : Bool) : Reader (Option String) := do
  let some c ← peek? | throw .eofObject
  if c = '\x7d' then return none
  else if first then
    if c = '"' then return some (← stringBody) else throw .keyNotString
  else if c = ',' then do
    eat
    match ← peek? with
    | none => throw .eofValue
    | some '"' => return some (← stringBody)
    | some '\x7d' => throw .trailingComma
    | some _ => throw .keyNotString
  else throw .expectedObjectEnd

/-- The colon between a key and its value. -/
def colon : Reader Unit := do
  match ← peek? with
  | none => throw .eofObject
  | some ':' => eat
  | some _ => throw .expectedColon

/-- An open bracket. -/
inductive Bracket where
  | square
  | curly
  deriving DecidableEq

/-- The fault of a text that ends within a bracket. -/
def Bracket.eof : Bracket → Error
  | square => .eofList
  | curly => .eofObject

/-- The fault of something else than a comma or the end within a bracket. -/
def Bracket.unclosed : Bracket → Error
  | square => .expectedListEnd
  | curly => .expectedObjectEnd

/-- The character that closes a bracket. -/
def Bracket.close : Bracket → Char
  | square => ']'
  | curly => '\x7d'

/-- Skips a scalar, or the bracket with which a list or an object starts. -/
def skipStart : Reader (Option Bracket) := do
  let some c ← peek? | throw .eofValue
  let scalar (body : Reader Unit) : Reader (Option Bracket) := do
    eat
    body
    return none
  let rest (f : List Char → Except Error (List Char)) : Reader Unit := fun cs => (f cs).map ((), ·)
  if c = 'n' then scalar (word ['u', 'l', 'l'])
  else if c = 't' then scalar (word ['r', 'u', 'e'])
  else if c = 'f' then scalar (word ['a', 'l', 's', 'e'])
  else if c = '-' then scalar (rest skipNumber)
  else if Text.isDigit c then do
    rest skipNumber
    return none
  else if c = '"' then scalar (rest skipStringChars)
  else if c = '[' then do
    eat
    return some .square
  else if c = '\x7b' then do
    eat
    return some .curly
  else throw .expectedValue

/-- Skips the brackets that close after a value, innermost first, and the comma after them. What stays open is left.
`value` tells that a value stands before, so that a comma may follow. -/
def skipClosing : (value : Bool) → List Bracket → Reader (List Bracket)
  | _, [] => pure []
  | value, top :: below => do
    let some c ← peek? | throw top.eof
    if value ∧ c = ',' then do
      eat
      return top :: below
    else if c = top.close then do
      eat
      skipClosing true below
    else if value then throw top.unclosed
    else return top :: below

/-- Skips the key and the colon before the next value within a bracket. -/
def skipKey : Bracket → Reader Unit
  | .square => pure ()
  | .curly => do
    match ← peek? with
    | none => throw .eofObject
    | some '"' => do
      eat
      fun cs => (skipStringChars cs).map ((), ·)
      colon
    | some _ => throw .keyNotString

/-- Skips values until all brackets are closed, at most `count` of them. -/
def skipWithin : (count : Nat) → List Bracket → Reader Unit
  | 0, _ => pure ()
  | count + 1, brackets => do
    let opened ← skipStart
    let left ← match opened with
      | some bracket => skipClosing false (bracket :: brackets)
      | none => skipClosing true brackets
    match left with
    | [] => pure ()
    | top :: below => do
      skipKey top
      skipWithin count (top :: below)

/-- Skips a value, of any depth. Each value within it takes a character, so the characters bound their number. -/
def skip : Reader Unit := do skipWithin ((← get).length + 1) []

/-- The members of an object, at most `count` of them. `field` gives the reader of a key's value, which starts at the
colon, from what is read so far; the values of keys that it does not know are skipped. -/
def members {σ : Type} (field : σ → String → Option (Reader σ)) : (count : Nat) → (first : Bool) → σ → Reader σ
  | 0, _, st => pure st
  | count + 1, first, st => do
    match ← nextKey first with
    | none => return st
    | some key =>
      match field st key with
      | some value => members field count false (← value)
      | none => do
        colon
        skip
        members field count false st

/-- A record, as an object or as an array. Either reader stops before the closing bracket. -/
def record {α : Type} (name : String) (ofArray ofObject : Reader α) : Reader α := do
  let some c ← peek? | throw .eofValue
  if c = '[' then
    eat
    let a ← ofArray
    endList
    return a
  else if c = '\x7b' then
    eat
    let a ← ofObject
    match ← peek? with
    | none => throw .eofObject
    | some '\x7d' => eat
    | some ',' => throw .trailingComma
    | some _ => throw .trailingCharacters
    return a
  else refuse s!"struct {name}"

/-- The members of a record from an empty one. -/
def fields {σ : Type} (field : σ → String → Option (Reader σ)) (empty : σ) : Reader σ := do
  members field ((← get).length + 1) true empty

/-- The value of a key that may stand once: `before` is what was read for it so far. -/
def once {α σ : Type} (before : Option α) (name : String) (value : Reader α) (store : α → σ) : Option (Reader σ) :=
  some do
    if before.isSome then throw (.duplicateField name)
    colon
    return store (← value)

/-- What was read for a field that has to be there. -/
def required {α : Type} (name : String) : Option α → Reader α
  | some a => pure a
  | none => throw (.missingField name)

/-- The element of a record written as an array at a place, if the array is that long. -/
def elementAt? {α : Type} (place : Nat) (value : Reader α) : Reader (Option α) := do
  if ← nextElement (place == 0) then return some (← value) else return none

/-- The element of a record written as an array at a place. -/
def elementAt {α : Type} (expected : String) (place : Nat) (value : Reader α) : Reader α := do
  match ← elementAt? place value with
  | some a => return a
  | none => throw (.wrongLength place expected)

/-- A choice by its name. It may also be written as an object with the name as key and null as value. -/
def choice {α : Type} (names : List String) (ofName? : String → Option α) : Reader α := do
  let named (s : String) : Reader α :=
    match ofName? s with
    | some a => pure a
    | none => throw (.unknownVariant s names)
  let some c ← peek? | throw .eofValue
  if c = '"' then named (← stringBody)
  else if c = '\x7b' then
    eat
    let some k ← peek? | throw .eofObject
    if k = '\x7d' then throw .expectedValue
    if k ≠ '"' then throw .keyNotString
    let a ← named (← stringBody)
    colon
    match ← peek? with
    | none => throw .eofValue
    | some 'n' => do eat; word ['u', 'l', 'l']
    | some _ => refuse "unit"
    match ← peek? with
    | none => throw .eofObject
    | some '\x7d' => eat
    | some _ => throw .expectedValue
    return a
  else throw .expectedValue

/-- A value of any kind, as far as its kind matters. -/
inductive Content where
  | natural (n : UInt64)
  | string (s : String)
  | other

/-- The content of a number. -/
def Content.ofNumber : Number → Content
  | .integer n => if 0 ≤ n then .natural (UInt64.ofNat n.toNat) else .other
  | .float _ => .other

/-- A value of any kind, with less than `depth` levels of brackets. -/
def anything : (depth : Nat) → Reader Content
  | 0 => throw .tooDeep
  | depth + 1 => do
    let some c ← peek? | throw .eofValue
    if c = 'n' then do eat; word ['u', 'l', 'l']; return .other
    else if c = 't' then do eat; word ['r', 'u', 'e']; return .other
    else if c = 'f' then do eat; word ['a', 'l', 's', 'e']; return .other
    else if c = '-' ∨ Text.isDigit c then return Content.ofNumber (← numberBody)
    else if c = '"' then return .string (← stringBody)
    else if c = '[' then
      if depth = 0 then throw .tooDeep
      eat
      let _ ← elements (anything depth) ((← get).length + 1) true
      endList
      return .other
    else if c = '\x7b' then
      if depth = 0 then throw .tooDeep
      eat
      fields (fun _ _ => some do colon; let _ ← anything depth) ()
      eat
      return .other
    else throw .expectedValue

/-- The value that a whole text holds. -/
def read {α : Type} (value : Reader α) (text : String) : Except Error α := do
  let (a, rest) ← value text.toList
  if (rest.dropWhile isSpace).isEmpty then .ok a else .error .trailingCharacters

end OfflineSigner.Json
