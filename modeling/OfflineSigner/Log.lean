import OfflineSigner.Text.Blank
import OfflineSigner.Text.Utf8

/-!
# Log lines

A line has a level, a module, a message and fields. What a field shows depends on its key: the values of secrets are not
shown, and those of addresses and hashes only in part. Parts are cut at byte offsets, so a value whose characters do not
end there has no shown form.
-/

namespace OfflineSigner.Log

/-- How much a line matters. -/
inductive Level where
  | debug
  | info
  | warn
  | error
  deriving DecidableEq

/-- The name of a level. -/
def Level.name : Level → String
  | debug => "DEBUG"
  | info => "INFO"
  | warn => "WARN"
  | error => "ERROR"

/-- Words in the keys of values that are not shown. -/
def secretWords : List String :=
  ["private", "secret", "seed", "mnemonic", "wif", "xprv", "chain_code", "tweaked", "passphrase"]

/-- Words in the keys of values that are shown as addresses. -/
def addressWords : List String := ["address", "recipient", "sender", "from", "to", "contract"]

/-- Words in the keys of values that are shown as hashes. -/
def hashWords : List String := ["txid", "hash", "sighash"]

/-- A character in lower case as far as a word can tell: letters of ASCII, and the sign for kelvin, which is the only other
character whose lower case is one letter of ASCII. -/
def lowerChar (c : Char) : Char := if c == '\u212a' then 'k' else c.toLower

/-- Whether the first list stands somewhere in the second. -/
def occursIn (word : List Char) : List Char → Bool
  | [] => word.isEmpty
  | c :: cs => word.isPrefixOf (c :: cs) || occursIn word cs

/-- Whether one of the words stands in a key, in whatever case. -/
def mentions (words : List String) (key : String) : Bool :=
  let lower := key.toList.map lowerChar
  words.any fun word => occursIn word.toList lower

/-- The classes of values by how they are shown. -/
inductive Class where
  | secret
  | address
  | hash
  | open
  deriving DecidableEq

/-- The class of a key's values; secrets come before addresses, and addresses before hashes. -/
def classOf (key : String) : Class :=
  if mentions secretWords key then .secret
  else if mentions addressWords key then .address
  else if mentions hashWords key then .hash
  else .open

/-- What is shown of a secret: at most the size in bytes. -/
def maskedOfSize (size : Nat) : String :=
  if size = 0 then "[EMPTY]"
  else if size ≤ 4 then "[REDACTED]"
  else s!"[REDACTED:{size}chars]"

/-- What is shown instead of a secret value. -/
def masked (value : String) : String := maskedOfSize (Text.utf8Size value.toList)

/-- The first and the last bytes of a text with dots between, if characters end at both cuts. -/
def ends? (first last : Nat) (cs : List Char) : Option String := do
  let (left, _) ← Text.cut? first cs
  let (_, right) ← Text.cut? (Text.utf8Size cs - last) cs
  return String.ofList (left ++ ['.', '.', '.'] ++ right)

/-- Whether a text starts with `0x`. -/
def isMarked : List Char → Bool
  | '0' :: 'x' :: _ => true
  | _ => false

/-- What is shown of an address: its first six bytes, or eight when they start with `0x`, and its last four. Short ones are
masked. -/
def shownAddress? (value : String) : Option String :=
  let cs := Text.trimChars value.toList
  let first := if isMarked cs then 8 else 6
  if cs.isEmpty then some "[EMPTY]"
  else if Text.utf8Size cs ≤ first + 7 then some (maskedOfSize (Text.utf8Size cs))
  else ends? first 4 cs

/-- What is shown of a hash: its first ten bytes, or twelve when they start with `0x`, and its last six. Short ones are
shown whole. -/
def shownHash? (value : String) : Option String :=
  let cs := Text.trimChars value.toList
  if Text.utf8Size cs ≤ 20 then some (String.ofList cs)
  else ends? (if isMarked cs then 12 else 10) 6 cs

/-- What is shown of a value under a key. -/
def shown? (key value : String) : Option String :=
  match classOf key with
  | .secret => some (masked value)
  | .address => shownAddress? value
  | .hash => shownHash? value
  | .open => some value

/-- A line, with the shown forms of its fields. -/
structure Entry where
  level : Level
  module : String
  message : String
  fields : List (String × String) := []
  deriving DecidableEq

namespace Entry

/-- The line with one more field, if its value has a shown form. -/
def field? (entry : Entry) (key value : String) : Option Entry :=
  (shown? key value).map fun v => { entry with fields := entry.fields ++ [(key, v)] }

/-- The line with one more field whose value is not shown, whatever its key. -/
def secretField (entry : Entry) (key value : String) : Entry :=
  { entry with fields := entry.fields ++ [(key, masked value)] }

/-- The text of the line. -/
def text (entry : Entry) : String :=
  let line := s!"{entry.level.name} [{entry.module}] {entry.message}"
  match entry.fields with
  | [] => line
  | fields => s!"{line} | " ++ String.intercalate " " (fields.map fun (key, value) => s!"{key}={value}")

end Entry

/-- What can happen to the choice whether lines of the lowest level are written. -/
inductive Event where
  | enable
  | disable
  | emit (level : Level)
  deriving DecidableEq

/-- Whether lines of the lowest level are written after an event; writing a line changes nothing. -/
def debugAfter (enabled : Bool) : Event → Bool
  | .enable => true
  | .disable => false
  | .emit _ => enabled

end OfflineSigner.Log
