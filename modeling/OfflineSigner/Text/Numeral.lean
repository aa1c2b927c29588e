/-!
# Numerals

Decimal and hexadecimal digits in ASCII and the numbers they write. A list of digits denotes a number whatever zeros it
starts with; the empty list denotes zero, and callers that want a digit ask for one.
-/

namespace OfflineSigner.Text

/-- The value of a decimal digit; other characters have none. -/
def digit? (c : Char) : Option Nat :=
  if '0' ≤ c ∧ c ≤ '9' then some (c.toNat - '0'.toNat) else none

/-- The value of a hexadecimal digit of either case; other characters have none. -/
def hexDigit? (c : Char) : Option Nat :=
  if '0' ≤ c ∧ c ≤ '9' then some (c.toNat - '0'.toNat)
  else if 'a' ≤ c ∧ c ≤ 'f' then some (c.toNat - 'a'.toNat + 10)
  else if 'A' ≤ c ∧ c ≤ 'F' then some (c.toNat - 'A'.toNat + 10)
  else none

/-- Whether a character is one of the ten ASCII digits. -/
def isDigit (c : Char) : Bool := (digit? c).isSome

/-- Whether a character is a hexadecimal digit of either case. -/
def isHexDigit (c : Char) : Bool := (hexDigit? c).isSome

/-- The number that digits write in a base, first digit highest. -/
def ofDigits (base : Nat) (ds : List Nat) : Nat := ds.foldl (fun n d => base * n + d) 0

/-- The number that decimal digits write; none when some character is no digit. -/
def decimal? (cs : List Char) : Option Nat := (cs.mapM digit?).map (ofDigits 10)

/-- The number that hexadecimal digits write; none when some character is no digit. -/
def hexadecimal? (cs : List Char) : Option Nat := (cs.mapM hexDigit?).map (ofDigits 16)

end OfflineSigner.Text
