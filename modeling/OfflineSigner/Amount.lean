import OfflineSigner.Failure
import OfflineSigner.Text.Blank
import OfflineSigner.Text.Numeral

/-!
# Decimal amounts

An amount in the units people use is scaled by a power of ten to base units, exactly: digits that the base units cannot
hold are refused, never rounded. Writing an amount drops the zeros at its end, and reading it back gives the same number
of base units.
-/

namespace OfflineSigner

/-- An unsigned number of 256 bits. -/
abbrev Word := BitVec 256

/-- A number as a word, if it fits. -/
def Word.ofNat? (n : Nat) : Option Word := if n < 1 <<< 256 then some (BitVec.ofNat 256 n) else none

namespace Amount

/-- Why a text is no amount. -/
inductive Error where
  | empty
  | invalidCharacter (c : Char)
  | multipleDecimalPoints
  | tooManyDecimals (found allowed : Nat)
  | decimalsTooLarge (decimals : Nat)
  | overflow
  deriving DecidableEq

/-- The wording of a fault. -/
def Error.message : Error → String
  | .empty => "Amount is empty"
  | .invalidCharacter c => s!"Invalid character '{c}' in amount"
  | .multipleDecimalPoints => "Amount has more than one decimal point"
  | .tooManyDecimals found allowed => s!"Amount has {found} fractional digits, token allows {allowed}"
  | .decimalsTooLarge decimals => s!"Decimals {decimals} exceeds maximum of 77"
  | .overflow => "Amount overflows 256 bits"

/-- A fault in an amount as it is reported. -/
def Error.report (e : Error) : Failure := ⟨.invalidInput, e.message, none⟩

/-- The most places for which the unit itself fits in a word. -/
def maxDecimals : Nat := 77

/-- Digits without the zeros at their end. -/
def trimEndZeros (cs : List Char) : List Char := (cs.reverse.dropWhile (· == '0')).reverse

/-- The digits before the first point and what comes after it. -/
def splitPoint (cs : List Char) : List Char × List Char :=
  (cs.takeWhile (· ≠ '.'), (cs.dropWhile (· ≠ '.')).drop 1)

/-- The base units of an amount whose text, without blanks around it, is not empty and has digits and points only. -/
def scale (cs : List Char) (decimals : Nat) : Except Error Word :=
  let (whole, rest) := splitPoint cs
  if rest.contains '.' then .error .multipleDecimalPoints
  else if whole.isEmpty ∧ rest.isEmpty then .error .empty
  else
    let fraction := trimEndZeros rest
    if decimals < fraction.length then .error (.tooManyDecimals fraction.length decimals)
    else
      let digits := whole ++ fraction ++ List.replicate (decimals - fraction.length) '0'
      match Word.ofNat? (Text.ofDigits 10 (digits.filterMap Text.digit?)) with
      | some w => .ok w
      | none => .error .overflow

/-- The base units that a text writes, when one unit is `10 ^ decimals` of them. -/
def parse (s : String) (decimals : Nat) : Except Error Word :=
  let trimmed := Text.trimChars s.toList
  if maxDecimals < decimals then .error (.decimalsTooLarge decimals)
  else if trimmed.isEmpty then .error .empty
  else
    match trimmed.find? fun c => !Text.isDigit c && c ≠ '.' with
    | some c => .error (.invalidCharacter c)
    | none => scale trimmed decimals

/-- The digits of a number with zeros in front, so that there is one more than `decimals` of them. -/
def paddedDigits (n decimals : Nat) : List Char :=
  let digits := Nat.toDigits 10 n
  List.replicate (decimals + 1 - digits.length) '0' ++ digits

/-- The shortest text of a number of base units. -/
def format (value : Word) (decimals : Nat) : String :=
  let digits := paddedDigits value.toNat decimals
  let whole := digits.take (digits.length - decimals)
  let fraction := trimEndZeros (digits.drop (digits.length - decimals))
  String.ofList (if fraction.isEmpty then whole else whole ++ '.' :: fraction)

end Amount

end OfflineSigner
