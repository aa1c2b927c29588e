import OfflineSigner.Decimal.Double
import OfflineSigner.Json.Error
import OfflineSigner.Text.Numeral
import OfflineSigner.Text.Utf8

/-!
# Strings and numbers in documents

The two kinds of lexeme with an inner form. Each reader takes the characters from inside the lexeme on and gives what it
read with the characters after it.
-/

namespace OfflineSigner.Json

/-- The character of an escape of one letter. -/
def shortEscape? (c : Char) : Option Char :=
  if c == '"' || c == '\\' || c == '/' then some c
  else if c == 'b' then some '\x08'
  else if c == 'f' then some '\x0c'
  else if c == 'n' then some '\n'
  else if c == 'r' then some '\r'
  else if c == 't' then some '\t'
  else none

/-- The number that four hexadecimal digits write. -/
def codeUnit? (a b c d : Char) : Option Nat := Text.hexadecimal? [a, b, c, d]

/-- The fault of an escape by number that is no such escape: there are less than four bytes left, or no digits. -/
def badCode (cs : List Char) : Error := if Text.utf8Size cs < 4 then .eofString else .invalidEscape

/-- Whether a code unit is the first half of a pair. -/
def isHighSurrogate (n : Nat) : Bool := 0xd800 ≤ n && n ≤ 0xdbff

/-- Whether a code unit is the second half of a pair. -/
def isLowSurrogate (n : Nat) : Bool := 0xdc00 ≤ n && n ≤ 0xdfff

/-- The character that a pair of code units stands for. -/
def ofPair (high low : Nat) : Char := Char.ofNat ((high - 0xd800) * 0x400 + (low - 0xdc00) + 0x10000)

/-- What was read with one more character in front. -/
def pushChar (c : Char) : Except Error (List Char × List Char) → Except Error (List Char × List Char)
  | .ok (cs, rest) => .ok (c :: cs, rest)
  | .error e => .error e

/-- The contents of a string up to its closing quote. An escape by number that is half of a pair has to have the other
half behind it. -/
def stringChars : List Char → Except Error (List Char × List Char)
  | [] => .error .eofString
  | '"' :: rest => .ok ([], rest)
  | '\\' :: 'u' :: a :: b :: c :: d :: rest =>
    match codeUnit? a b c d with
    | none => .error .invalidEscape
    | some n =>
      if isLowSurrogate n then .error .loneSurrogate
      else if isHighSurrogate n then
        match rest with
        | '\\' :: 'u' :: a' :: b' :: c' :: d' :: rest' =>
          match codeUnit? a' b' c' d' with
          | none => .error .invalidEscape
          | some n' => if isLowSurrogate n' then pushChar (ofPair n n') (stringChars rest') else .error .loneSurrogate
        | '\\' :: 'u' :: rest' => .error (badCode rest')
        | ['\\'] => .error .eofString
        | [] => .error .eofString
        | _ => .error .unpairedSurrogate
      else pushChar (Char.ofNat n) (stringChars rest)
  | '\\' :: 'u' :: rest => .error (badCode rest)
  | '\\' :: c :: rest =>
    match shortEscape? c with
    | some c => pushChar c (stringChars rest)
    | none => .error .invalidEscape
  | ['\\'] => .error .eofString
  | c :: rest => if c.toNat < 0x20 then .error .controlCharacter else pushChar c (stringChars rest)

/-- The characters after the closing quote of a string whose contents do not matter: halves of pairs are let through. -/
def skipStringChars : List Char → Except Error (List Char)
  | [] => .error .eofString
  | '"' :: rest => .ok rest
  | '\\' :: 'u' :: a :: b :: c :: d :: rest =>
    match codeUnit? a b c d with
    | none => .error .invalidEscape
    | some _ => skipStringChars rest
  | '\\' :: 'u' :: rest => .error (badCode rest)
  | '\\' :: c :: rest => if (shortEscape? c).isSome then skipStringChars rest else .error .invalidEscape
  | ['\\'] => .error .eofString
  | c :: rest => if c.toNat < 0x20 then .error .controlCharacter else skipStringChars rest

/-- A number: an integer of 64 bits, or the text of one that is not. -/
inductive Number where
  | integer (n : Int)
  | float (text : String)
  deriving DecidableEq

/-- A number as something found. -/
def Number.found : Number → Found
  | integer n => .integer n
  | float text => .float text

/-- As many digits as a number of 64 bits holds, onto a number, with the count of those left over. -/
def absorb (n : Nat) : List Nat → Nat × Nat
  | [] => (n, 0)
  | d :: ds => if 10 * n + d < UInt64.size then absorb (10 * n + d) ds else (n, (d :: ds).length)

/-- Digits as numbers. -/
def digitValues (cs : List Char) : List Nat := cs.filterMap Text.digit?

/-- A double times a power of ten: one product or quotient when a double comes near the power, else quotients by steps of
308 places until nothing is left. -/
def timesTenPow (f : Decimal.Double) : (steps : Nat) → (k : Int) → Except Error Decimal.Double
  | steps, k =>
    if k.natAbs ≤ 308 then
      match Decimal.Double.tenPow? k.natAbs with
      | some p =>
        match if 0 ≤ k then f.mul? p else f.div? p with
        | some g => .ok g
        | none => .error .numberOutOfRange
      | none => .error .numberOutOfRange
    else if f.mantissa = 0 then .ok f
    else if 0 ≤ k then .error .numberOutOfRange
    else
      match steps with
      | 0 => .ok Decimal.Double.zero
      | steps + 1 =>
        match Decimal.Double.tenPow? 308 with
        | some p => timesTenPow ((f.div? p).getD Decimal.Double.zero) steps (k + 308)
        | none => .error .numberOutOfRange

/-- The number with a sign, digits and a power of ten. -/
def floatOf (negative : Bool) (significand : Nat) (k : Int) : Except Error Number :=
  match Decimal.Double.ofFraction? significand 1 with
  | none => .error .numberOutOfRange
  | some f =>
    match timesTenPow f 4 k with
    | .error e => .error e
    | .ok g => .ok (.float ((if negative then "-" else "") ++ g.text))

/-- The largest exponent that can be written. -/
def maxExponent : Nat := 0x7fffffff

/-- The number after its exponent's letter. -/
def exponentPart (negative : Bool) (significand : Nat) (k : Int) (cs : List Char) :
    Except Error (Number × List Char) :=
  let (down, cs) := match cs with
    | '+' :: cs => (false, cs)
    | '-' :: cs => (true, cs)
    | cs => (false, cs)
  match cs with
  | [] => .error .eofValue
  | c :: _ =>
    if !Text.isDigit c then .error .invalidNumber
    else
      let rest := cs.dropWhile Text.isDigit
      let e := Text.ofDigits 10 (digitValues (cs.takeWhile Text.isDigit))
      if maxExponent < e then
        if significand ≠ 0 ∧ !down then .error .numberOutOfRange
        else .ok (.float (if negative then "-0.0" else "0.0"), rest)
      else
        match floatOf negative significand (if down then k - e else k + e) with
        | .ok number => .ok (number, rest)
        | .error e => .error e

/-- The number after its digits, where it can have an exponent. -/
def afterDigits (negative : Bool) (significand : Nat) (k : Int) (cs : List Char) :
    Except Error (Number × List Char) :=
  match cs with
  | 'e' :: rest => exponentPart negative significand k rest
  | 'E' :: rest => exponentPart negative significand k rest
  | _ =>
    match floatOf negative significand k with
    | .ok number => .ok (number, cs)
    | .error e => .error e

/-- The number after its point. -/
def fractionPart (negative : Bool) (significand : Nat) (k : Int) (cs : List Char) :
    Except Error (Number × List Char) :=
  let digits := digitValues (cs.takeWhile Text.isDigit)
  let rest := cs.dropWhile Text.isDigit
  if digits.isEmpty then .error (if rest.isEmpty then .eofValue else .invalidNumber)
  else
    let (n, left) := absorb significand digits
    afterDigits negative n (k - (digits.length - left)) rest

/-- The number after its integer digits, of which `left` did not go into the significand. -/
def afterInteger (negative : Bool) (significand left : Nat) (cs : List Char) : Except Error (Number × List Char) :=
  match cs with
  | '.' :: rest => fractionPart negative significand left rest
  | 'e' :: _ => afterDigits negative significand left cs
  | 'E' :: _ => afterDigits negative significand left cs
  | _ =>
    if left = 0 ∧ !negative then .ok (.integer significand, cs)
    else if left = 0 ∧ significand ≠ 0 ∧ significand ≤ 0x8000000000000000 then .ok (.integer (-significand), cs)
    else afterDigits negative significand left cs

/-- The number after its sign. A zero stands alone before a point. -/
def number (negative : Bool) (cs : List Char) : Except Error (Number × List Char) :=
  match cs with
  | [] => .error .eofValue
  | '0' :: rest =>
    if (rest.head?.map Text.isDigit).getD false then .error .invalidNumber else afterInteger negative 0 0 rest
  | c :: _ =>
    if !Text.isDigit c then .error .invalidNumber
    else
      let (n, left) := absorb 0 (digitValues (cs.takeWhile Text.isDigit))
      afterInteger negative n left (cs.dropWhile Text.isDigit)

/-- The characters after the exponent's letter of a number whose value does not matter. -/
def skipExponent (cs : List Char) : Except Error (List Char) :=
  let cs := match cs with
    | '+' :: cs => cs
    | '-' :: cs => cs
    | cs => cs
  let rest := cs.dropWhile Text.isDigit
  if rest.length < cs.length then .ok rest else .error .invalidNumber

/-- The characters after the digits of a number whose value does not matter, where it can have an exponent. -/
def skipAfterDigits (cs : List Char) : Except Error (List Char) :=
  match cs with
  | 'e' :: rest => skipExponent rest
  | 'E' :: rest => skipExponent rest
  | _ => .ok cs

/-- The characters after the integer digits of a number whose value does not matter. -/
def skipAfterInteger (cs : List Char) : Except Error (List Char) :=
  match cs with
  | '.' :: digits =>
    let rest := digits.dropWhile Text.isDigit
    if rest.length < digits.length then skipAfterDigits rest else .error .invalidNumber
  | _ => skipAfterDigits cs

/-- The characters after a number, after its sign, whose value does not matter. -/
def skipNumber (cs : List Char) : Except Error (List Char) :=
  match cs with
  | [] => .error .invalidNumber
  | '0' :: rest =>
    if (rest.head?.map Text.isDigit).getD false then .error .invalidNumber else skipAfterInteger rest
  | c :: _ => if Text.isDigit c then skipAfterInteger (cs.dropWhile Text.isDigit) else .error .invalidNumber

end OfflineSigner.Json
