import OfflineSigner.Json.Reader
import OfflineSigner.Json.Value
import OfflineSigner.Proofs.Text.Numeral

/-!
# Documents by their layout

A document as it is written (`Layout`): a tree of literals with all that a writer is free to choose, which are the spaces
between the parts, the escapes in strings and the forms of numbers. A layout has a text (`Layout.chars`), and what it says
apart from those choices is a tree (`Layout.tree`), in which members of objects keep their order and may have one key twice.
-/

namespace OfflineSigner.Json

/-! ## Literals -/

/-- Spaces between the parts of a document, or none. -/
structure Gap where
  chars : List Char
  spaces : ∀ c ∈ chars, isSpace c = true

/-- No spaces. -/
def Gap.none : Gap := ⟨[], nofun⟩

/-- Something with spaces around it. -/
structure Placed (α : Type) where
  before : Gap
  value : α
  after : Gap

/-- The letters of short escapes, with the characters that they stand for. -/
def shortEscapes : List (Char × Char) :=
  [('"', '"'), ('\\', '\\'), ('/', '/'), ('b', '\x08'), ('f', '\x0c'), ('n', '\n'), ('r', '\r'), ('t', '\t')]

/-- A part of a string literal: a character that stands for itself, a short escape, or an escape by the number of a code unit. -/
inductive Part where
  | plain (c : Char) (h : c ≠ '"' ∧ c ≠ '\\' ∧ 0x20 ≤ c.toNat)
  | short (letter c : Char) (h : (letter, c) ∈ shortEscapes)
  | code (a b c d : Char) (unit : Nat) (h : Text.Numeral 16 [a, b, c, d] unit)

/-- A part as it is written. -/
def Part.chars : Part → List Char
  | plain c _ => [c]
  | short letter _ _ => ['\\', letter]
  | code a b c d _ _ => ['\\', 'u', a, b, c, d]

/-- A string literal between its quotes. -/
abbrev Literal := List Part

/-- A string literal from behind its opening quote on. -/
def Literal.inner (literal : Literal) : List Char := literal.flatMap Part.chars ++ ['"']

/-- A string literal as it is written. -/
def Literal.chars (literal : Literal) : List Char := '"' :: literal.inner

/-- The characters that a string literal says. It says none when half of a pair of code units stands on its own. -/
def Literal.decode? : Literal → Option (List Char)
  | [] => some []
  | .plain c _ :: literal => (decode? literal).map (c :: ·)
  | .short _ c _ :: literal => (decode? literal).map (c :: ·)
  | .code _ _ _ _ unit _ :: literal =>
    if isLowSurrogate unit then none
    else if isHighSurrogate unit then
      match literal with
      | .code _ _ _ _ low _ :: literal =>
        if isLowSurrogate low then (decode? literal).map (ofPair unit low :: ·) else none
      | _ => none
    else (decode? literal).map (Char.ofNat unit :: ·)

/-- The text that a string literal says. -/
def Literal.text? (literal : Literal) : Option String := literal.decode?.map String.ofList

/-- Decimal digits, at least one. -/
structure Digits where
  chars : List Char
  ne_nil : chars ≠ []
  digits : ∀ c ∈ chars, Text.isDigit c = true

/-- The exponent of a number. -/
structure Exponent where
  mark : Char
  mark_eq : mark = 'e' ∨ mark = 'E'
  sign : List Char
  sign_eq : sign = [] ∨ sign = ['+'] ∨ sign = ['-']
  digits : Digits

/-- A number as it is written. A zero in front stands alone. -/
structure NumberText where
  negative : Bool
  whole : Digits
  alone : whole.chars.head? = some '0' → whole.chars = ['0']
  fraction : Option Digits
  exponent : Option Exponent

namespace NumberText

/-- The sign. -/
def signChars (n : NumberText) : List Char := if n.negative then ['-'] else []

/-- The fraction with its point. -/
def fractionChars (n : NumberText) : List Char :=
  match n.fraction with
  | none => []
  | some digits => '.' :: digits.chars

/-- The exponent with its mark. -/
def exponentChars (n : NumberText) : List Char :=
  match n.exponent with
  | none => []
  | some e => e.mark :: e.sign ++ e.digits.chars

/-- The number after its digits in front of the point. -/
def tailChars (n : NumberText) : List Char := n.fractionChars ++ n.exponentChars

def chars (n : NumberText) : List Char := n.signChars ++ (n.whole.chars ++ n.tailChars)

/-- Whether a number is written as the digits of a natural number, without sign, fraction and exponent. -/
structure Natural (n : NumberText) (value : Nat) : Prop where
  positive : n.negative = false
  fraction : n.fraction = none
  exponent : n.exponent = none
  value_eq : Text.digitsValue n.whole.chars = value

/-- Whether a number is written as the digits of an integer, without fraction and exponent, behind a sign where it is negative. -/
structure Integer (n : NumberText) (value : Int) : Prop where
  negative_iff : n.negative = true ↔ value < 0
  fraction : n.fraction = none
  exponent : n.exponent = none
  natAbs_eq : Text.digitsValue n.whole.chars = value.natAbs

theorem integer_natCast_iff {n : NumberText} {v : Nat} : n.Integer v ↔ n.Natural v := by
  constructor
  · intro h
    refine ⟨?_, h.fraction, h.exponent, h.natAbs_eq⟩
    rw [← Bool.not_eq_true, h.negative_iff]
    omega
  · intro h
    refine ⟨?_, h.fraction, h.exponent, h.value_eq⟩
    rw [h.positive]
    exact iff_of_false nofun (by omega)

end NumberText

/-! ## Layouts and trees -/

/-- A document as it is written, without spaces around it. Spaces in front of the first element or member are its own, so the
first gap counts for empty brackets. -/
inductive Layout where
  | null
  | bool (b : Bool)
  | number (n : NumberText)
  | string (literal : Literal)
  | array (space : Gap) (items : List (Placed Layout))
  | object (space : Gap) (members : List (Placed Literal × Placed Layout))

/-- What a document says, as far as its kind matters: numbers stay as they are written. -/
inductive Tree where
  | null
  | bool (b : Bool)
  | number (n : NumberText)
  /-- A string, or a literal that says none. -/
  | string (s : Option String)
  | array (items : List Tree)
  | object (members : List (Option String × Tree))

namespace Layout

mutual

/-- The characters of a document. -/
def chars : Layout → List Char
  | null => ['n', 'u', 'l', 'l']
  | bool true => ['t', 'r', 'u', 'e']
  | bool false => ['f', 'a', 'l', 's', 'e']
  | number n => n.chars
  | string literal => literal.chars
  | array space items => '[' :: space.chars ++ separated [','] (itemTexts items) ++ [']']
  | object space members => '\x7b' :: space.chars ++ separated [','] (memberTexts members) ++ ['\x7d']

/-- The elements of an array, each with the spaces around it. -/
def itemTexts : List (Placed Layout) → List (List Char)
  | [] => []
  | ⟨before, d, after⟩ :: items => (before.chars ++ d.chars ++ after.chars) :: itemTexts items

/-- The members of an object, each with the spaces around its key and its value. -/
def memberTexts : List (Placed Literal × Placed Layout) → List (List Char)
  | [] => []
  | (key, ⟨before, d, after⟩) :: members =>
    (key.before.chars ++ key.value.chars ++ key.after.chars ++ ':' :: before.chars ++ d.chars ++ after.chars) ::
      memberTexts members

end

mutual

/-- What a document says. -/
def tree : Layout → Tree
  | null => .null
  | bool b => .bool b
  | number n => .number n
  | string literal => .string literal.text?
  | array _ items => .array (itemTrees items)
  | object _ members => .object (memberTrees members)

/-- What the elements of an array say. -/
def itemTrees : List (Placed Layout) → List Tree
  | [] => []
  | ⟨_, d, _⟩ :: items => d.tree :: itemTrees items

/-- What the members of an object say. -/
def memberTrees : List (Placed Literal × Placed Layout) → List (Option String × Tree)
  | [] => []
  | (key, ⟨_, d, _⟩) :: members => (key.value.text?, d.tree) :: memberTrees members

end

end Layout

/-- The text of a document with the spaces around it. -/
def Placed.text (d : Placed Layout) : String := String.ofList (d.before.chars ++ d.value.chars ++ d.after.chars)

end OfflineSigner.Json
