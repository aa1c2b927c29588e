import OfflineSigner.Amount

/-!
# Quantities

A whole number as a request gives it: as a number, or as a text in decimal or in hexadecimal after `0x`.
-/

namespace OfflineSigner.Request

/-- A whole number as it is given. -/
inductive Quantity where
  | number (n : UInt64)
  | text (s : String)
  deriving DecidableEq

namespace Quantity

/-- The number that at most 64 hexadecimal digits write, after one optional `0x`. No digits write zero. -/
def hexWord? (cs : List Char) : Option Word :=
  let digits := match cs with
    | '0' :: 'x' :: rest => rest
    | cs => cs
  if 64 < digits.length then none else (Text.hexadecimal? digits).bind Word.ofNat?

/-- The number that a text without blanks around it writes. No digits write zero. -/
def textWord? (cs : List Char) : Option Word :=
  match cs with
  | '0' :: 'x' :: rest => hexWord? rest
  | cs => (Text.decimal? cs).bind Word.ofNat?

/-- The number that a quantity gives. -/
def value : Quantity → Except Failure Word
  | number n => .ok (BitVec.ofNat 256 n.toNat)
  | text s =>
    match textWord? (Text.trimChars s.toList) with
    | some w => .ok w
    | none => .error ⟨.invalidInput, s!"Invalid quantity '{Text.trim s}'", none⟩

/-- The number that an optional quantity gives. -/
def value? : Option Quantity → Except Failure (Option Word)
  | none => .ok none
  | some q => q.value.map some

end Quantity

end OfflineSigner.Request
