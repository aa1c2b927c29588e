import OfflineSigner.Text.Printable

/-!
# Quoted text

Texts and single characters as diagnostics show them: between quotes, with the usual short escapes, and with characters
that cannot be seen written by their code in hexadecimal.
-/

namespace OfflineSigner.Text

/-- A character inside quotes of the kind `quote`: that quote and the backslash are escaped, the other quote is not. -/
def quotedChar (quote c : Char) : List Char :=
  if c == quote || c == '\\' then ['\\', c]
  else if c == '\x00' then ['\\', '0']
  else if c == '\t' then ['\\', 't']
  else if c == '\r' then ['\\', 'r']
  else if c == '\n' then ['\\', 'n']
  else if isCoded c then ['\\', 'u', '\x7b'] ++ Nat.toDigits 16 c.toNat ++ ['\x7d']
  else [c]

/-- A text between double quotes. -/
def quoted (s : String) : String := String.ofList ('"' :: s.toList.flatMap (quotedChar '"') ++ ['"'])

/-- A single character between single quotes. -/
def quotedSingle (c : Char) : String := String.ofList ('\'' :: quotedChar '\'' c ++ ['\''])

end OfflineSigner.Text
