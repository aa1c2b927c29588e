import OfflineSigner.Bytes

/-!
# Text as bytes

The UTF-8 form of a text. Sizes of texts and positions in them are counted in these bytes.
-/

namespace OfflineSigner.Text

/-- The UTF-8 bytes of a list of characters. -/
def utf8Chars (cs : List Char) : Bytes := cs.flatMap String.utf8EncodeChar

/-- The UTF-8 bytes of a text. -/
def utf8 (s : String) : Bytes := utf8Chars s.toList

@[simp] theorem utf8Chars_nil : utf8Chars [] = [] := rfl

@[simp] theorem utf8Chars_cons (c : Char) (cs : List Char) :
    utf8Chars (c :: cs) = String.utf8EncodeChar c ++ utf8Chars cs := rfl

@[simp] theorem utf8Chars_append (as bs : List Char) : utf8Chars (as ++ bs) = utf8Chars as ++ utf8Chars bs := by
  simp [utf8Chars]

/-- An ASCII character is one byte, its code. -/
theorem utf8EncodeChar_of_lt {c : Char} (h : c.toNat < 128) : String.utf8EncodeChar c = [UInt8.ofNat c.toNat] := by
  have h' : c.toNat ≤ 127 := by omega
  unfold String.utf8EncodeChar
  simp [h']

/-- The size of a list of characters in UTF-8. -/
def utf8Size : List Char → Nat
  | [] => 0
  | c :: cs => c.utf8Size + utf8Size cs

theorem length_utf8Chars (cs : List Char) : (utf8Chars cs).length = utf8Size cs := by
  induction cs with
  | nil => rfl
  | cons c cs ih => simp [utf8Size, ih]

/-- The characters cut after the given number of bytes; none when that is inside a character or past the end. -/
def cut? : (size : Nat) → List Char → Option (List Char × List Char)
  | 0, cs => some ([], cs)
  | _ + 1, [] => none
  | size + 1, c :: cs =>
    if c.utf8Size ≤ size + 1 then (cut? (size + 1 - c.utf8Size) cs).map fun (left, right) => (c :: left, right) else none

end OfflineSigner.Text
