import OfflineSigner.Text.Blank
import OfflineSigner.Text.Numeral
import OfflineSigner.Text.Quoted
import OfflineSigner.Text.Utf8

/-!
# Hexadecimal text

Byte strings as two hexadecimal digits a byte, most significant first. Writing uses lower case; reading takes either case
and names the first fault: an odd length, else the first character that is no digit. Reading undoes writing
(`decode_encode`).
-/

namespace OfflineSigner.Hex

/-- The digit that writes the lowest four bits of a number. -/
def digit (n : Nat) : Char := "0123456789abcdef".toList.getD (n % 16) '0'

/-- The two digits of a byte. -/
def encodeByte (b : UInt8) : List Char := [digit (b.toNat / 16), digit b.toNat]

/-- The digits of a byte string. -/
def encodeChars (bs : Bytes) : List Char := bs.flatMap encodeByte

/-- A byte string in lower-case hexadecimal. -/
def encode (bs : Bytes) : String := String.ofList (encodeChars bs)

/-- Why a text is no hexadecimal byte string. -/
inductive Error where
  /-- The text has an odd number of bytes. -/
  | oddLength
  /-- The byte `c` at offset `position` is no hexadecimal digit. -/
  | invalidByte (c : UInt8) (position : Nat)
  deriving DecidableEq

/-- The wording of a fault. A byte is shown as the character with its code. -/
def Error.message : Error → String
  | .oddLength => "Odd number of digits"
  | .invalidByte c position => s!"Invalid character {Text.quotedSingle (Char.ofNat c.toNat)} at position {position}"

/-- The value of the hexadecimal digit written by a byte, or the fault at its offset. -/
def digitValue (c : UInt8) (position : Nat) : Except Error Nat :=
  match Text.hexDigit? (Char.ofNat c.toNat) with
  | some v => .ok v
  | none => .error (.invalidByte c position)

/-- The bytes that pairs of digits write, for digits that start at offset `position`. A lone last digit is left out. -/
def decodePairs : (position : Nat) → Bytes → Except Error Bytes
  | position, hi :: lo :: rest => do
    let h ← digitValue hi position
    let l ← digitValue lo (position + 1)
    let bs ← decodePairs (position + 2) rest
    return UInt8.ofNat (16 * h + l) :: bs
  | _, _ => .ok []

/-- The bytes that a text in UTF-8 writes in hexadecimal. -/
def decodeUtf8 (digits : Bytes) : Except Error Bytes :=
  if digits.length % 2 = 1 then .error .oddLength else decodePairs 0 digits

/-- The bytes that a text writes in hexadecimal. -/
def decode (s : String) : Except Error Bytes := decodeUtf8 (Text.utf8 s)

/-- The characters after one leading `0x` or `0X`, if there is one. -/
def dropMark : List Char → List Char
  | '0' :: 'x' :: rest => rest
  | '0' :: 'X' :: rest => rest
  | cs => cs

/-- The bytes that a text writes in hexadecimal, with blanks around it and one leading `0x` allowed. -/
def decodeMarked (s : String) : Except Error Bytes :=
  decodeUtf8 (Text.utf8Chars (dropMark (Text.trimChars s.toList)))

theorem digit_lt (n : Nat) : (digit n).toNat < 128 := by
  have h : n % 16 < 16 := Nat.mod_lt _ (by decide)
  unfold digit
  generalize n % 16 = k at h
  revert k
  decide

theorem hexDigit?_digit (n : Nat) : Text.hexDigit? (digit n) = some (n % 16) := by
  have h : n % 16 < 16 := Nat.mod_lt _ (by decide)
  unfold digit
  generalize n % 16 = k at h
  revert k
  decide

theorem length_encodeChars (bs : Bytes) : (encodeChars bs).length = 2 * bs.length := by
  induction bs with
  | nil => rfl
  | cons b bs ih =>
    simp only [encodeChars, List.flatMap_cons, List.length_append, List.length_cons] at ih ⊢
    simp only [encodeByte, List.length_cons, List.length_nil]
    omega

/-- A digit that is written is read as the four bits it stands for. -/
theorem digitValue_digit (n position : Nat) : digitValue (UInt8.ofNat (digit n).toNat) position = .ok (n % 16) := by
  have h := digit_lt n
  have hc : (UInt8.ofNat (digit n).toNat).toNat = (digit n).toNat := by
    simp only [UInt8.toNat_ofNat']
    omega
  simp [digitValue, hc, hexDigit?_digit]

/-- The two digits of a byte are read as that byte, and reading goes on behind them. -/
theorem decodePairs_encodeByte (b : UInt8) (rest : Bytes) (position : Nat) :
    decodePairs position (Text.utf8Chars (encodeByte b) ++ rest) = (decodePairs (position + 2) rest).map (b :: ·) := by
  have hb : UInt8.ofNat (16 * (b.toNat / 16 % 16) + b.toNat % 16) = b := by
    rw [show 16 * (b.toNat / 16 % 16) + b.toNat % 16 = b.toNat by have := b.toNat_lt; omega]
    exact UInt8.ofNat_toNat
  simp only [encodeByte, Text.utf8Chars_cons, Text.utf8Chars_nil, Text.utf8EncodeChar_of_lt (digit_lt _), List.append_nil,
    List.cons_append, List.nil_append, decodePairs, digitValue_digit]
  simp only [bind, Except.bind, hb, pure, Except.pure]
  cases decodePairs (position + 2) rest <;> rfl

theorem decodePairs_encodeChars (bs : Bytes) (position : Nat) :
    decodePairs position (Text.utf8Chars (encodeChars bs)) = .ok bs := by
  induction bs generalizing position with
  | nil => rfl
  | cons b bs ih =>
    rw [show encodeChars (b :: bs) = encodeByte b ++ encodeChars bs from rfl, Text.utf8Chars_append,
      decodePairs_encodeByte, ih]
    rfl

theorem length_utf8Chars_encodeChars (bs : Bytes) : (Text.utf8Chars (encodeChars bs)).length = 2 * bs.length := by
  induction bs with
  | nil => rfl
  | cons b bs ih =>
    rw [show encodeChars (b :: bs) = encodeByte b ++ encodeChars bs from rfl, Text.utf8Chars_append, List.length_append, ih]
    simp only [encodeByte, Text.utf8Chars_cons, Text.utf8Chars_nil, Text.utf8EncodeChar_of_lt (digit_lt _), List.append_nil,
      List.length_append, List.length_cons, List.length_nil]
    omega

/-- Reading undoes writing. -/
theorem decode_encode (bs : Bytes) : decode (encode bs) = .ok bs := by
  have h : (Text.utf8Chars (encodeChars bs)).length % 2 = 0 := by rw [length_utf8Chars_encodeChars]; omega
  simp [decode, encode, Text.utf8, decodeUtf8, h, decodePairs_encodeChars]

end OfflineSigner.Hex
