import OfflineSigner.Curve.Key
import OfflineSigner.Failure
import OfflineSigner.Hash.Keccak256
import OfflineSigner.Hex

/-!
# EVM addresses

The last twenty bytes of the hash of a public key, written in hexadecimal after `0x`. A text with letters of both cases
carries a checksum in them: a letter is a capital where the hash of the lower-case text has a digit of eight or more.
-/

namespace OfflineSigner

/-- The twenty bytes of an EVM address. -/
abbrev EvmAddress := FixedBytes 20

namespace EvmAddress

/-- Why a text is no EVM address; each cause holds the text without the blanks around it. -/
inductive Error where
  | missingMark (text : String)
  | malformed (text : String)
  | checksum (text : String)
  deriving DecidableEq

/-- The wording of a fault. -/
def Error.message : Error → String
  | .missingMark text => s!"Missing 0x prefix: {text}"
  | .malformed text => s!"Expected 0x followed by 40 hex characters: {text}"
  | .checksum text => s!"EIP-55 checksum mismatch: {text}"

/-- A fault in an address as it is reported. -/
def Error.report (e : Error) : Failure := ⟨.invalidAddress, e.message, none⟩

/-- The address of a public key. -/
def ofPublicKey (K : Curve.PublicKey) : EvmAddress := (Hash.keccak256 K.coordinates.toList).drop 12

/-- The hexadecimal digits of a byte string, one number each. -/
def nibbles (bs : Bytes) : List Nat := bs.flatMap fun b => [b.toNat / 16, b.toNat % 16]

/-- Hexadecimal digits with the letters in capitals that stand beside a hash digit of eight or more. -/
def capitalize (digits : List Char) (hash : List Nat) : List Char :=
  List.zipWith (fun c h => if 8 ≤ h then c.toUpper else c) digits hash

/-- The checksummed text of a byte string. The hash has a digit for each of at most 32 bytes; longer strings have no
such text. -/
def checksummed? (bs : Bytes) : Option String :=
  let digits := Hex.encodeChars bs
  if bs.length ≤ 32 then
    some (String.ofList ('0' :: 'x' ::
      capitalize digits (nibbles (Hash.keccak256 (Text.utf8Chars digits)).toList)))
  else none

/-- The checksummed text of an address. -/
def text (a : EvmAddress) : String :=
  let digits := Hex.encodeChars a.toList
  String.ofList ('0' :: 'x' :: capitalize digits (nibbles (Hash.keccak256 (Text.utf8Chars digits)).toList))

/-- The address that a text writes, with blanks around it allowed. -/
def parse (s : String) : Except Error EvmAddress :=
  let trimmed := Text.trimChars s.toList
  match trimmed with
  | '0' :: 'x' :: body =>
    if body.all Text.isHexDigit then
      match (Hex.decodeUtf8 (Text.utf8Chars body)).toOption.bind (FixedBytes.ofList? 20) with
      | none => .error (.malformed (String.ofList trimmed))
      | some a =>
        if body.any Char.isLower ∧ body.any Char.isUpper ∧ EvmAddress.text a ≠ String.ofList trimmed then
          .error (.checksum (String.ofList trimmed))
        else .ok a
    else .error (.malformed (String.ofList trimmed))
  | _ => .error (.missingMark (String.ofList trimmed))

/-- Whether a text writes an address. -/
def isValid (s : String) : Bool := (parse s).toOption.isSome

end EvmAddress

end OfflineSigner
